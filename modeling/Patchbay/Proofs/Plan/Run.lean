import Patchbay.Proofs.Plan.Block

/-! # A whole block

Between two nodes of a block the buffer holds the vectors rendered so far, its static places are
untouched, and the nodes to come find what they found before the block. Every node keeps this, so a
block renders what its trials say from every state that fits.
-/

namespace Patchbay

variable [Platform]

/-- A block in the middle: the nodes in `done` have run, starting from the state `before`. -/
structure Midway (output : NodeId) (trials : List Trial) (lawful : Prop) (before : State)
    (done : List Trial) (r : Rendering) (x : State × Host) : Prop where
  host : x.2 = r.host
  length : x.1.field.length = ((allotments trials).flatMap (·.cells)).length
  fixed : ∀ a : Region, (∀ step ∈ (Plan.ofTrials output trials).steps, a.stop ≤ step.dest.offset) →
    a.read x.1.field = a.read ((allotments trials).flatMap (·.cells))
  values : ∀ t ∈ done, t.live = true →
    (regionOf (placement trials) (.output t.source)).read x.1.field = r.value t.source
  rest : ∀ t ∈ trials, t.live = true → t ∉ done →
    (regionOf (placement trials) (.output t.source)).read x.1.field =
      (regionOf (placement trials) (.output t.source)).read before.field ∧
    x.1.inner.lookup t.source = before.inner.lookup t.source
  children : lawful → ∀ t ∈ done, t.live = true → ∀ p, t.inner = some p →
    ∃ child, x.1.inner.lookup t.source = some child ∧ p.Fits child

/-- A live node has run on the state `s`: its region holds what it renders, and the rest is as it
was. -/
structure Ran (trials : List Trial) (lawful : Prop) (legs : Legs) (r : Rendering) (t : Trial)
    (s s' : State) : Prop where
  frame : Frame trials t s s'
  value : (regionOf (placement trials) (.output t.source)).read s'.field =
    (t.render trials legs r).1
  child : lawful → ∀ p, t.inner = some p →
    ∃ child, s'.inner.lookup t.source = some child ∧ p.Fits child

theorem exists_step {trials : List Trial} {t : Trial} {k : Place} (output : NodeId)
    (ht : t ∈ trials) (hk : k ∈ (t.livePlaces trials).map (·.place)) :
    ∃ step ∈ (Plan.ofTrials output trials).steps, step.dest = regionOf (placement trials) k := by
  obtain ⟨a, ha, rfl⟩ := List.mem_map.1 hk
  have dest := List.mem_map_of_mem (f := fun a => regionOf (placement trials) a.place) ha
  rw [← Plan.map_dest trials t] at dest
  obtain ⟨step, hs, he⟩ := List.mem_map.1 dest
  exact ⟨step, Plan.mem_steps_ofTrials.2 ⟨t, ht, hs⟩, he⟩

theorem Midway.idle {output : NodeId} {trials : List Trial} {lawful : Prop} {before : State}
    {done : List Trial} {t : Trial} {r : Rendering} {x : State × Host}
    (hm : Midway output trials lawful before done r x) {legs : Legs} (hl : t.live = false) :
    Midway output trials lawful before (done ++ [t]) (r.step trials legs t) x := by
  have idle (u : Trial) (hu : u ∈ done ++ [t]) (hul : u.live = true) : u ∈ done := by
    apply (List.mem_append.1 hu).resolve_right
    intro he
    rw [List.mem_singleton.1 he, hl] at hul
    cases hul
  rw [Rendering.step, if_neg (by simp [hl])]
  exact ⟨hm.host, hm.length, hm.fixed, fun u hu hul => hm.values u (idle u hu hul) hul,
    fun u hu hul hud => hm.rest u hu hul fun he => hud (List.mem_append_left _ he),
    fun hlaw u hu hul => hm.children hlaw u (idle u hu hul) hul⟩

namespace Net.Trials
variable {net : Net} {output : NodeId} {externals : Legs} {trials : List Trial}
  (h : net.Trials output externals trials) {lawful : Prop} {before : State} {t : Trial}
include h

theorem midway_live {done : List Trial} {r : Rendering} {x : State × Host}
    (hm : Midway output trials lawful before done r x) {s : State} {legs : Legs} (ht : t ∈ trials)
    (hl : t.live = true) (hd : t ∉ done) (hsub : ∀ u ∈ done, u ∈ trials)
    (ran : Ran trials lawful legs r t x.1 s) :
    Midway output trials lawful before (done ++ [t]) (r.step trials legs t)
      (s, (t.render trials legs r).2) := by
  obtain ⟨frame, value, child⟩ := ran
  have other (u : Trial) (hu : u ∈ trials) (hne : u ≠ t) : u.source ≠ t.source :=
    fun he => hne (h.eq_of_source hu ht he)
  have apart (u : Trial) (hu : u ∈ trials) (hul : u.live = true) (hne : u ≠ t) (k : Place)
      (hk : k ∈ (t.livePlaces trials).map (·.place)) :
      (regionOf (placement trials) (.output u.source)).Apart (regionOf (placement trials) k) :=
    h.apart_live hu ht (other u hu hne) (Trial.mem_livePlaces_output trials hul) hk
  rw [Rendering.step, if_pos hl]
  refine ⟨rfl, frame.length.trans hm.length, fun a ha => ?_, fun u hu hul => ?_,
    fun u hu hul hud => ?_, fun hlaw u hu hul p hp => ?_⟩
  · refine (frame.read a fun k hk => ?_).trans (hm.fixed a ha)
    obtain ⟨step, hstep, he⟩ := exists_step output ht hk
    exact .inl (he ▸ ha step hstep)
  · rcases List.mem_append.1 hu with hu | hu
    · have hne : u ≠ t := fun he => hd (he ▸ hu)
      refine (frame.read _ (apart u (hsub u hu) hul hne)).trans ((hm.values u hu hul).trans ?_)
      exact (if_neg (other u (hsub u hu) hne)).symm
    · rw [List.mem_singleton.1 hu]
      exact value.trans (if_pos rfl).symm
  · rw [List.mem_append, List.mem_singleton, not_or] at hud
    have rest := hm.rest u hu hul hud.1
    exact ⟨(frame.read _ (apart u hu hul hud.2)).trans rest.1,
      (frame.inner _ (other u hu hud.2)).trans rest.2⟩
  · rcases List.mem_append.1 hu with hu | hu
    · have hne : u ≠ t := fun he => hd (he ▸ hu)
      obtain ⟨c, hc, hf⟩ := hm.children hlaw u hu hul p hp
      exact ⟨c, (frame.inner _ (other u (hsub u hu) hne)).trans hc, hf⟩
    · rw [List.mem_singleton.1 hu] at hp ⊢
      exact child hlaw p hp

theorem not_mem_done {done rest : List Trial} (hs : trials = done ++ t :: rest) : t ∉ done := by
  intro hd
  have nodup := h.nodup
  rw [hs, List.map_append, List.map_cons, List.nodup_append] at nodup
  exact nodup.2.2 _ (List.mem_map_of_mem hd) _ List.mem_cons_self rfl

/-- After its conversions a node reads the legs that the block has rendered for it, and its output
is as it was before the block. -/
theorem exists_legs (inner : NodeId → State → Host → Legs → Option Block) (plan : Plan)
    (legs : Legs) {done rest : List Trial} {r : Rendering} {x : State × Host}
    (hm : Midway output trials lawful before done r x) (hr : r.Sound trials done)
    (hs : trials = done ++ t :: rest) (hl : t.live = true) (hi : t.isInput = false) :
    ∃ field : Cells,
      ((t.convertedSockets trials).map fun (x, p) =>
        Step.convert (regionOf (placement trials) (.output p.source))
          (regionOf (placement trials) (.leg t.source x.number)) p.kind (t.reads x.slot)).foldl
        (plan.stepWith inner legs) x = ({ x.1 with field }, x.2) ∧
      Frame trials t x.1 { x.1 with field } ∧
      ((t.sockets trials).map (t.legRegion (placement trials))).map (fun a => a.read field) =
        t.legsOf trials (fun p => r.value p.source) ∧
      (regionOf (placement trials) (.output t.source)).read field =
        (regionOf (placement trials) (.output t.source)).read before.field := by
  have ht : t ∈ trials := hs ▸ List.mem_append_right _ List.mem_cons_self
  have hd := h.not_mem_done hs
  obtain ⟨field, run, frame, reads, own⟩ := h.run_converts inner plan legs x.2 ht hl hi
    hm.length
  have outputs (p : Trial) (hp : p ∈ trials) (hpl : p.live = true)
      (hf : net.Feeds p.source t.source) :
      (regionOf (placement trials) (.output p.source)).read x.1.field = r.value p.source := by
    obtain ⟨q, hq, he⟩ := (h.trial?_before hs _ ((h.mem_sources ht).2 hf)).2
    have hqm : q ∈ trials := hs ▸ List.mem_append_left _ hq
    rw [h.eq_of_source hp hqm he.symm] at hpl ⊢
    exact hm.values q hq hpl
  refine ⟨field, run, frame, ?_, own.trans (hm.rest t ht hl hd).1⟩
  refine h.read_legs ht hl hi (fun k hk => ?_) (fun p hp hpl hf => ?_)
    (fun p hp hpl => hr.settled p hp hpl) fun y hy => ?_
  · refine (frame.read _ fun k' hk' => ?_).trans (hm.fixed _ fun step => h.static_before hk)
    exact .inl (regionOf_before h.nodup (sublist_static ht hk hk'))
  · refine (frame.read _ fun k hk => ?_).trans (outputs p hp hpl hf)
    refine .inl (regionOf_before h.nodup ?_)
    exact sublist_live (h.sublist_of_feeds hp ht hf) (Trial.mem_livePlaces_output trials hpl) hk
  · obtain ⟨hy', hp, hc⟩ := Plan.mem_convertedSockets.1 hy
    obtain ⟨q, hq, hd, _⟩ := Trial.producer_of_convertsLive hc
    cases hp.symm.trans hq
    have hpm := (h.producer_eq ht hy').2 _ hp
    have hpl : y.2.live = true := Trial.live_iff.2 ⟨hd, h.fault_of_producer ht hl hy' hp⟩
    rw [reads y hy, outputs y.2 hpm hpl (h.feeds_of_producer ht hy' hp)]

theorem inner?_plan (ht : t ∈ trials) :
    (Plan.ofTrials output trials).inner? t.source = t.inner := by
  rw [Plan.inner?, h.node?_plan ht]
  rfl

omit h in
theorem mem_liveInner {n : NodeId} : n ∈ (Plan.ofTrials output trials).liveInner ↔
    ∃ t ∈ trials, t.folded = false ∧ t.inner.isSome = true ∧ t.source = n := by
  rw [Plan.liveInner, Plan.ofTrials]
  simp only [List.mem_map, List.mem_filter, Bool.and_eq_true, Bool.not_eq_true']
  constructor
  · rintro ⟨_, ⟨⟨t, ht, rfl⟩, hd, hi⟩, rfl⟩
    exact ⟨t, ht, hd, hi, rfl⟩
  · rintro ⟨t, ht, hd, hi, rfl⟩
    exact ⟨_, ⟨⟨t, ht, rfl⟩, hd, hi⟩, rfl⟩

theorem exists_child {p : Plan} (hf : (Plan.ofTrials output trials).Fits before) (ht : t ∈ trials)
    (hl : t.live = true) (hp : t.inner = some p) :
    ∃ child, before.inner.lookup t.source = some child ∧ p.Fits child := by
  cases hf with
  | intro child _ _ _ children inner =>
    have live : t.source ∈ (Plan.ofTrials output trials).liveInner :=
      mem_liveInner.2 ⟨t, ht, Trial.not_folded_of_live hl, by rw [hp]; rfl, rfl⟩
    exact ⟨child t.source, children _ live, inner _ _ live ((h.inner?_plan ht).trans hp)⟩

omit h in
theorem length_field (hf : (Plan.ofTrials output trials).Fits before) :
    before.field.length = ((allotments trials).flatMap (·.cells)).length := by
  cases hf with
  | intro _ length => exact length

omit h in
theorem steps_body (places : List (Place × Region)) (hl : t.live = true) (hi : t.isInput = false) :
    t.steps places trials =
      ((t.convertedSockets trials).map fun (x, p) =>
        Step.convert (regionOf places (.output p.source))
          (regionOf places (.leg t.source x.number)) p.kind (t.reads x.slot)) ++
      [.evaluate t.source ((t.sockets trials).map (t.legRegion places))
        (regionOf places (.output t.source))] := by
  rw [Trial.steps, if_neg (by simp [hl]), if_neg (by simp [hi])]

/-- The regions of the legs are as long as the legs that a block renders. -/
theorem map_length_legRegion {done : List Trial} {r : Rendering} (hr : r.Sound trials done)
    (ht : t ∈ trials) (hl : t.live = true) (hi : t.isInput = false) :
    ((t.sockets trials).map (t.legRegion (placement trials))).map (·.length) =
      (t.legsOf trials fun p => r.value p.source).map List.length := by
  rw [map_length_legsOf fun s hs p hp => hr.length p ((h.producer_eq ht hs).2 p hp), Trial.legsOf,
    List.map_map, List.map_map]
  exact List.map_congr_left fun s hs => h.length_legRegion ht hl hi hs

theorem fill_eq {done : List Trial} {r : Rendering} {k : Kernel}
    (hf : (Plan.ofTrials output trials).Fits before) (hr : r.Sound trials done) (ht : t ∈ trials)
    (hl : t.live = true) (hi : t.isInput = false) (hb : t.node.operator.body = .kernel k) :
    k.fill t.node.config r.host (t.legsOf trials fun p => r.value p.source)
        ((regionOf (placement trials) (.output t.source)).read before.field) =
      k.fill t.node.config r.host (t.legsOf trials fun p => r.value p.source)
        (List.replicate t.cells.length .zero) := by
  obtain ⟨outLength, outStop⟩ := h.regionOf_output ht
  cases hf with
  | intro child length _ harmless _ _ =>
    have step : Step.evaluate t.source ((t.sockets trials).map (t.legRegion (placement trials)))
        (regionOf (placement trials) (.output t.source)) ∈ (Plan.ofTrials output trials).steps :=
      Plan.mem_evaluate.2 ⟨t, ht, hl, hi, rfl, rfl, rfl⟩
    have clean := harmless _ _ _ _ k step (h.node?_plan ht) hb r.host
      (t.legsOf trials fun p => r.value p.source) (h.map_length_legRegion hr ht hl hi).symm
    have stop : (regionOf (placement trials) (.output t.source)).stop ≤ before.field.length := by
      rw [length]
      exact outStop
    rw [Region.length_read stop, outLength] at clean
    exact clean

section Live
variable (legs : Legs) {done rest : List Trial} {r : Rendering} {x : State × Host}
  (hf : (Plan.ofTrials output trials).Fits before)
  (steady : ∀ t ∈ trials, ∀ p, t.inner = some p → p.Steady lawful)
  (hm : Midway output trials lawful before done r x) (hr : r.Sound trials done)
  (hs : trials = done ++ t :: rest) (hl : t.live = true)

include steady in
/-- What a node renders is written into its region, after changes to its own places only. -/
theorem ran_write {s s' : State} (ht : t ∈ trials) (hl : t.live = true)
    (length : s.field.length = ((allotments trials).flatMap (·.cells)).length)
    (frame : Frame trials t s s')
    (child : lawful → ∀ p, t.inner = some p →
      ∃ child, s'.inner.lookup t.source = some child ∧ p.Fits child) :
    Ran trials lawful legs r t s
      (s'.write (regionOf (placement trials) (.output t.source)) (t.render trials legs r).1) := by
  obtain ⟨outLength, outStop⟩ := h.regionOf_output ht
  have given := (h.length_render steady ht hl legs r).trans outLength.symm
  have stop := outStop.trans_eq (frame.length.trans length).symm
  exact ⟨frame.trans (frame_write (Trial.mem_livePlaces_output trials hl) given stop),
    Region.read_write_same given stop, child⟩

include hf in
/-- Before the body of a live node runs, its region is as long as its output. -/
theorem length_output (ht : t ∈ trials) :
    ((regionOf (placement trials) (.output t.source)).read before.field).length =
      t.cells.length := by
  obtain ⟨outLength, outStop⟩ := h.regionOf_output ht
  rw [Region.length_read (outStop.trans_eq (length_field hf).symm), outLength]

include steady hm hs hl in
theorem run_input (hb : t.node.operator.body = .input) (none : t.inner = none) :
    ∃ s, (t.steps (placement trials) trials).foldl
        ((Plan.ofTrials output trials).stepWith (Plan.ofTrials output trials).runInner legs) x =
          (s, (t.render trials legs r).2) ∧ Ran trials lawful legs r t x.1 s := by
  have ht : t ∈ trials := hs ▸ List.mem_append_right _ List.mem_cons_self
  have hi : t.isInput = true := by simp [Trial.isInput, Operator.isInput, hb]
  have render : t.render trials legs r =
      (fit ((t.index.bind fun i => legs[i]?).getD []) t.fallback t.cells.length, r.host) := by
    simp only [Trial.render, hb]
  refine ⟨_, ?_, h.ran_write legs steady ht hl hm.length .refl fun _ p hp => ?_⟩
  · rw [Trial.steps, if_neg (by simp [hl]), if_pos hi, List.foldl_cons, List.foldl_nil, render]
    simp only [Plan.stepWith, (h.regionOf_output ht).1, hm.host]
  · rw [none] at hp
    cases hp

include hf steady hm hr hs hl in
theorem run_kernel {k : Kernel} (hb : t.node.operator.body = .kernel k) (none : t.inner = none) :
    ∃ s, (t.steps (placement trials) trials).foldl
        ((Plan.ofTrials output trials).stepWith (Plan.ofTrials output trials).runInner legs) x =
          (s, (t.render trials legs r).2) ∧ Ran trials lawful legs r t x.1 s := by
  have ht : t ∈ trials := hs ▸ List.mem_append_right _ List.mem_cons_self
  have hi : t.isInput = false := by simp [Trial.isInput, Operator.isInput, hb]
  have body : (t.planNode (placement trials)).operator.body = .kernel k := hb
  have render : t.render trials legs r =
      (k.fill t.node.config r.host (t.legsOf trials fun p => r.value p.source)
        (List.replicate t.cells.length .zero),
      k.touch t.node.config (t.legsOf trials fun p => r.value p.source) t.cells.length
        r.host) := by
    simp only [Trial.render, hb]
  obtain ⟨field, run, frame, reads, out⟩ := h.exists_legs (Plan.ofTrials output trials).runInner
    (Plan.ofTrials output trials) legs hm hr hs hl hi
  refine ⟨_, ?_, h.ran_write legs steady ht hl hm.length frame fun _ p hp => ?_⟩
  · rw [steps_body _ hl hi, List.foldl_append, run, List.foldl_cons, List.foldl_nil, render]
    simp only [Plan.stepWith, h.node?_plan ht, body, reads, out, hm.host, h.length_output hf ht]
    rw [← h.fill_eq hf hr ht hl hi hb]
    rfl
  · rw [none] at hp
    cases hp

include hf steady hm hr hs hl in
theorem run_promoted {u : Template} {p : Plan} (hb : t.node.operator.body = .promoted u)
    (inner : t.inner = some p) :
    ∃ s, (t.steps (placement trials) trials).foldl
        ((Plan.ofTrials output trials).stepWith (Plan.ofTrials output trials).runInner legs) x =
          (s, (t.render trials legs r).2) ∧ Ran trials lawful legs r t x.1 s := by
  have ht : t ∈ trials := hs ▸ List.mem_append_right _ List.mem_cons_self
  have hi : t.isInput = false := by simp [Trial.isInput, Operator.isInput, hb]
  have body : (t.planNode (placement trials)).operator.body = .promoted u := hb
  obtain ⟨child, found, fits⟩ := h.exists_child hf ht hl inner
  rw [← (hm.rest t ht hl (h.not_mem_done hs)).2] at found
  obtain ⟨same, host, _, after⟩ := (steady t ht p inner).run child fits r.host
    (t.legsOf trials fun p => r.value p.source)
  set b := p.run child r.host (t.legsOf trials fun p => r.value p.source) with hb'
  have render : t.render trials legs r = (b.output, b.host) := by
    simp only [Trial.render, hb, inner, same, host]
  obtain ⟨field, run, frame, reads, out⟩ := h.exists_legs (Plan.ofTrials output trials).runInner
    (Plan.ofTrials output trials) legs hm hr hs hl hi
  have whole : ((regionOf (placement trials) (.output t.source)).read before.field).length =
      b.output.length := by
    rw [h.length_output hf ht, ← h.length_render steady ht hl legs r, render]
  refine ⟨_, ?_, h.ran_write legs steady ht hl hm.length
    (frame.trans (frame_setInner _ b.state)) fun hlaw q hq => ?_⟩
  · rw [steps_body _ hl hi, List.foldl_append, run, List.foldl_cons, List.foldl_nil, render]
    simp only [Plan.stepWith, h.node?_plan ht, body, reads, out, hm.host, found,
      Option.bind_some, Plan.runInner, h.inner?_plan ht, inner, Option.map_some, ← hb',
      pour_of_length_eq whole]
  · rw [inner, Option.some.injEq] at hq
    subst hq
    refine ⟨b.state, ?_, after hlaw⟩
    exact (lookup_setInner _ _ _ _).trans (by rw [if_pos rfl, found]; rfl)

include hf steady hm hr hs hl in
/-- The steps of a live node leave in its region what it renders. -/
theorem run_live :
    ∃ s, (t.steps (placement trials) trials).foldl
        ((Plan.ofTrials output trials).stepWith (Plan.ofTrials output trials).runInner legs) x =
          (s, (t.render trials legs r).2) ∧ Ran trials lawful legs r t x.1 s := by
  have ht : t ∈ trials := hs ▸ List.mem_append_right _ List.mem_cons_self
  rcases h.body_cases ht (Trial.fault_of_live hl).1 with ⟨k, n, hb, _, ho⟩ | ⟨hb, ho⟩ |
    ⟨u, p, hb, _, _, ho⟩
  · exact h.run_kernel legs hf steady hm hr hs hl hb (by rw [Trial.inner, ho])
  · exact h.run_input legs steady hm hs hl hb (by rw [Trial.inner, ho])
  · exact h.run_promoted legs hf steady hm hr hs hl hb (by rw [Trial.inner, ho])

end Live

/-! ### All nodes -/

variable (host : Host) (legs : Legs) (hf : (Plan.ofTrials output trials).Fits before)
include hf

omit h in
theorem midway_start :
    Midway output trials lawful before [] (.start trials host) (before, host) := by
  cases hf with
  | intro _ length fixed =>
    exact ⟨rfl, length, fixed, fun _ hu => (nomatch hu), fun _ _ _ _ => ⟨rfl, rfl⟩,
      fun _ _ hu => (nomatch hu)⟩

variable (steady : ∀ t ∈ trials, ∀ p, t.inner = some p → p.Steady lawful)
include steady

theorem midway_step {done rest : List Trial} {r : Rendering} {x : State × Host}
    (hm : Midway output trials lawful before done r x) (hr : r.Sound trials done)
    (hs : trials = done ++ t :: rest) :
    Midway output trials lawful before (done ++ [t]) (r.step trials legs t)
      ((t.steps (placement trials) trials).foldl
        ((Plan.ofTrials output trials).stepWith
          (Plan.ofTrials output trials).runInner legs) x) := by
  cases hl : t.live with
  | false =>
    rw [Trial.steps, if_pos (by simp [hl]), List.foldl_nil]
    exact hm.idle hl
  | true =>
    have ht : t ∈ trials := hs ▸ List.mem_append_right _ List.mem_cons_self
    obtain ⟨s, run, ran⟩ := h.run_live legs hf steady hm hr hs hl
    rw [run]
    exact h.midway_live hm ht hl (h.not_mem_done hs)
      (fun u hu => hs ▸ List.mem_append_left _ hu) ran

/-- The buffer after a block. -/
theorem midway_run : Midway output trials lawful before trials (rendering trials legs host)
    (((Plan.ofTrials output trials).run before host legs).state,
      ((Plan.ofTrials output trials).run before host legs).host) := by
  have all := foldl_prefix
    (P := fun done x =>
      Midway output trials lawful before done
        (done.foldl (Rendering.step trials legs) (.start trials host)) x ∧
      (done.foldl (Rendering.step trials legs) (.start trials host)).Sound trials done)
    ⟨midway_start host hf, h.sound_start host⟩
    fun done t rest x hs ⟨hm, hr⟩ => by
      rw [List.foldl_append, List.foldl_cons, List.foldl_nil]
      exact ⟨h.midway_step legs hf steady hm hr hs, h.sound_step steady hs hr⟩
  rw [Plan.run_eq, Plan.runWith, Plan.steps, Plan.ofTrials, List.foldl_flatMap]
  exact all.1

end Net.Trials
end Patchbay
