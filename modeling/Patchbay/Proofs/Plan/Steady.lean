import Patchbay.Proofs.Graph.Nesting
import Patchbay.Proofs.Plan.Run

/-! # Blocks that leave no trace

A compiled plan is steady: from every state that fits, a block renders what its trials say, so it
gives what it would have given on a fresh state. Where all bodies are lawful the state fits again,
and so it does after any number of blocks. Promoted nodes have plans of their own, so this goes by
induction on the nesting of nets.
-/

namespace Patchbay

theorem lookup_filterMap {β : Type*} (f : NodeId → Option β) (l : List NodeId) (n : NodeId) :
    (l.filterMap fun m => (f m).map (m, ·)).lookup n = if n ∈ l then f n else none := by
  induction l with
  | nil => rfl
  | cons m l ih =>
    by_cases he : n = m
    · subst he
      cases hf : f n with
      | none => simp [hf, ih]
      | some b => simp [hf]
    · have next : (n == m) = false := by simpa using he
      cases hf : f m with
      | none => simp [hf, ih, he]
      | some b => simp [hf, List.lookup_cons, next, ih, he]

variable [Platform]

theorem Trial.fault_of_inner {t : Trial} {p : Plan} (h : t.inner = some p) : t.fault = none := by
  rw [inner] at h
  rw [fault]
  cases ho : t.outcome with
  | ok y => rfl
  | error f => simp [ho] at h

namespace Net.Trials
variable {net : Net} {output : NodeId} {externals : Legs} {trials : List Trial}
  (h : net.Trials output externals trials) {lawful : Prop} {before : State} {t : Trial}
include h

theorem compile_inner {p : Plan} (ht : t ∈ trials) (hp : t.inner = some p) :
    ∃ u, net.template? t.source = some u ∧
      u.net.compile u.output (t.legsOf trials Trial.cells) = .ok p := by
  rcases h.body_cases ht (Trial.fault_of_inner hp) with
    ⟨_, _, _, _, ho⟩ | ⟨_, ho⟩ | ⟨u, q, _, template, compiled, ho⟩
  · simp [Trial.inner, ho] at hp
  · simp [Trial.inner, ho] at hp
  · simp only [Trial.inner, ho, Option.some.injEq] at hp
    exact ⟨u, template, hp ▸ compiled⟩

theorem outputRegion_plan :
    (Plan.ofTrials output trials).outputRegion =
      regionOf (placement trials) (.output output) := by
  obtain ⟨t, ht, rfl⟩ := h.trial?_output
  rw [Plan.outputRegion, Plan.region?, show (Plan.ofTrials t.source trials).output = t.source from
    rfl, h.node?_plan ht]
  rfl

variable (steady : ∀ t ∈ trials, ∀ p, t.inner = some p → p.Steady lawful)
include steady

theorem fits_fresh : (Plan.ofTrials output trials).Fits (.fresh (.ofTrials output trials)) := by
  refine .intro (fun n => ((Plan.ofTrials output trials).inner? n).elim ⟨[], []⟩ State.fresh)
    (by rw [Plan.fresh_eq]; rfl) (fun _ _ => by rw [Plan.fresh_eq]; rfl) ?_ ?_ ?_
  · intro n legs dest p k hs hp _
    obtain ⟨t, ht, hl, hi, rfl, _, rfl⟩ := Plan.mem_evaluate.1 hs
    obtain ⟨cells, _, mem, zeros⟩ := Trial.place_live hl
    have place := (regionOf_allotment h.nodup (mem_allotments_live ht mem)).2.2.2
    rw [zeros hi] at place
    rw [Plan.fresh_eq]
    intro host given _
    change k.fill _ _ _ ((regionOf (placement trials) (.output t.source)).read
      ((allotments trials).flatMap (·.cells))) = k.fill _ _ _ (List.replicate
        ((regionOf (placement trials) (.output t.source)).read
          ((allotments trials).flatMap (·.cells))).length .zero)
    rw [place, List.length_replicate]
  · intro n hn
    obtain ⟨t, ht, _, hp, rfl⟩ := mem_liveInner.1 hn
    obtain ⟨p, hp⟩ := Option.isSome_iff_exists.1 hp
    rw [Plan.fresh_eq, State.freshWith, lookup_filterMap, if_pos hn, h.inner?_plan ht, hp]
    rfl
  · intro n p hn hp
    obtain ⟨t, ht, _, _, rfl⟩ := mem_liveInner.1 hn
    rw [hp]
    exact (steady t ht p ((h.inner?_plan ht).symm.trans hp)).fresh

variable (host : Host) (legs : Legs) (hf : (Plan.ofTrials output trials).Fits before)
include hf

/-- A block leaves the host and, in the region of every node, the vector that it renders. -/
theorem run_eq_rendering :
    ((Plan.ofTrials output trials).run before host legs).host = (rendering trials legs host).host ∧
    ((Plan.ofTrials output trials).run before host legs).output =
      (rendering trials legs host).value output ∧
    ∀ t ∈ trials, (regionOf (placement trials) (.output t.source)).read
        ((Plan.ofTrials output trials).run before host legs).state.field =
      (rendering trials legs host).value t.source := by
  have after := h.midway_run host legs hf steady
  have sound := h.sound_rendering steady legs host
  have value (t : Trial) (ht : t ∈ trials) :
      (regionOf (placement trials) (.output t.source)).read
        ((Plan.ofTrials output trials).run before host legs).state.field =
      (rendering trials legs host).value t.source := by
    by_cases fault : t.fault = none
    · rcases Trial.folded_or_live fault with hd | hl
      · rw [sound.settled t ht (Trial.not_live_of_folded hd)]
        refine (after.fixed _ fun step => h.static_before (static_folded ht hd)).trans ?_
        exact (regionOf_allotment h.nodup (mem_allotments_folded ht (Trial.place_folded hd))).2.2.2
      · exact after.values t ht hl
    · have idle : t.live = false := Bool.eq_false_iff.2 fun hl => fault (Trial.fault_of_live hl).1
      rw [h.regionOf_fault ht fault, Region.read_empty, sound.settled t ht idle,
        Trial.cells_of_fault fault]
  obtain ⟨t, ht, rfl⟩ := h.trial?_output
  refine ⟨after.host, ?_, value⟩
  rw [← value t ht, ← h.outputRegion_plan, Plan.run_eq]
  rfl

theorem fits_run (kernels : lawful → ∀ t ∈ trials, ∀ k, t.node.operator.body = .kernel k → k.Lawful)
    (hlaw : lawful) : (Plan.ofTrials output trials).Fits
      ((Plan.ofTrials output trials).run before host legs).state := by
  have after := h.midway_run host legs hf steady
  have sound := h.sound_rendering steady legs host
  have read := (h.run_eq_rendering steady host legs hf).2.2
  have live (t : Trial) (hd : t.folded = false) (p : Plan)
      (hp : t.inner = some p) : t.live = true := by
    rcases Trial.folded_or_live (Trial.fault_of_inner hp) with hd' | hl
    · rw [hd] at hd'
      cases hd'
    · exact hl
  set state := ((Plan.ofTrials output trials).run before host legs).state
  refine .intro (fun n => (state.inner.lookup n).getD before) after.length after.fixed ?_ ?_ ?_
  · intro n regions dest p k hs hp hb
    obtain ⟨t, ht, hl, hi, rfl, rfl, rfl⟩ := Plan.mem_evaluate.1 hs
    cases (h.node?_plan ht).symm.trans hp
    obtain ⟨host', legs', lengths, written⟩ := sound.written t ht k hl hb
    rcases h.body_cases ht (Trial.fault_of_live hl).1 with ⟨k', n, hb', length, ho⟩ | ⟨hb', _⟩ |
      ⟨_, _, hb', _⟩
    · cases hb.symm.trans hb'
      have cells : t.cells.length = n := by
        rw [Trial.cells, ho, k.length_fill, List.length_replicate]
      rw [read t ht, written, cells, h.map_length_legRegion (h.sound_start .detached) ht hl hi,
        map_length_legsOf fun s hs p hp => by
          rw [h.start_value .detached ((h.producer_eq ht hs).2 p hp)]]
      exact kernels hlaw t ht k hb _ n host' legs' length lengths
    · cases hb.symm.trans hb'
    · cases hb.symm.trans hb'
  · intro n hn
    obtain ⟨t, ht, hd, hp, rfl⟩ := mem_liveInner.1 hn
    obtain ⟨p, hp⟩ := Option.isSome_iff_exists.1 hp
    obtain ⟨child, found, _⟩ := after.children hlaw t ht (live t hd p hp) p hp
    rw [found]
    rfl
  · intro n p hn hp
    obtain ⟨t, ht, hd, _, rfl⟩ := mem_liveInner.1 hn
    rw [h.inner?_plan ht] at hp
    obtain ⟨child, found, fits⟩ := after.children hlaw t ht (live t hd p hp) p hp
    rw [found]
    exact fits

omit hf in
/-- The plan of some trials is steady when those of its promoted nodes are. -/
theorem steady_ofTrials
    (kernels : lawful → ∀ t ∈ trials, ∀ k, t.node.operator.body = .kernel k → k.Lawful) :
    (Plan.ofTrials output trials).Steady lawful where
  fresh := h.fits_fresh steady
  run s hs host legs := by
    have fresh := h.fits_fresh steady
    have run := h.run_eq_rendering steady host legs hs
    have run' := h.run_eq_rendering steady host legs fresh
    refine ⟨run.2.1.trans run'.2.1.symm, run.1.trans run'.1.symm, ?_,
      h.fits_run steady host legs hs kernels⟩
    obtain ⟨t, ht, rfl⟩ := h.trial?_output
    have region := (h.regionOf_output ht).1
    rw [run.2.1, h.outputRegion_plan, region]
    exact (h.sound_rendering steady legs host).length t ht

end Net.Trials

def Net.Lawful (net : Net) : Prop :=
  ∀ n op k, net.operator? n = some op → op.body = .kernel k → k.Lawful

theorem Net.compile_steady {net : Net} {lawful : Prop}
    (h : net.Deep fun net => net.WellFormed ∧ (lawful → net.Lawful)) {output : NodeId}
    {externals : Legs} {plan : Plan} (hp : net.compile output externals = .ok plan) :
    plan.Steady lawful := by
  induction h generalizing output externals plan with
  | @intro net here _ ih =>
    obtain ⟨trials, ht, rfl⟩ := (compile_eq_ok here.1).1 hp
    refine ht.steady_ofTrials (fun t hm p hi => ?_) fun hlaw t hm k hk => ?_
    · obtain ⟨u, template, compiled⟩ := ht.compile_inner hm hi
      exact ih _ u template compiled
    · refine here.2 hlaw t.source t.node.operator k ?_ hk
      rw [operator?, (ht.entry_of_mem hm).1]
      rfl

theorem Net.Trials.steady_inner {net : Net} {lawful : Prop} {output : NodeId} {externals : Legs}
    {trials : List Trial} (h : net.Trials output externals trials)
    (hd : net.Deep fun net => net.WellFormed ∧ (lawful → net.Lawful)) :
    ∀ t ∈ trials, ∀ p, t.inner = some p → p.Steady lawful := by
  intro t ht p hp
  obtain ⟨u, template, compiled⟩ := h.compile_inner ht hp
  exact compile_steady (hd.inside template) compiled

end Patchbay
