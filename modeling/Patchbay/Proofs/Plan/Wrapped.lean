import Patchbay.Proofs.Graph.Early
import Patchbay.Proofs.Graph.Wrapped
import Patchbay.Proofs.Plan.Folding

/-! # Blocks of a wrapped net

A promoted node in a net of its own reads in every block just what the promoted net needs: an input
on which something early depends keeps the vector of the compile, the others are read anew. Its plan
runs on a state of its own, so the outputs of the two nets agree block by block, as do the hosts.
-/

namespace Patchbay
open Relation

variable [Platform]

/-- What a promotion makes of a net and one of its nodes. -/
structure Operator.Promotes (op : Operator) (net : Net) (output : NodeId) : Prop where
  body : ∃ source, op.body = .promoted (.ofNet net output source)
  slots : op.slots = net.promotedSlots
  fixed : ∃ k, op.output = .fixed k
  live : op.live = net.isLive output

theorem Operator.Promotes.isInput {op : Operator} {net : Net} {output : NodeId}
    (h : op.Promotes net output) : op.isInput = false := by
  obtain ⟨source, hb⟩ := h.body
  rw [Operator.isInput, hb]

theorem Net.length_promotedSlots (net : Net) :
    net.promotedSlots.length = net.inputs.length := by
  rw [promotedSlots, List.filterMap_length_eq_length.2, List.length_zipIdx]
  rintro ⟨m, position⟩ hm
  obtain ⟨node, hn, _⟩ := exists_of_mem_inputs
    (List.mem_of_getElem? (List.mem_zipIdx_iff_getElem?.1 hm))
  dsimp only at hn ⊢
  rw [hn]
  rfl

def Trial.given (later : Legs) (t : Trial) : Cells :=
  if t.live then fit ((t.index.bind fun i => later[i]?).getD []) t.fallback t.cells.length
  else t.cells

namespace Plan
variable {plan : Plan}

/-- The outputs of blocks that run one after the other, with the host that each leaves. -/
def render (plan : Plan) : State → List (Host × Legs) → List (Cells × Host)
  | _, [] => []
  | s, (host, externals) :: rest =>
    let b := plan.run s host externals
    (b.output, b.host) :: render plan b.state rest

theorem run_of_steps_nil (h : plan.steps = []) (s : State) (host : Host) (externals : Legs) :
    plan.run s host externals = ⟨s, host, plan.outputRegion.read s.field⟩ := by
  rw [run_eq, runWith, h]
  rfl

theorem output_run (s : State) (host : Host) (externals : Legs) :
    (plan.run s host externals).output =
      plan.outputRegion.read (plan.run s host externals).state.field := by
  rw [run_eq]
  rfl

end Plan

namespace Net.Trials

section Any
variable {net : Net} {output : NodeId} {externals : Legs} {trials : List Trial}
  (h : net.Trials output externals trials)
include h

theorem length_output_run {s : State} (hs : (Plan.ofTrials output trials).Holds s.field)
    (host : Host) (later : Legs) :
    ((Plan.ofTrials output trials).run s host later).output.length =
      (Plan.ofTrials output trials).outputRegion.length := by
  rw [Plan.output_run]
  apply Region.length_read
  rw [(hs.run h.inside_plan host later).length, h.outputRegion_plan]
  obtain ⟨t, ht, rfl⟩ := h.trial?_output
  exact (h.regionOf_output ht).2

omit h in
variable (output) in
theorem steps_nil (idle : ∀ t ∈ trials, t.live = false) :
    (Plan.ofTrials output trials).steps = [] := by
  refine List.flatMap_eq_nil_iff.2 fun t ht => ?_
  rw [Trial.steps, if_pos (by rw [idle t ht]; rfl)]

end Any

section Wrapped
variable {net inner : Net} {n output : NodeId} {op : Operator} {externals : Legs}
  {trials : List Trial} {t p : Trial} {i : Nat} (h : net.Trials n externals trials)
  (w : net.Wraps n op) (promotes : op.Promotes inner output)
include h w

theorem source_cases (ht : t ∈ trials) :
    t.source = n ∨ ∃ i, net.source? n i = some t.source :=
  w.rest _ (Option.isSome_of_eq_some (h.entry_of_mem ht).1)

/-- An input of a wrapping net gives the vector at the number of its slot. -/
theorem wrapped_input (hi : op.isInput = false) (ht : t ∈ trials)
    (hs : net.source? n i = some t.source) :
    t.node.operator.body = .input ∧ t.index = some i ∧
      t.outcome = .ok ⟨externals[i]?.getD [t.fallback], none⟩ := by
  obtain ⟨hnode, hindex, _⟩ := h.entry_of_mem ht
  obtain ⟨_, node, id, hnode', ho, _⟩ := w.exists_input h.wellFormed hs
  cases hnode.symm.trans hnode'
  have body : t.node.operator.body = .input := by rw [ho]; rfl
  have index : t.index = some i := by
    have found := (w.inputs_getElem? h.wellFormed hi i).trans hs
    obtain ⟨bound, he⟩ := List.getElem?_eq_some_iff.1 found
    rw [hindex, List.idxOf?_eq_some_iff]
    refine ⟨bound, he, fun j hj he' => ?_⟩
    exact Nat.ne_of_lt hj (net.nodup_inputs.getElem_inj_iff.1 (he'.trans he.symm))
  refine ⟨body, index, ?_⟩
  rcases h.outcome_cases ht with ⟨p, _, feeds, _⟩ | ⟨_, _, outcome⟩
  · exact absurd feeds (h.wellFormed.toWired.not_feeds
      (by rw [operator?, hnode, Option.map_some, ho]) rfl)
  · rw [outcome, Entry.yield, body, index]
    rfl

theorem wrapped_known (ht : t ∈ trials) (hs : net.source? n i = some t.source) :
    t.known = true ↔ (op.slots[i]?).any (·.compileTime) = true := by
  obtain ⟨_, node, id, hnode, ho, _⟩ := w.exists_input h.wellFormed hs
  rw [h.known_iff ht, ← w.demanded_iff h.wellFormed hs]
  constructor
  · intro known
    cases known with
    | input _ _ _ demanded => exact demanded
    | body hn _ input _ =>
      cases hnode.symm.trans hn
      rw [ho] at input
      cases input
  · exact .input hnode (by rw [ho]; rfl) (by rw [ho]; rfl)

theorem exists_wrapped : ∃ init t, trials = init ++ [t] ∧ t.source = n ∧
    ∀ u ∈ init, ∃ i, net.source? n i = some u.source := by
  obtain ⟨t, ht, source⟩ := h.trial?_output
  obtain ⟨init, rest, hs⟩ := List.append_of_mem ht
  have others (u : Trial) (hu : u ∈ trials) (hne : u ≠ t) :
      ∃ i, net.source? n i = some u.source :=
    (h.source_cases w hu).resolve_left fun he => hne (h.eq_of_source hu ht (he.trans source.symm))
  have nodup := h.nodup
  rw [hs, List.map_append, List.map_cons, List.nodup_append] at nodup
  have last : rest = [] := by
    refine List.eq_nil_iff_forall_not_mem.2 fun u hu => ?_
    have hne : u ≠ t := fun he => (List.nodup_cons.1 nodup.2.1).1 (he ▸ List.mem_map_of_mem hu)
    have mem : u ∈ trials := hs ▸ List.mem_append_right _ (List.mem_cons_of_mem t hu)
    obtain ⟨i, hi⟩ := others u mem hne
    obtain ⟨q, hq, he⟩ := (h.trial?_before hs u.source
      ((h.mem_sources ht).2 ⟨i, source ▸ hi⟩)).2
    exact nodup.2.2 _ (List.mem_map_of_mem hq) _
      (List.mem_cons_of_mem _ (List.mem_map_of_mem hu)) he
  subst last
  refine ⟨init, t, hs, source, fun u hu => others u (hs ▸ List.mem_append_left _ hu) fun he => ?_⟩
  exact nodup.2.2 _ (List.mem_map_of_mem hu) _ List.mem_cons_self (congrArg (·.source) he)

variable (resolved : net.Resolved) (ht : t ∈ trials) (source : t.source = n)
include ht source promotes

omit promotes in
theorem wrapped_operator : t.node.operator = op := by
  have operator := w.operator
  rw [operator?, ← source, (h.entry_of_mem ht).1] at operator
  exact Option.some.inj operator

include resolved in
theorem wrapped_socket {s : Trial.Socket} (hs : s ∈ t.sockets trials) :
    ∃ p ∈ trials, s.producer = some p ∧ net.source? n s.number = some p.source ∧
      t.converts p s.slot = false := by
  have operator := h.wrapped_operator w ht source
  obtain ⟨k, fixed⟩ := promotes.fixed
  obtain ⟨hslot, _⟩ := Trial.getElem?_sockets.1 (Trial.mem_sockets hs)
  rw [operator] at hslot
  obtain ⟨producer, mem⟩ := h.producer_eq ht hs
  obtain ⟨m, node, _, fed, hm, _⟩ := w.fed s.number (List.getElem?_eq_some_iff.1 hslot).choose
  rw [source, fed] at producer
  obtain ⟨p, hp, rfl⟩ := Option.map_eq_some_iff.1 producer
  have written : p.kind = s.slot.kind :=
    w.written_eq h.wellFormed resolved fixed hslot fed (h.entry_of_mem (mem p hp)).1
  have reads : t.reads s.slot = s.slot.kind := by
    rw [Entry.reads, Node.reads, operator, fixed]
    apply if_neg
    rintro ⟨_, hf⟩
    cases hf
  refine ⟨p, mem p hp, hp, fed, ?_⟩
  rw [Trial.converts, written, reads, Kind.converts, bne_self_eq_false, Bool.and_false]

include resolved in
theorem wrapped_converted : t.convertedSockets trials = [] := by
  refine List.eq_nil_iff_forall_not_mem.2 fun x hx => ?_
  obtain ⟨hs, hp, hc⟩ := Plan.mem_convertedSockets.1 hx
  obtain ⟨p, _, hp', _, hn⟩ := h.wrapped_socket w promotes resolved ht source hs
  obtain ⟨q, hq, _, hc⟩ := Trial.producer_of_convertsLive hc
  cases hp'.symm.trans hq
  rw [hn] at hc
  cases hc

include resolved in
/-- The legs of the wrapped node are the vectors of the inputs in the order of their slots. -/
theorem wrapped_legs {value : Trial → Cells} {legs : Legs} (length : legs.length = op.arity)
    (hv : ∀ i, ∀ p ∈ trials, net.source? n i = some p.source → legs[i]? = some (value p)) :
    t.legsOf trials value = legs := by
  apply List.ext_getElem?
  intro i
  rw [Trial.legsOf, List.getElem?_map]
  cases hs : (t.sockets trials)[i]? with
  | none =>
    refine (List.getElem?_eq_none_iff.2 (Nat.not_lt.1 fun bound => ?_)).symm
    rw [length, ← h.wrapped_operator w ht source] at bound
    obtain ⟨s, mem, _, rfl⟩ := h.exists_socket ht (List.getElem?_eq_getElem bound)
    rw [Trial.mem_sockets mem] at hs
    cases hs
  | some s =>
    have mem := List.mem_of_getElem? hs
    obtain ⟨p, hp, producer, fed, hn⟩ := h.wrapped_socket w promotes resolved ht source mem
    rw [(Trial.getElem?_sockets.1 hs).2.2.1] at fed
    rw [Option.map_some, Trial.vector_of_not_converts producer hn, hv i p hp fed]

include resolved in
/-- The wrapped node is tried on the vectors of the compile, which its net takes. -/
theorem wrapped_outcome (length : externals.length = op.arity) {plan : Plan}
    (compiled : inner.compile output externals = .ok plan) :
    t.outcome = .ok ⟨plan.firstOutput externals, some plan⟩ := by
  have input (p : Trial) (hp : p ∈ trials) {i : Nat} (hs : net.source? n i = some p.source) :=
    (h.wrapped_input w promotes.isInput hp hs).2.2
  rcases h.outcome_cases ht with ⟨p, hp, ⟨i, hs⟩, fault, _⟩ | ⟨_, _, outcome⟩
  · rw [source] at hs
    rw [Trial.fault, input p hp hs] at fault
    cases fault
  · have legs : t.legsOf trials Trial.cells = externals := by
      refine h.wrapped_legs w promotes resolved ht source length fun i p hp hs => ?_
      have bound : i < externals.length := length ▸ (w.exists_input h.wellFormed hs).1
      rw [Trial.cells, input p hp hs]
      dsimp only
      rw [List.getElem?_eq_getElem bound, Option.getD_some]
    obtain ⟨id, body⟩ := promotes.body
    have operator := h.wrapped_operator w ht source
    have template : net.template? t.source = some (.ofNet inner output id) := by
      rw [template?, source, w.operator, Option.bind_some, Operator.template?, body]
    rw [outcome, legs, Entry.yield, operator, body]
    simp only [expand, template, Template.ofNet, compiled]

/-! ### One block -/

/-- The state when some inputs have been read. -/
structure Gathered (n : NodeId) (trials done : List Trial) (later : Legs) (before : State)
    (host : Host) (x : State × Host) : Prop where
  host : x.2 = host
  inner : x.1.inner = before.inner
  holds : (Plan.ofTrials n trials).Holds x.1.field
  read : ∀ u ∈ done, u.live = true →
    (regionOf (placement trials) (.output u.source)).read x.1.field = u.given later

omit promotes ht source in
theorem gather {init : List Trial} (hi : op.isInput = false) (hs : trials = init ++ [t])
    (fed : ∀ u ∈ init, ∃ i, net.source? n i = some u.source) {before : State}
    (hb : (Plan.ofTrials n trials).Holds before.field) (host : Host) (later : Legs) :
    Gathered n trials init later before host
      (init.foldl (fun x u => (u.steps (placement trials) trials).foldl
        ((Plan.ofTrials n trials).stepWith (Plan.ofTrials n trials).runInner later) x)
          (before, host)) := by
  refine foldl_prefix (P := fun done x => Gathered n trials done later before host x)
    ⟨rfl, rfl, hb, List.forall_mem_nil _⟩ fun done u rest x hsplit gathered => ?_
  have mem (v : Trial) (hv : v ∈ init) : v ∈ trials := hs ▸ List.mem_append_left _ hv
  have hu : u ∈ init := hsplit ▸ List.mem_append_right _ List.mem_cons_self
  cases hl : u.live with
  | false =>
    rw [Trial.steps, if_pos (by rw [hl]; rfl), List.foldl_nil]
    refine ⟨gathered.host, gathered.inner, gathered.holds, fun v hv live => ?_⟩
    refine gathered.read v ((List.mem_append.1 hv).resolve_right fun he => ?_) live
    rw [List.mem_singleton.1 he, hl] at live
    cases live
  | true =>
    obtain ⟨i, source⟩ := fed u hu
    have body := (h.wrapped_input w hi (mem u hu) source).1
    have input : u.isInput = true := by rw [Trial.isInput, Operator.isInput, body]
    obtain ⟨length, stop⟩ := h.regionOf_output (mem u hu)
    have step : Step.read u.source u.index u.fallback
        (regionOf (placement trials) (.output u.source)) ∈ (Plan.ofTrials n trials).steps :=
      Plan.mem_steps_ofTrials.2 ⟨u, mem u hu, Plan.mem_steps.2 ⟨hl, .inl ⟨input, rfl⟩⟩⟩
    have inside : (regionOf (placement trials) (.output u.source)).stop ≤ x.1.field.length :=
      stop.trans_eq gathered.holds.length.symm
    have written : (u.given later).length =
        (regionOf (placement trials) (.output u.source)).length := by
      rw [Trial.given, if_pos hl, length_fit, length]
    have run : (u.steps (placement trials) trials).foldl
        ((Plan.ofTrials n trials).stepWith (Plan.ofTrials n trials).runInner later) x =
          (x.1.write (regionOf (placement trials) (.output u.source)) (u.given later), x.2) := by
      rw [Trial.steps, if_neg (by rw [hl]; exact Bool.false_ne_true), if_pos input, Trial.given,
        if_pos hl, ← length]
      rfl
    have holds := gathered.holds.step (Plan.ofTrials n trials).runInner later h.inside_plan step
    rw [run]
    refine ⟨gathered.host, gathered.inner, ?_, fun v hv live => ?_⟩
    · rw [Plan.stepWith, length] at holds
      rw [Trial.given, if_pos hl]
      exact holds
    · by_cases he : v.source = u.source
      · have hv : v ∈ init := by
          rcases List.mem_append.1 hv with hv | hv
          · exact hsplit ▸ List.mem_append_left _ hv
          · exact List.mem_singleton.1 hv ▸ hu
        rw [h.eq_of_source (mem v hv) (mem u hu) he]
        exact Region.read_write_same written inside
      · have hv := (List.mem_append.1 hv).resolve_right fun hm =>
          he (congrArg (·.source) (List.mem_singleton.1 hm))
        refine (Region.read_write_of_apart ?_ written inside).trans (gathered.read v hv live)
        exact h.apart_live (mem v (hsplit ▸ List.mem_append_left _ hv)) (mem u hu) he
          (Trial.mem_livePlaces_output trials live) (Trial.mem_livePlaces_output trials hl)

include resolved in
/-- In a block the wrapped node runs its own plan on what the inputs give. -/
theorem run_wrapped {plan : Plan} {before child : State}
    (hb : (Plan.ofTrials n trials).Holds before.field) (hl : t.live = true)
    (hp : t.inner = some plan) (found : before.inner.lookup n = some child) (host : Host)
    (later : Legs) (whole : (plan.run child host
      (t.legsOf trials (Trial.given later))).output.length = t.cells.length) :
    let block := plan.run child host (t.legsOf trials (Trial.given later))
    let around := (Plan.ofTrials n trials).run before host later
    around.output = block.output ∧ around.host = block.host ∧
      around.state.inner.lookup n = some block.state := by
  subst source
  obtain ⟨init, t', hs, source, fed⟩ := h.exists_wrapped w
  have ht' : t' ∈ trials := hs ▸ List.mem_append_right _ (List.mem_singleton_self t')
  cases h.eq_of_source ht ht' source.symm
  have gathered := h.gather w promotes.isInput hs fed hb host later
  obtain ⟨id, body⟩ := promotes.body
  have input : t.isInput = false := by
    rw [Trial.isInput, h.wrapped_operator w ht rfl, promotes.isInput]
  have converted := h.wrapped_converted w promotes resolved ht rfl
  set x := init.foldl (fun x u => (u.steps (placement trials) trials).foldl
    ((Plan.ofTrials t.source trials).stepWith (Plan.ofTrials t.source trials).runInner later) x)
    (before, host) with hx
  have legs : ((t.sockets trials).map (t.legRegion (placement trials))).map
      (fun r => r.read x.1.field) = t.legsOf trials (Trial.given later) := by
    refine h.read_legs ht hl input (fun k hk => ?_) (fun p hp live feeds => ?_)
      (fun p _ idle => ?_) fun y hy => ?_
    · exact gathered.holds.fixed _ fun step hstep => .inl (h.static_before hk hstep)
    · rw [hs, List.mem_append, List.mem_singleton] at hp
      refine gathered.read p (hp.resolve_right fun he => ?_) live
      exact h.wellFormed.acyclic t.source (.single (he ▸ feeds))
    · rw [Trial.given, if_neg (by rw [idle]; exact Bool.false_ne_true)]
    · rw [converted] at hy
      cases hy
  obtain ⟨length, stop⟩ := h.regionOf_output ht
  have inside : (regionOf (placement trials) (.output t.source)).stop ≤ x.1.field.length :=
    stop.trans_eq gathered.holds.length.symm
  set block := plan.run child host (t.legsOf trials (Trial.given later)) with hblock
  have poured : pour block.output ((regionOf (placement trials) (.output t.source)).read
      x.1.field) = block.output := by
    rw [pour_of_length_eq]
    rw [Region.length_read inside, length, whole]
  have steps : (Plan.ofTrials t.source trials).steps =
      init.flatMap (Trial.steps (placement trials) trials) ++
        [.evaluate t.source ((t.sockets trials).map (t.legRegion (placement trials)))
          (regionOf (placement trials) (.output t.source))] := by
    have split (f : Trial → List Step) : trials.flatMap f = init.flatMap f ++ f t := by
      rw [hs, List.flatMap_append, List.flatMap_singleton]
    rw [Plan.ofTrials, split, steps_body _ hl input, converted]
    rfl
  have run : (Plan.ofTrials t.source trials).steps.foldl
      ((Plan.ofTrials t.source trials).stepWith (Plan.ofTrials t.source trials).runInner later)
        (before, host) =
      (((x.1.setInner t.source block.state).write (regionOf (placement trials) (.output t.source))
        block.output), block.host) := by
    have planned : (t.planNode (placement trials)).operator.body =
        .promoted (.ofNet inner output id) := by
      rw [← body, ← h.wrapped_operator w ht rfl]
      rfl
    rw [steps, List.foldl_append, List.foldl_flatMap, ← hx, List.foldl_cons, List.foldl_nil]
    simp only [Plan.stepWith, h.node?_plan ht, planned, legs, gathered.inner, gathered.host,
      found, Option.bind_some, Plan.runInner, h.inner?_plan ht, hp, Option.map_some, ← hblock,
      poured]
  have after : ((x.1.setInner t.source block.state).write
      (regionOf (placement trials) (.output t.source)) block.output).inner.lookup t.source =
        some block.state := by
    refine (lookup_setInner x.1 t.source t.source block.state).trans ?_
    rw [if_pos rfl, gathered.inner, found]
    rfl
  dsimp only
  rw [Plan.run_eq, Plan.runWith, run]
  refine ⟨?_, rfl, after⟩
  rw [h.outputRegion_plan]
  exact Region.read_write_same (whole.trans length.symm) inside

omit ht source in
/-- What the slot of an input says of the input of the promoted net at its number. -/
theorem wrapped_slot (hp : p ∈ trials) (hs : net.source? n i = some p.source) :
    ∃ m node, inner.inputs[i]? = some m ∧ inner.node? m = some node ∧
      (p.known = true ↔ inner.isDemanded m = true) := by
  have bound := (w.exists_input h.wellFormed hs).1
  rw [Operator.arity, promotes.slots, length_promotedSlots] at bound
  have hm := List.getElem?_eq_getElem bound
  obtain ⟨node, hnode, _⟩ := exists_of_mem_inputs (List.mem_of_getElem? hm)
  refine ⟨_, node, hm, hnode, ?_⟩
  rw [h.wrapped_known w hp hs, promotes.slots, getElem?_promotedSlots hm hnode]
  rfl

include resolved in
/-- The legs of a block are its vectors, as far as the promoted net reads them anew. -/
theorem wrapped_refit (length : externals.length = inner.inputs.length) {later : Legs}
    (lengths : later.map List.length = externals.map List.length) :
    t.legsOf trials (Trial.given later) = inner.refit externals later := by
  refine h.wrapped_legs w promotes resolved ht source ?_ fun i p hp hs => ?_
  · rw [refit, List.length_map, List.length_zipIdx, Operator.arity, promotes.slots,
      length_promotedSlots]
  obtain ⟨m, node, hm, hnode, known⟩ := h.wrapped_slot w promotes hp hs
  have bound : i < externals.length := length ▸ (List.getElem?_eq_some_iff.1 hm).choose
  have bound' : i < later.length := by
    have same := congrArg List.length lengths
    rw [List.length_map, List.length_map] at same
    exact same ▸ bound
  have same : later[i].length = externals[i].length := by
    have same := congrArg (·[i]?) lengths
    simp only [List.getElem?_map, List.getElem?_eq_getElem bound,
      List.getElem?_eq_getElem bound', Option.map_some, Option.some.injEq] at same
    exact same
  obtain ⟨_, index, outcome⟩ := h.wrapped_input w promotes.isInput hp hs
  have cells : p.cells = externals[i] := by
    rw [Trial.cells, outcome]
    dsimp only
    rw [List.getElem?_eq_getElem bound, Option.getD_some]
  rw [getElem?_refit hm hnode, List.getElem?_eq_getElem bound, List.getElem?_eq_getElem bound',
    Option.getD_some, Option.getD_some, fit_of_length_eq same, Trial.given, cells, index,
    Option.bind_some, List.getElem?_eq_getElem bound', Option.getD_some, fit_of_length_eq same,
    Trial.live, Trial.fault, outcome]
  congr 1
  cases hk : p.known with
  | true => rw [if_pos (known.1 hk)]; rfl
  | false => rw [if_neg fun hd => Bool.false_ne_true (hk.symm.trans (known.2 hd))]; rfl

end Wrapped
end Net.Trials
end Patchbay
