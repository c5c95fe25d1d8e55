import Patchbay.Generator
import Patchbay.Proofs.Plan.Wrapped

/-! # Promotion is transparent

A graph can be run by itself, or promoted and run as the only node of another graph. Where no input
of it is live, both give the same block by block: either the promoted node runs the plan of the
graph on a state that goes along with that of the graph, or all of it is known and no block changes
anything. By itself a graph reads a live input in every block, but what is demanded early of that
input is settled for the promoted node when it is compiled.
-/

namespace Patchbay
open Relation

section
variable [Platform]

namespace Net
variable {net inner : Net} {n output : NodeId} {op : Operator} {externals : Legs}
  {trials trials' : List Trial} {t : Trial}

/-- The states of a wrapped node and of the net that it was promoted from, between two blocks. -/
structure Coupled (n output : NodeId) (trials trials' : List Trial) (x s : State) : Prop where
  around : (Plan.ofTrials n trials).Holds x.field
  inner : (Plan.ofTrials output trials').Holds s.field
  child : ∀ t ∈ trials, t.source = n → t.live = true → x.inner.lookup n = some s

section Coupled
variable (h : net.Trials n externals trials) (w : net.Wraps n op) (resolved : net.Resolved)
  (promotes : op.Promotes inner output) (h' : inner.Trials output externals trials')
  (length : externals.length = inner.inputs.length)
include h w resolved promotes h' length

theorem wrapped_inner (ht : t ∈ trials) (source : t.source = n) :
    t.outcome = .ok ⟨(Plan.ofTrials output trials').firstOutput externals,
      some (.ofTrials output trials')⟩ := by
  refine h.wrapped_outcome w promotes resolved ht source ?_
    ((compile_eq_ok h'.wellFormed).2 ⟨trials', h', rfl⟩)
  rw [length, Operator.arity, promotes.slots, length_promotedSlots]

theorem coupled_fresh :
    Coupled n output trials trials' (.fresh (.ofTrials n trials))
      (.fresh (.ofTrials output trials')) := by
  refine ⟨Plan.holds_fresh _, Plan.holds_fresh _, fun t ht source live => ?_⟩
  have outcome := wrapped_inner h w resolved promotes h' length ht source
  have inner : t.inner = some (.ofTrials output trials') := by rw [Trial.inner, outcome]
  have mem : n ∈ (Plan.ofTrials n trials).liveInner :=
    Trials.mem_liveInner.2 ⟨t, ht, Trial.not_folded_of_live live, by rw [inner]; rfl, source⟩
  have planned := h.inner?_plan ht
  rw [source, inner] at planned
  rw [Plan.fresh_eq, State.freshWith, lookup_filterMap, if_pos mem, planned]
  rfl

omit resolved length in
/-- Where the wrapped node is known, so are its inputs and all nodes of the promoted net. -/
theorem idle_of_known (ht : t ∈ trials) (source : t.source = n) (hk : t.known = true) :
    (∀ u ∈ trials, u.live = false) ∧ ∀ u ∈ trials', u.live = false := by
  have known := (h.known_iff ht).1 hk
  rw [source] at known
  have producers (p : NodeId) (hp : net.Feeds p n) : net.Known p := by
    cases known with
    | body _ _ _ producers => exact producers p hp
    | input hn _ input _ =>
      have operator := w.operator
      rw [operator?, hn, Option.map_some, Option.some.injEq] at operator
      rw [operator, promotes.isInput] at input
      cases input
  have still : inner.Still output :=
    still_of_isLive h'.wellFormed (promotes.live ▸ known.live w.operator)
  have inputs (m : NodeId) (op' : Operator) (ho : inner.operator? m = some op')
      (hi : op'.isInput = true) : inner.Demanded m := by
    obtain ⟨i, hm⟩ := List.getElem?_of_mem (mem_inputs.2 ⟨op', ho, hi⟩)
    have bound : i < op.arity := by
      rw [Operator.arity, promotes.slots, length_promotedSlots]
      exact (List.getElem?_eq_some_iff.1 hm).choose
    obtain ⟨p, _, _, fed, _⟩ := w.fed i bound
    obtain ⟨u, hu, rfl⟩ := h.exists_of_upstream (.single ⟨i, fed⟩)
    obtain ⟨m', _, hm', _, demanded⟩ := h.wrapped_slot w promotes hu fed
    cases hm.symm.trans hm'
    rw [← isDemanded_iff h'.wellFormed.linked.noDangling, ← demanded, h.known_iff hu]
    exact producers _ ⟨i, fed⟩
  refine ⟨fun u hu => h.not_live_of_known hu ?_, fun u hu => h'.not_live_of_known hu ?_⟩
  · rcases h.source_cases w hu with he | ⟨i, hs⟩
    · exact he ▸ known
    · exact producers _ ⟨i, hs⟩
  · have up := h'.upstream hu
    have live := contains_of_upstream h'.wellFormed.linked.noDangling h'.contains up
    exact known_of_upstream h'.wellFormed live fun m op hm ho =>
      ⟨still m op (hm.trans up) ho, inputs m op ho⟩

/-- A block on coupled states gives the same on both sides and leaves them coupled. -/
theorem Coupled.run (idle : inner.InputsIdle) {x s : State}
    (hc : Coupled n output trials trials' x s) (host : Host) {later : Legs}
    (lengths : later.map List.length = externals.map List.length) :
    let around := (Plan.ofTrials n trials).run x host later
    let block := (Plan.ofTrials output trials').run s host later
    around.output = block.output ∧ around.host = block.host ∧
      Coupled n output trials trials' around.state block.state := by
  have around := hc.around.run h.inside_plan host later
  have block := hc.inner.run h'.inside_plan host later
  obtain ⟨t, ht, source⟩ := h.trial?_output
  have outcome := wrapped_inner h w resolved promotes h' length ht source
  have inner : t.inner = some (.ofTrials output trials') := by rw [Trial.inner, outcome]
  have cells : t.cells = (Plan.ofTrials output trials').firstOutput externals := by
    rw [Trial.cells, outcome]
  have fault : t.fault = none := by rw [Trial.fault, outcome]
  rcases Trial.folded_or_live fault with folded | live
  · obtain ⟨idle, idle'⟩ := idle_of_known h w promotes h' ht source (Trial.fault_of_folded folded).2
    have steps := Trials.steps_nil n idle
    have steps' := Trials.steps_nil output idle'
    have place := regionOf_allotment h.nodup (mem_allotments_folded ht (Trial.place_folded folded))
    rw [Plan.run_of_steps_nil steps, Plan.run_of_steps_nil steps'] at *
    refine ⟨?_, rfl, hc⟩
    dsimp only
    rw [hc.around.fixed _ (by rw [steps]; exact List.forall_mem_nil _),
      hc.inner.fixed _ (by rw [steps']; exact List.forall_mem_nil _), h.outputRegion_plan,
      ← source]
    refine place.2.2.2.trans (cells.trans ?_)
    rw [Plan.firstOutput, Plan.run_of_steps_nil steps', Plan.fresh_eq]
    rfl
  · have legs := h.wrapped_refit w promotes resolved ht source length lengths
    have child := hc.child t ht source live
    have whole (legs : Legs) :
        ((Plan.ofTrials output trials').run s host legs).output.length = t.cells.length := by
      rw [cells, Plan.firstOutput, h'.length_output_run hc.inner,
        h'.length_output_run (Plan.holds_fresh _)]
    obtain ⟨outputs, hosts, after⟩ := h.run_wrapped w promotes resolved ht source hc.around live
      inner child host later (whole _)
    rw [legs, h'.run_refit idle] at outputs hosts after
    exact ⟨outputs, hosts, around, block, fun _ _ _ _ => after⟩

/-- Any number of blocks on coupled states give the same on both sides. -/
theorem Coupled.render (idle : inner.InputsIdle) {x s : State}
    (hc : Coupled n output trials trials' x s) {blocks : List (Host × Legs)}
    (lengths : ∀ b ∈ blocks, b.2.map List.length = externals.map List.length) :
    (Plan.ofTrials n trials).render x blocks = (Plan.ofTrials output trials').render s blocks := by
  induction blocks generalizing x s with
  | nil => rfl
  | cons b blocks ih =>
    rw [List.forall_mem_cons] at lengths
    obtain ⟨outputs, hosts, after⟩ :=
      hc.run h w resolved promotes h' length idle b.1 lengths.1
    rw [Plan.render, Plan.render, outputs, hosts, ih after lengths.2]

end Coupled
end Net

namespace Graph
variable {placed placed' : Operator → Prop} {g g' around around' : Graph} {output n : NodeId}
  {id : OperatorId} {name : String} {op : Operator} {context context' : ContextId}
  {externals : Legs} {compiled compiled' : Context} {blocks : List (Host × Legs)}

theorem promotes_of_promote (h : g.promote output id name = .ok op)
    (hg : g.net.resolve = g.net) : op.Promotes g.net output := by
  unfold promote at h
  split at h
  · rw [hg] at h
    cases h
    exact ⟨⟨g.id, rfl⟩, rfl, ⟨_, rfl⟩, rfl⟩
  · cases h

end Graph

end

namespace Graph
variable {op : Operator} {around : Graph}

/-- A graph with one node of the operator and, for each slot of it, an input that feeds it. -/
def wrapped (op : Operator) : Option Graph := do
  let placed ← ((Graph.empty 1).add op).toOption
  (List.range op.arity).foldlM (fun g i => do
    let input ← (g.add (.input (.builtin 2))).toOption
    let ordered ← (input.graph.setPlacement (i + 1) i).toOption
    let fed ← (ordered.attach 0 i (i + 1)).toOption
    return fed.graph) placed.graph

theorem reachable_wrapped (h : wrapped op = some around) :
    around.Reachable fun o => o = op ∨ o = .input (.builtin 2) := by
  obtain ⟨placed, added, h⟩ := Option.bind_eq_some_iff.1 h
  refine foldlM_invariant (fun g i g' hg h => ?_) h
    (.step (.empty 1) (.add (.inl rfl) (toOption_eq_some.1 added)))
  simp only [Option.bind_eq_bind, Option.bind_eq_some_iff, toOption_eq_some, Option.pure_def,
    Option.some.injEq] at h
  obtain ⟨input, h₁, ordered, h₂, fed, h₃, rfl⟩ := h
  exact .step (.step (.step hg (.add (.inr rfl) h₁)) (.setPlacement h₂)) (.attach h₃)

def arranged (g : Graph) (arity : Nat) : Bool :=
  g.net.ids == List.range (arity + 1) && (g.net.operator? 0).any (!·.isInput) &&
    (List.range arity).all fun i => g.net.source? 0 i == some (i + 1) &&
      (g.net.node? (i + 1)).any fun node => node.operator.isInput && node.placement == (i : Int)

theorem wraps_wrapped (h : wrapped op = some around) (body : op.isInput = false)
    (shape : around.arranged op.arity = true) : around.net.Wraps 0 op := by
  simp only [arranged, Bool.and_eq_true, beq_iff_eq, List.all_eq_true, List.mem_range] at shape
  obtain ⟨⟨ids, root⟩, fed⟩ := shape
  refine ⟨?_, fun i hi => ?_, fun m hm => ?_⟩
  · obtain ⟨o, ho, hi⟩ := (Option.any_eq_true _ _).1 root
    rcases (reachable_wrapped h).operator_placed ho with rfl | rfl
    · exact ho
    · cases hi
  · obtain ⟨hs, found⟩ := fed i hi
    obtain ⟨node, hn, input⟩ := (Option.any_eq_true _ _).1 found
    rw [Bool.and_eq_true, beq_iff_eq] at input
    refine ⟨_, node, .builtin 2, hs, hn, ?_, input.2⟩
    have placed := (reachable_wrapped h).operator_placed (Net.operator?_of_node? hn)
    refine placed.resolve_left fun same => ?_
    rw [same, body] at input
    cases input.1
  · rw [← Net.mem_ids, ids, List.mem_range] at hm
    rcases m with _ | i
    · exact .inl rfl
    · exact .inr ⟨i, (fed i (Nat.lt_of_succ_lt_succ hm)).1⟩

/-- The graph of `counted` promoted, and a graph with the operator and an input for each slot. -/
def alone : Option (Graph × Operator × Graph) := do
  let inner ← (ofDocument 0 counted Builtin.catalog).toOption
  let op ← (inner.promote 2 ⟨1, 0⟩ "counted").toOption
  return (inner, op, ← wrapped op)

/-- An input that is read in every block is repeated as often as it says; the graph promoted, and a
graph with the operator. -/
def paced : Option (Graph × Operator × Graph) := do
  let catalog ← (Builtin.catalog.add { Operator.input ⟨1, 0⟩ with live := true }).toOption
  let document : Document := [⟨⟨1, 0⟩, [], [], .empty, 0⟩, ⟨.builtin 44, [0, 0], [], .empty, 0⟩]
  let inner ← (ofDocument 0 document catalog).toOption
  let op ← (inner.promote 1 ⟨1, 1⟩ "paced").toOption
  return (inner, op, ← wrapped op)

end Graph
end Patchbay
