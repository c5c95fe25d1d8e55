import Patchbay.Proofs.Graph.Kinds
import Patchbay.Proofs.Net.Inputs
import Patchbay.Proofs.Plan.Alike

/-! # An operator in a net of its own

A net wraps an operator when it holds one node of it, an input for each slot of that node, and
nothing else. The inputs then stand in the order of the slots, each has the kind of the slot that it
feeds, and an early value is demanded of it just when the slot needs one.
-/

namespace Patchbay
open Relation

variable [Platform]

namespace Net
variable {net : Net} {n m p c : NodeId} {op : Operator} {i j : Nat}

/-- The net holds one node of the operator, whose slots are fed by inputs that are placed at the
numbers of the slots, and nothing else. -/
structure Wraps (net : Net) (n : NodeId) (op : Operator) : Prop where
  operator : net.operator? n = some op
  fed : ∀ i < op.arity, ∃ m node id, net.source? n i = some m ∧ net.node? m = some node ∧
    node.operator = .input id ∧ node.placement = i
  rest : ∀ m, net.contains m = true → m = n ∨ ∃ i, net.source? n i = some m

namespace Wraps
variable (h : net.Wraps n op) (hw : net.WellFormed)
include h hw

theorem exists_input (hs : net.source? n i = some m) : i < op.arity ∧
    ∃ node id, net.node? m = some node ∧ node.operator = .input id ∧ node.placement = i := by
  obtain ⟨node, inlet, hnode, hinlet, _⟩ := exists_inlet_of_source? hs
  have operator := h.operator
  rw [operator?, hnode, Option.map_some, Option.some.injEq] at operator
  have bound : i < op.arity := by
    rw [← operator, ← hw.arity n node hnode]
    exact (List.getElem?_eq_some_iff.1 hinlet).choose
  obtain ⟨m', node, id, hs', found⟩ := h.fed i bound
  cases hs.symm.trans hs'
  exact ⟨bound, node, id, found⟩

theorem operator?_input (hs : net.source? n i = some m) :
    ∃ id, net.operator? m = some (.input id) := by
  obtain ⟨_, node, id, hm, ho, _⟩ := h.exists_input hw hs
  exact ⟨id, by rw [operator?, hm, Option.map_some, ho]⟩

theorem source?_injective (hi : net.source? n i = some m) (hj : net.source? n j = some m) :
    i = j := by
  obtain ⟨_, node, _, hm, _, placed⟩ := h.exists_input hw hi
  obtain ⟨_, node', _, hm', _, placed'⟩ := h.exists_input hw hj
  cases hm.symm.trans hm'
  exact Int.ofNat.inj (placed.symm.trans placed')

theorem eq_of_feeds (hf : net.Feeds p c) : c = n := by
  obtain ⟨slot, hs⟩ := hf
  refine (h.rest c (contains_of_source? hs)).resolve_right fun ⟨i, hi⟩ => ?_
  obtain ⟨id, ho⟩ := h.operator?_input hw hi
  exact hw.toWired.not_feeds ho rfl ⟨slot, hs⟩

theorem inputs_getElem? (hi : op.isInput = false) (i : Nat) :
    net.inputs[i]? = net.source? n i := by
  have sources : ∀ i ∈ List.range op.arity, (net.source? n i).isSome := by
    intro i hi
    obtain ⟨m, _, _, hs, _⟩ := h.fed i (List.mem_range.1 hi)
    exact Option.isSome_of_eq_some hs
  have inputs : net.inputs = (List.range op.arity).filterMap (net.source? n) := by
    refine inputs_eq (fun m => ?_) ?_
    · simp only [List.mem_filterMap, List.mem_range]
      constructor
      · rintro ⟨i, _, hs⟩
        obtain ⟨id, ho⟩ := h.operator?_input hw hs
        exact ⟨_, ho, rfl⟩
      · rintro ⟨op', ho, hop⟩
        rcases h.rest m (contains_of_operator? ho) with rfl | ⟨i, hs⟩
        · rw [h.operator] at ho
          cases ho
          rw [hi] at hop
          cases hop
        · exact ⟨i, (h.exists_input hw hs).1, hs⟩
    · rw [List.pairwise_filterMap]
      refine List.pairwise_lt_range.imp fun {i j} hij a ha b hb => ?_
      obtain ⟨_, node, _, hnode, _, placed⟩ := h.exists_input hw ha
      obtain ⟨_, node', _, hnode', _, placed'⟩ := h.exists_input hw hb
      rw [placementOf_eq hnode, placementOf_eq hnode', placed, placed']
      exact Int.ofNat_lt.2 hij
  rw [inputs, getElem?_filterMap sources]
  by_cases bound : i < op.arity
  · rw [List.getElem?_range bound, Option.bind_some]
  · rw [List.getElem?_eq_none (by rw [List.length_range]; omega), Option.bind_none]
    refine (Option.eq_none_iff_forall_ne_some.2 fun m hs => bound ?_).symm
    exact (h.exists_input hw hs).1

/-- An early value is demanded of an input just when its slot needs one. -/
theorem demanded_iff (hs : net.source? n i = some m) :
    net.Demanded m ↔ (op.slots[i]?).any (·.compileTime) = true := by
  have slot : net.slot? n i = op.slots[i]? := by rw [slot?, h.operator, Option.bind_some]
  constructor
  · intro demanded
    obtain ⟨c, j, hc, early⟩ := demanded.cases
    cases h.eq_of_feeds hw ⟨j, hc⟩
    cases h.source?_injective hw hc hs
    rw [slot] at early
    refine early.resolve_right fun behind => ?_
    obtain ⟨c, j, hc, _⟩ := behind.cases
    have last := h.eq_of_feeds hw ⟨j, hc⟩
    exact hw.acyclic n (.single ⟨j, last ▸ hc⟩)
  · exact fun early => ⟨m, n, ⟨i, hs, slot ▸ early⟩, .refl⟩

theorem outlets_eq (hs : net.source? n i = some m) : net.outlets m = [⟨n, i⟩] := by
  refine List.Perm.eq_singleton ?_
  rw [List.perm_ext_iff_of_nodup (hw.linked.nodup m) (List.nodup_singleton _)]
  intro q
  rw [hw.linked.outlets, List.mem_singleton]
  constructor
  · intro hq
    have last := h.eq_of_feeds hw ⟨q.slot, hq⟩
    obtain ⟨node, slot⟩ := q
    cases last
    cases h.source?_injective hw hq hs
    rfl
  · rintro rfl
    exact hs

/-- An input of a wrapped node that declares its kind has the kind of its slot. -/
theorem written_eq (resolved : net.Resolved) {k : Kind} (hk : op.output = .fixed k) {slot : Slot}
    (hslot : op.slots[i]? = some slot) (hs : net.source? n i = some m) {node : Node}
    (hm : net.node? m = some node) : node.written = slot.kind := by
  obtain ⟨id, ho⟩ := h.operator?_input hw hs
  have live : net.contains m = true := Option.isSome_of_eq_some hm
  have kind := resolved m live
  rw [kind?, hm, Option.bind_some] at kind
  have consumer : net.slot? n i = some slot := by rw [slot?, h.operator, Option.bind_some, hslot]
  have carries : net.carries ⟨m, n, i⟩ = false := by
    rw [Net.carries, h.operator, Option.any_some, hk]
    rfl
  have readers : net.readers m = [⟨m, n, i⟩] := by
    rw [Net.readers, h.outlets_eq hw hs]
    rfl
  have asks : net.asks m = if slot.kind.concrete then [.declared slot.kind] else [] := by
    rw [asks_eq ho, readers]
    cases hc : slot.kind.concrete <;> simp [askedSlots, Operator.input, consumer, carries, hc]
  have declared : net.declared.kind? m = none := by
    rw [kind?_declared, ho]
    rfl
  rw [Node.written, kind]
  cases hc : slot.kind.concrete with
  | true =>
    rw [kind?_settled_of_declared live declared (by rw [asks, hc]; rfl)]
    rfl
  | false =>
    rw [kind?_settled_of_asks_nil live declared (by rw [asks, hc]; rfl)]
    exact (by simpa [Kind.concrete] using hc : slot.kind = .any).symm

end Wraps
end Net
end Patchbay
