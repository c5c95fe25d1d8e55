import Patchbay.Proofs.Builtin.Kernels
import Patchbay.Proofs.Graph.Punctual
import Patchbay.Proofs.Plan.Steady

/-! # Graphs over regular operators

A graph that is built from regular operators, and from graphs promoted from such graphs, is regular
itself, and so are the nets in its promoted nodes.
-/

namespace Patchbay

variable [Platform]

/-- A net that can be compiled once and run from then on. -/
structure Net.Regular (net : Net) : Prop where
  wellFormed : net.WellFormed
  punctual : net.Punctual
  operators : ∀ n op, net.operator? n = some op → op.Regular

namespace Net.Regular
variable {net net' : Net}

theorem rooted (h : net.Regular) : net.Rooted := fun n op ho => (h.operators n op ho).input

theorem lawful (h : net.Regular) : net.Lawful :=
  fun n op k ho hk => ((h.operators n op ho).kernel k hk).lawful

theorem of_sameWiring (h : net.Regular) (hw : net.SameWiring net') : net'.Regular where
  wellFormed := h.wellFormed.of_sameWiring hw
  punctual := h.punctual.of_sameWiring hw
  operators n op ho := by
    apply h.operators n op
    rw [Net.operator?_eq_wiring?, hw.wiring, ← Net.operator?_eq_wiring?] at ho
    exact ho

end Net.Regular

theorem Net.Deep.lawful {net : Net} (h : net.Deep Net.Regular) :
    net.Deep fun net => net.WellFormed ∧ (True → net.Lawful) :=
  h.imp fun _ hr => ⟨hr.wellFormed, fun _ => hr.lawful⟩

theorem Operator.regular_of_promote {g : Graph} {output : NodeId} {id : OperatorId} {name : String}
    {op : Operator} (h : g.promote output id name = .ok op) : op.Regular := by
  have template := Graph.template_of_promote h
  unfold Graph.promote at h
  split at h
  · cases h
    exact
      { input hi := nomatch hi
        kernel _ hk := nomatch hk
        promoted u hu := by
          cases template.symm.trans hu
          rfl }
  · cases h

section Allowed
variable {allowed : Operator → Prop}
  (hall : ∀ op, allowed op → op.Regular ∧ op.template? = none) {depth : Nat}
include hall

theorem Operator.regular_of_built {op : Operator} (h : Operator.Built allowed depth op) :
    op.Regular := by
  induction depth generalizing op with
  | zero => exact (hall op h.1).1
  | succ depth ih =>
    rcases h with h | ⟨_, _, _, _, promoted, _, hp, rfl | ⟨ha, _⟩⟩
    · exact ih h
    · exact regular_of_promote hp
    · exact (hall op ha).1

theorem Graph.Reachable.regular {g : Graph} (h : g.Reachable (Operator.Built allowed depth)) :
    g.net.Regular where
  wellFormed := h.wellFormed
  punctual := h.punctual fun _ hop => (Operator.regular_of_built hall hop).input
  operators _ _ ho := Operator.regular_of_built hall (h.operator_placed ho)

theorem Graph.Reachable.deep_regular {g : Graph}
    (h : g.Reachable (Operator.Built allowed depth)) : g.net.Deep Net.Regular :=
  h.deep fun _ g hg =>
    ⟨hg.regular hall, (hg.regular hall).of_sameWiring (Net.sameWiring_resolve g.net)⟩

end Allowed
end Patchbay
