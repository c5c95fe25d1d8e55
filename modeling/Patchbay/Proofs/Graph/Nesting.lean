import Patchbay.Proofs.Graph.History

/-! # Nets inside nets

A promoted node holds a whole net, whose promoted nodes hold nets again. What holds of every graph
with a history, as it is and with its kinds settled, holds of all of them.
-/

namespace Patchbay

variable [Platform]

/-- A property of a net and of all nets inside it, at any depth. -/
inductive Net.Deep (P : Net → Prop) : Net → Prop
  | intro {net : Net} (here : P net)
    (inside : ∀ n t, net.template? n = some t → Net.Deep P t.net) : Net.Deep P net

namespace Net.Deep
variable {P Q : Net → Prop} {net : Net}

theorem here (h : net.Deep P) : P net := by
  cases h with
  | intro here _ => exact here

theorem inside (h : net.Deep P) {n : NodeId} {t : Template} (ht : net.template? n = some t) :
    t.net.Deep P := by
  cases h with
  | intro _ inside => exact inside n t ht

theorem imp (h : net.Deep P) (hpq : ∀ net, P net → Q net) : net.Deep Q := by
  induction h with
  | intro here _ ih => exact .intro (hpq _ here) ih

end Net.Deep

namespace Graph
variable {allowed : Operator → Prop} {P : Net → Prop} {g : Graph} {depth : Nat}

theorem template_of_promote {output : NodeId} {id : OperatorId} {name : String} {op : Operator}
    (h : g.promote output id name = .ok op) :
    op.template? = some (.ofNet g.net.resolve output g.id) := by
  unfold promote at h
  split at h
  · cases h
    rfl
  · cases h

variable (holds : ∀ depth g, Graph.Reachable (Operator.Built allowed depth) g →
  P g.net ∧ P g.net.resolve)
include holds

/-- The net in a promoted operator and all nets inside it have what every graph with a history has.
-/
theorem deep_template {op : Operator} {u : Template} (hop : Operator.Built allowed depth op)
    (hu : op.template? = some u) : u.net.Deep P := by
  induction depth generalizing op u with
  | zero =>
    rw [hop.2] at hu
    cases hu
  | succ depth ih =>
    rcases hop with hop | ⟨g, output, id, name, promoted, hg, hp, hop⟩
    · exact ih hop hu
    · have template : op.template? = promoted.template? := by
        rcases hop with rfl | ⟨_, hop⟩
        · rfl
        · exact hop
      rw [template, template_of_promote hp, Option.some.injEq] at hu
      subst hu
      refine .intro (holds depth g hg).2 fun n v hv => ?_
      have frozen : g.net.resolve.template? n = g.net.template? n := by
        rw [Net.template?, Net.operator?_eq_wiring?, (Net.sameWiring_resolve g.net).wiring,
          ← Net.operator?_eq_wiring?, Net.template?]
      obtain ⟨op, hop, hv⟩ := Option.bind_eq_some_iff.1 (frozen.symm.trans hv)
      exact ih (hg.operator_placed hop) hv

/-- What every graph with a history has, all nets inside it have. -/
theorem Reachable.deep (h : g.Reachable (Operator.Built allowed depth)) : g.net.Deep P := by
  refine .intro (holds depth g h).1 fun n u hu => ?_
  obtain ⟨op, hop, hu⟩ := Option.bind_eq_some_iff.1 hu
  exact deep_template holds (h.operator_placed hop) hu

omit holds in
theorem Reachable.deep_wellFormed (h : g.Reachable (Operator.Built allowed depth)) :
    g.net.Deep Net.WellFormed :=
  h.deep fun _ g hg => ⟨hg.wellFormed, hg.wellFormed.of_sameWiring (Net.sameWiring_resolve g.net)⟩

end Graph
end Patchbay
