import Patchbay.Generator
import Patchbay.Proofs.Graph.Agreement

/-! # Which edges are refused as cycles

The search for a cycle runs before the old edge of the slot is dropped. Nothing is refused because
of that edge: it ends in the node itself, so no path that starts there goes through it.
-/

namespace Patchbay
open Relation

section
variable [Platform]

namespace Net
variable {net : Net} {n p a b : NodeId} {slot : Nat}

/-- The edges once a slot is fed by `p` in place of what feeds it. -/
def Rewired (net : Net) (n : NodeId) (slot : Nat) (p a b : NodeId) : Prop :=
  (∃ s, net.source? b s = some a ∧ ¬(b = n ∧ s = slot)) ∨ a = p ∧ b = n

theorem feeds_setSource_iff (hi : (net.inlet? n slot).isSome) :
    (net.setSource n slot (some p)).Feeds a b ↔ net.Rewired n slot p a b := by
  have source (s : Nat) := source?_setSource net n slot (some p) ⟨b, s⟩
  simp only [Port.mk.injEq] at source
  constructor
  · rintro ⟨s, hs⟩
    rw [source] at hs
    split at hs
    · rename_i he
      obtain ⟨_, _, hs⟩ := Option.bind_eq_some_iff.1 hs
      exact .inr ⟨(Option.some.inj hs).symm, he.1⟩
    · rename_i hne
      exact .inl ⟨s, hs, hne⟩
  · rintro (⟨s, hs, hne⟩ | ⟨rfl, rfl⟩)
    · exact ⟨s, by rw [source, if_neg hne, hs]⟩
    · exact ⟨slot, source?_setSource_self hi⟩

/-- The rewired edges close a cycle exactly when the node already lies upstream of its new
producer. -/
theorem exists_cycle_rewired_iff (hw : net.WellFormed) (hi : (net.inlet? n slot).isSome)
    (hp : net.contains p = true) :
    (∃ m, TransGen (net.Rewired n slot p) m m) ↔ ReflTransGen net.Feeds n p := by
  have rewired : net.Rewired n slot p = (net.setSource n slot (some p)).Feeds :=
    funext₂ fun _ _ => propext (feeds_setSource_iff hi).symm
  rw [rewired, ← not_iff_not, ← acyclic_setSource_iff hw hi hp, not_exists]
  rfl

/-- Among the errors about an edge that of the length is never a cycle. -/
theorem checkLength_ne_cycle {s : Slot} : net.checkLength n slot s p ≠ .error (.cycle a b) := by
  rw [checkLength, probe]
  split
  · simp
  · cases net.compile p [] with
    | error cause =>
      change Except.error (GraphError.probeFailed p cause) ≠ _
      simp
    | ok plan =>
      change checkFound n slot s p plan.outputRegion.length ≠ _
      rw [checkFound]
      split <;> simp

theorem checkEdge_eq_cycle_iff (hw : net.WellFormed) (hi : (net.inlet? n slot).isSome)
    (hp : net.contains p = true) :
    net.checkEdge n slot p = .error (.cycle a b) ↔
      ReflTransGen net.Feeds n p ∧ a = n ∧ b = p := by
  obtain ⟨s, hs⟩ := Option.isSome_iff_exists.1 ((slot?_isSome_iff hw.toWired).2 hi)
  obtain ⟨op, ho, hs⟩ := Option.bind_eq_some_iff.1 hs
  obtain ⟨node, hn, rfl⟩ := Option.map_eq_some_iff.1 ho
  obtain ⟨producer, hproducer⟩ := Option.isSome_iff_exists.1 hp
  rw [← reaches_iff hw.linked.noDangling hp, checkEdge, hn, hproducer]
  dsimp only
  rw [hs]
  dsimp only
  split
  · rename_i cycle
    rw [Except.error.injEq, GraphError.cycle.injEq, and_iff_right cycle, eq_comm, @eq_comm _ p]
  · rename_i clear
    refine iff_of_false ?_ fun h => clear h.1
    split
    · simp
    · exact checkLength_ne_cycle

end Net

namespace Graph
variable {placed : Operator → Prop} {g : Graph} {n p : NodeId} {slot : Nat} {op : Operator}

/-- An edge between live nodes is refused as a cycle exactly when the edges with it in place of the
old one would close a cycle, and the refusal names this edge. -/
theorem attach_cycle_iff (hg : g.Reachable placed) (ho : g.net.operator? n = some op)
    (bound : slot < op.arity) (hp : g.net.contains p = true) :
    ((∃ a b, g.attach n slot p = .error (.cycle a b)) ↔
      ∃ m, TransGen (g.net.Rewired n slot p) m m) ∧
    ∀ a b, g.attach n slot p = .error (.cycle a b) → a = n ∧ b = p := by
  have wellFormed := hg.wellFormed
  have hi : (g.net.inlet? n slot).isSome := by
    rw [← Net.slot?_isSome_iff wellFormed.toWired, Net.slot?, ho, Option.bind_some,
      isSome_getElem?]
    exact bound
  simp only [attach_eq_error, Net.checkEdge_eq_cycle_iff wellFormed hi hp,
    Net.exists_cycle_rewired_iff wellFormed hi hp]
  refine ⟨⟨?_, fun path => ⟨n, p, path, rfl, rfl⟩⟩, fun a b h => h.2⟩
  rintro ⟨_, _, path, _⟩
  exact path

end Graph

end

namespace Graph

/-- In a chain of three, an edge from the last to the first is refused. The last may read the first
in place of the one in the middle. -/
theorem attach_cycle_iff_chain : ∃ g : Graph,
    assembled [51, 51, 51] [⟨0, 1, 0⟩, ⟨1, 2, 0⟩] = some g ∧
    (∃ m, TransGen (g.net.Rewired 0 0 2) m m) ∧ ¬∃ m, TransGen (g.net.Rewired 2 0 0) m m := by
  have computed : ((assembled [51, 51, 51] [⟨0, 1, 0⟩, ⟨1, 2, 0⟩]).bind fun g =>
      (g.attach 2 0 0).toOption.filter fun _ =>
        failure? (g.attach 0 0 2) == some (.cycle 0 2) &&
          (g.net.operator? 0).any (0 < ·.arity) &&
            (g.net.operator? 2).any (0 < ·.arity)).isSome = true := by cbv
  obtain ⟨e, hr⟩ := Option.isSome_iff_exists.1 computed
  obtain ⟨g, hg, hr⟩ := Option.bind_eq_some_iff.1 hr
  obtain ⟨attached, hr⟩ := Option.filter_eq_some_iff.1 hr
  simp only [Bool.and_eq_true, beq_iff_eq, Option.any_eq_true, decide_eq_true_eq] at hr
  obtain ⟨⟨refused, first, ho, bound⟩, last, ho', bound'⟩ := hr
  have reachable := reachable_assembled hg
  refine ⟨g, hg, ?_, fun cycle => ?_⟩
  · have main := attach_cycle_iff reachable ho bound (Net.contains_of_operator? ho')
    exact main.1.1 ⟨0, 2, failure?_eq_some.1 refused⟩
  · have main := attach_cycle_iff reachable ho' bound' (Net.contains_of_operator? ho)
    obtain ⟨a, b, refused⟩ := main.1.2 cycle
    rw [toOption_eq_some.1 attached] at refused
    cases refused

end Graph
end Patchbay
