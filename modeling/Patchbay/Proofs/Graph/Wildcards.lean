import Patchbay.Builtin
import Patchbay.Generator
import Patchbay.Proofs.Graph.Kinds
import Patchbay.Proofs.Net.Adoption

/-! # What a wildcard resolves to

The kind that a graph stores at a following node is declared somewhere, as near as anything that the
node can take a kind from. It is the wildcard only where nothing concrete is declared in reach.
-/

namespace Patchbay

section
variable [Platform]

namespace Graph
variable {placed : Operator → Prop} {g : Graph}

/-- A following node is a wildcard exactly if no chain leads from it to a concrete kind. If one
does, it has the kind that a shortest chain leads to. A concrete kind that the followed producer
declares comes before all others. -/
theorem kind_of_follows (h : g.Reachable placed) {n : NodeId} {op : Operator}
    (ho : g.net.operator? n = some op) (hf : op.output = .follows) :
    (g.net.kind? n = some .any ↔ ∀ len k, ¬g.net.Chain len n k) ∧
    ((∃ len k, g.net.Chain len n k) → ∃ len k, g.net.kind? n = some k ∧ g.net.Nearest len n k) ∧
    ∀ s m source k, op.follow = some s → g.net.source? n s = some m →
      g.net.operator? m = some source → source.output = .fixed k → k.concrete = true →
      g.net.kind? n = some k := by
  have hl := h.wellFormed.linked
  have settled := h.resolved n (Net.contains_of_operator? ho)
  rw [settled]
  refine ⟨?_, ?_, fun s m source k hs hm hsource hk =>
    Net.kind?_settled_of_followed ho hf hs hm hsource hk⟩
  · rcases (Net.rounds_zero g.net).settle hl ⟨op, ho, hf⟩ with ⟨len, k, hk, near⟩ | ⟨any, none⟩
    · refine ⟨fun any => ?_, fun none => absurd near.chain (none len k)⟩
      obtain rfl := Option.some.inj (hk.symm.trans any)
      cases near.chain.concrete
    · exact iff_of_true any none
  · rintro ⟨len, k, hc⟩
    exact ((Net.rounds_zero g.net).settle hl ⟨op, ho, hf⟩).resolve_right fun none => none.2 len k hc

end Graph

end

namespace Graph

def chosen : Document :=
  [⟨.builtin 14, [], [], .empty, 0⟩, ⟨.builtin 2, [], [], .empty, 0⟩,
    ⟨.builtin 79, [-1, 1, 0], [], .empty, 0⟩]

/-- The node that chooses follows the input, which in turn follows it, so both are booleans. -/
theorem kind_of_follows_chosen :
    ∃ (g : Graph) (op : Operator), ofDocument 0 chosen Builtin.catalog = .ok g ∧
      g.net.operator? 1 = some op ∧ op.output = .follows ∧ g.net.Chain 2 1 .boolean ∧
      ∃ len k, g.net.kind? 1 = some k ∧ g.net.Nearest len 1 k := by
  have computed : ((ofDocument 0 chosen Builtin.catalog).toOption.map fun g =>
      ((g.net.source? 2 1, g.net.source? 2 2),
        (g.net.operator? 0).map (·.output), (g.net.operator? 1).map (·.output),
        (g.net.operator? 2).map fun op => (op.output, op.follow, op.slots.map (·.kind)))) =
      some ((some 1, some 0), some (.fixed .boolean), some .follows,
        some (.follows, some 1, [.boolean, .any, .any])) := by
    cbv
  obtain ⟨g, hg, he⟩ := Option.map_eq_some_iff.1 computed
  simp only [Prod.mk.injEq] at he
  rw [toOption_eq_some] at hg
  obtain ⟨⟨input, boolean⟩, ho₀, ho₁, ho₂⟩ := he
  obtain ⟨_, ho₀, fixed⟩ := Option.map_eq_some_iff.1 ho₀
  obtain ⟨op, ho₁, hf₁⟩ := Option.map_eq_some_iff.1 ho₁
  obtain ⟨choice, ho₂, he⟩ := Option.map_eq_some_iff.1 ho₂
  obtain ⟨hf₂, followed, kinds⟩ : choice.output = .follows ∧ choice.follow = some 1 ∧ _ := by
    simpa only [Prod.mk.injEq] using he
  have slot (i : Nat) (hi : [Kind.boolean, .any, .any][i]? = some .any) :
      ∃ s, choice.slots[i]? = some s ∧ s.kind = .any := by
    rwa [← kinds, List.getElem?_map, Option.map_eq_some_iff] at hi
  obtain ⟨s, hs, any⟩ := slot 1 rfl
  obtain ⟨s', hs', any'⟩ := slot 2 rfl
  have second : g.net.Chain 1 2 .boolean :=
    .adopt ⟨choice, ho₂, hf₂⟩ (.wildcard (by rw [Net.slot?, ho₂]; exact hs') any' boolean)
      (.fixed ho₀ fixed rfl)
  have chain : g.net.Chain 2 1 .boolean :=
    .adopt ⟨op, ho₁, hf₁⟩ (.carried input ho₂ hf₂ (.inr followed) hs any) second
  have reachable : g.Reachable (· ∈ Builtin.catalog.operators) := .loaded (fun _ hop => hop) hg
  exact ⟨g, op, hg, ho₁, hf₁, chain, (kind_of_follows reachable ho₁ hf₁).2.1 ⟨2, .boolean, chain⟩⟩

end Graph
end Patchbay
