import Patchbay.Generator
import Patchbay.Proofs.Graph.Wildcards

/-! # Settling the kinds of a graph anew

A list of nodes can only say in which order they are looked at. Whatever it names, the loop ends,
every node has a kind, and it is the kind that the graph stores already when it has a history.
-/

namespace Patchbay

section
variable [Platform]

namespace Graph

/-- For any list of handles, with repetitions, omissions and handles of no node, the loop has one
end, where every node has a kind. It is the same for all lists, and what settling the kinds after an
edit stores; a graph with a history is left as it is. -/
theorem resolveInOrder_settles (g : Graph) (order order' : List NodeId) :
    (∃ settled,
      (∀ result, Passes g.net.declared (g.net.waiting (g.net.scan order)) result ↔
        result = settled) ∧
      (∀ n, g.net.contains n = true → ∃ k, settled.kind? n = some k ∧
        (g.resolveInOrder order).net.kind? n = some k)) ∧
    g.resolveInOrder order' = g.resolveInOrder order ∧
    g.resolveInOrder order = g.withNet g.net.resolve ∧
    ∀ placed, g.Reachable placed → g.resolveInOrder order = g := by
  have anew (order : List NodeId) : g.resolveInOrder order = g.withNet g.net.resolve := by
    rw [resolveInOrder, Net.resolveInOrder_eq]
  refine ⟨⟨g.net.settledBy (g.net.scan order), fun result => ?_, fun n hn => ?_⟩, ?_, anew order,
    fun placed h => ?_⟩
  · exact (Net.waiting_scan fun n => Net.mem_scan.1).passes_iff
  · obtain ⟨k, hk⟩ :=
      Option.isSome_iff_exists.1 (Net.kind?_settledBy_isSome (fun n => Net.mem_scan) hn)
    exact ⟨k, hk, (Net.kind?_withKinds g.net _ hn).trans hk⟩
  · rw [anew order, anew order']
  · rw [anew order, h.resolve_eq]
    rfl

end Graph

end

namespace Graph

/-- Of three nodes two take their kinds from around them, and the list names one of them twice, the
other not at all, and a node that is not there. -/
theorem resolveInOrder_settles_chosen :
    ∃ g : Graph, ofDocument 0 chosen Builtin.catalog = .ok g ∧
      g.net.scan [2, 7, 2] = [2, 2, 0, 1] ∧ g.net.contains 2 = true ∧
      g.Reachable (fun _ => True) ∧ g.resolveInOrder [2, 7, 2] = g ∧
      ∃ k, g.net.kind? 2 = some k := by
  have computed : ((ofDocument 0 chosen Builtin.catalog).toOption.map fun g =>
      (g.net.scan [2, 7, 2], g.net.contains 2)) = some ([2, 2, 0, 1], true) := by
    cbv
  obtain ⟨g, hg, he⟩ := Option.map_eq_some_iff.1 computed
  rw [toOption_eq_some] at hg
  obtain ⟨scanned, there⟩ := Prod.mk.inj he
  have reached : g.Reachable fun _ => True := .loaded (fun _ _ => trivial) hg
  obtain ⟨⟨settled, -, found⟩, -, -, same⟩ := resolveInOrder_settles g [2, 7, 2] []
  have kept := same _ reached
  obtain ⟨k, -, hk⟩ := found 2 there
  rw [kept] at hk
  exact ⟨g, hg, scanned, there, reached, kept, k, hk⟩

end Graph
end Patchbay
