import Patchbay.Generator
import Patchbay.Proofs.Graph.Reloadable
import Patchbay.Proofs.Net.Lineage
import Patchbay.Proofs.Net.Worklist

/-! # Orders and searches in a graph with a history

In a graph with a history both ends of every edge agree and no edge closes a cycle. So the sort of a
node and its ancestors takes all of them, and a search along the edges answers what there are paths
for. That a search ends does not depend on the history.
-/

namespace Patchbay
open Relation

namespace Graph

/-- The lineage of a live node is the node and its ancestors, each once and after its producers, and
the counts of the sort that finds it go down to zero and not below. -/
theorem lineage_exact [Platform] {placed : Operator → Prop} {g : Graph} {root : NodeId}
    (h : g.Reachable placed) (live : g.net.contains root = true) :
    Sorting.Exact g.net root where
  complete _ := Net.mem_lineage h.wellFormed.linked h.wellFormed.acyclic live
  nodup := Net.nodup_lineage h.wellFormed.linked root
  ordered _ _ _ he _ hp := Net.mem_of_lineage_eq h.wellFormed.linked he hp
  counted steps ports n d hd := by
    have sound := Sorting.sound_after h.wellFormed.linked root steps
    obtain ⟨served, inv⟩ := sound.partway h.wellFormed.linked ports
    exact inv.missing_nonneg hd
  finished := by
    obtain ⟨last, zero⟩ := Net.missing_lineage h.wellFormed.linked h.wellFormed.acyclic live
    exact ⟨_, last, rfl, zero⟩

/-- A literal feeds both slots of an addition, which are counted one by one. Its other reader lies
outside of the lineage and has no count. -/
theorem lineage_exact_doubled : ∃ g : Graph,
    assembled [13, 4, 51] [⟨0, 1, 0⟩, ⟨0, 1, 1⟩, ⟨0, 2, 0⟩] = some g ∧
    g.net.contains 1 = true ∧ g.net.lineage 1 = [0, 1] ∧
    (Sorting.after g.net 1 0).missing? 1 = some 2 ∧
    ((Sorting.after g.net 1 0).partway g.net 1).missing? 1 = some 1 ∧
    ((Sorting.after g.net 1 0).partway g.net 3).missing? 2 = none ∧
    Sorting.Exact g.net 1 := by
  have computed : ((assembled [13, 4, 51] [⟨0, 1, 0⟩, ⟨0, 1, 1⟩, ⟨0, 2, 0⟩]).any fun g =>
      g.net.contains 1 && g.net.lineage 1 == [0, 1] &&
        (Sorting.after g.net 1 0).missing? 1 == some 2 &&
          ((Sorting.after g.net 1 0).partway g.net 1).missing? 1 == some 1 &&
            ((Sorting.after g.net 1 0).partway g.net 3).missing? 2 == none) = true := by cbv
  obtain ⟨g, hg, computed⟩ := (Option.any_eq_true _ _).1 computed
  simp only [Bool.and_eq_true, beq_iff_eq] at computed
  obtain ⟨⟨⟨⟨live, order⟩, two⟩, one⟩, uncounted⟩ := computed
  exact ⟨g, hg, live, order, two, one, uncounted, lineage_exact (reachable_assembled hg) live⟩

/-- Both searches end on any net. From a live node of a graph with a history, their one answer is
the one that the checks of the graph use, and it is whether there is a path. -/
theorem searches_exact [Platform] :
    (∀ (net : Net) (a b : NodeId), (∃ answer, (net.ancestorSearch b).Answers a answer) ∧
      ∃ answer, net.demandSearch.Answers a answer) ∧
    ∀ (placed : Operator → Prop) (g : Graph), g.Reachable placed → ∀ a b : NodeId,
      g.net.contains a = true →
        (∀ answer, (g.net.ancestorSearch b).Answers a answer ↔ answer = g.net.reaches a b) ∧
        (g.net.reaches a b = true ↔ ReflTransGen g.net.Feeds b a) ∧
        (∀ answer, g.net.demandSearch.Answers a answer ↔ answer = g.net.isDemanded a) ∧
        (g.net.isDemanded a = true ↔ g.net.Demanded a) := by
  refine ⟨fun net a b => ⟨net.ancestorSearch_ends b a, net.demandSearch_ends a⟩, ?_⟩
  intro placed g h a b live
  have linked := h.wellFormed.linked
  exact ⟨fun answer => Net.ancestorSearch_answers_iff linked.noDangling live,
    Net.reaches_iff linked.noDangling live, fun answer => Net.demandSearch_answers_iff linked,
    Net.isDemanded_iff linked.noDangling⟩

/-- An input feeds both slots of an addition, which is repeated as often as the input says. So there
are several paths to the input, and only its own edge into the repetition is demanded early. The
other net has a cycle. -/
theorem searches_exact_doubled : ∃ g : Graph,
    assembled [2, 4, 44] [⟨0, 1, 0⟩, ⟨0, 1, 1⟩, ⟨1, 2, 0⟩, ⟨0, 2, 1⟩] = some g ∧
    (g.net.ancestorSearch 0).Answers 2 true ∧ (g.net.ancestorSearch 2).Answers 0 false ∧
    g.net.demandSearch.Answers 0 true ∧ g.net.demandSearch.Answers 1 false ∧
    (g.net.setSource 1 0 (some 1)).Feeds 1 1 ∧
    ∃ answer, (g.net.setSource 1 0 (some 1)).demandSearch.Answers 1 answer := by
  have computed :
      ((assembled [2, 4, 44] [⟨0, 1, 0⟩, ⟨0, 1, 1⟩, ⟨1, 2, 0⟩, ⟨0, 2, 1⟩]).any fun g =>
        g.net.ids == [0, 1, 2] && g.net.reaches 2 0 && !g.net.reaches 0 2 &&
          g.net.isDemanded 0 && !g.net.isDemanded 1 &&
            (g.net.setSource 1 0 (some 1)).source? 1 0 == some 1) = true := by cbv
  obtain ⟨g, hg, computed⟩ := (Option.any_eq_true _ _).1 computed
  simp only [Bool.and_eq_true, Bool.not_eq_true', beq_iff_eq] at computed
  obtain ⟨⟨⟨⟨⟨ids, above⟩, below⟩, demanded⟩, undemanded⟩, cycle⟩ := computed
  have live (n : NodeId) (hn : n < 3) : g.net.contains n = true := by
    rw [← Net.mem_ids, ids]
    interval_cases n <;> decide
  have main := searches_exact.2 _ g (reachable_assembled hg)
  refine ⟨g, hg, ?_, ?_, ?_, ?_, ⟨0, cycle⟩, (searches_exact.1 _ 1 1).2⟩
  · exact ((main 2 0 (live 2 (by decide))).1 true).2 above.symm
  · exact ((main 0 2 (live 0 (by decide))).1 false).2 below.symm
  · exact ((main 0 0 (live 0 (by decide))).2.2.1 true).2 demanded.symm
  · exact ((main 1 1 (live 1 (by decide))).2.2.1 false).2 undemanded.symm

end Graph
end Patchbay
