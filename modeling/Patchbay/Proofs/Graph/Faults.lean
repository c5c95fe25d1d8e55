import Patchbay.Builtin
import Patchbay.Generator
import Patchbay.Proofs.Graph.Layout
import Patchbay.Proofs.Plan.Confined

/-! # The faults of a compile

A compile that succeeds may hold nodes with faults. These are just the nodes that fail by themselves
and the nodes behind them. Each is listed once, and nothing else in the plan depends on it.
-/

namespace Patchbay
open Relation

section
variable [Platform]

namespace Graph
variable {placed : Operator → Prop} {g g' : Graph}

/-- A node is faulted exactly if a producer is or if it fails by itself. In the first case its fault
names the producer on its first faulted slot, and the faults lead from node to node to one that
fails by itself. The list that the compile keeps has every faulted node once, in the order of the
plan. -/
theorem faults_exact (h : g.Reachable placed) {context : ContextId} {output : NodeId}
    {externals : Legs} {compiled : Context}
    (hc : g.compile context output externals = .ok (g', compiled)) :
    ∃ trials, Net.tryAll g.net.expand externals (g.net.entries output) [] = .ok trials ∧
      compiled.plan = .ofTrials output trials ∧
      (∀ t ∈ trials,
        ((compiled.plan.fault? t.source).isSome ↔
          (∃ p, g.net.Feeds p t.source ∧ (compiled.plan.fault? p).isSome) ∨
            ∃ f, t.Fails trials f) ∧
        ((∃ p, g.net.Feeds p t.source ∧ (compiled.plan.fault? p).isSome) →
          ∃ p, compiled.plan.FirstFaulted g.net t.source p ∧
            compiled.plan.fault? t.source = some (.inherited p)) ∧
        ((∀ p, g.net.Feeds p t.source → compiled.plan.fault? p = none) →
          ∀ f, compiled.plan.fault? t.source = some f ↔ t.Fails trials f) ∧
        ((compiled.plan.fault? t.source).isSome →
          ∃ u ∈ trials, ReflTransGen compiled.plan.Blames t.source u.source ∧
            (∀ p, g.net.Feeds p u.source → compiled.plan.fault? p = none) ∧
            ∃ f, compiled.plan.fault? u.source = some f ∧ u.Fails trials f)) ∧
      Net.tryNoting g.net.expand externals (g.net.entries output) [] [] =
        .ok (trials, compiled.plan.faults) ∧
      compiled.plan.faults.map (·.1) =
        (compiled.plan.nodes.filter (·.fault.isSome)).map (·.source) ∧
      (compiled.plan.faults.map (·.1)).Nodup ∧
      (∀ n f, (n, f) ∈ compiled.plan.faults ↔ compiled.plan.fault? n = some f) ∧
      compiled.plan.Confined g.net := by
  obtain ⟨trials, ht, hplan⟩ := (Net.compile_eq_ok h.wellFormed).1 (plan_of_compile hc)
  rw [hplan]
  refine ⟨trials, ht.tryAll, rfl, fun t mem => ?_, ht.tryNoting, Plan.map_fst_faults _,
    ht.nodup_faults, fun n f => ht.mem_faults, ht.confined⟩
  rw [ht.fault?_plan mem]
  have origin (hf : t.fault.isSome) := ht.exists_origin mem hf
  rcases ht.fault_cases mem with ⟨p, first, inherited⟩ | ⟨sound, own⟩
  · have faulted : ∃ p, g.net.Feeds p t.source ∧
        ((Plan.ofTrials output trials).fault? p).isSome := by
      obtain ⟨slot, source, fault, -⟩ := first
      exact ⟨p, ⟨slot, source⟩, fault⟩
    refine ⟨iff_of_true (by rw [inherited]; rfl) (.inl faulted), fun _ => ⟨p, first, inherited⟩,
      fun sound => ?_, fun hf => ?_⟩
    · obtain ⟨q, feeds, fault⟩ := faulted
      rw [sound q feeds] at fault
      cases fault
    · obtain ⟨u, hu, chain, sound, f, hf, fails⟩ := origin hf
      exact ⟨u, hu, chain, sound, f, (ht.fault?_plan hu).trans hf, fails⟩
  · have unfaulted : ¬∃ p, g.net.Feeds p t.source ∧
        ((Plan.ofTrials output trials).fault? p).isSome := by
      rintro ⟨p, feeds, fault⟩
      rw [sound p feeds] at fault
      cases fault
    refine ⟨?_, fun faulted => absurd faulted unfaulted, fun _ => own, fun hf => ?_⟩
    · rw [Option.isSome_iff_exists, or_iff_right unfaulted]
      exact exists_congr own
    · obtain ⟨u, hu, chain, sound, f, hf, fails⟩ := origin hf
      exact ⟨u, hu, chain, sound, f, (ht.fault?_plan hu).trans hf, fails⟩

end Graph

end

namespace Graph

/-- A blend without inputs, a node that reads it, an input, and a sum of the last two with the
blend. -/
def blended : Document :=
  [⟨.builtin 17, [], [], .empty, 0⟩, ⟨.builtin 51, [0], [], .empty, 0⟩,
    ⟨.builtin 2, [], [], .empty, 0⟩, ⟨.builtin 4, [2, 1], [], .empty, 0⟩]

/-- The blend fails, and the faults of the other two lead to it. -/
theorem faults_exact_blended :
    ∃ (g g' : Graph) (compiled : Context), ofDocument 0 blended Builtin.catalog = .ok g ∧
      g.compile 0 3 [] = .ok (g', compiled) ∧
      compiled.plan.faults =
        [(0, .missingLegs 2 0), (1, .inherited 0), (3, .inherited 1)] ∧
      compiled.plan.FirstFaulted g.net 3 1 ∧
      ∃ n f, ReflTransGen compiled.plan.Blames 3 n ∧ compiled.plan.fault? n = some f ∧
        ∀ p, g.net.Feeds p n → compiled.plan.fault? p = none := by
  have computed : ((ofDocument 0 blended Builtin.catalog).toOption.bind fun g =>
      (g.compile 0 3 []).toOption.map fun r =>
        (r.2.plan.faults, r.2.plan.fault? 1, r.2.plan.fault? 3, g.net.source? 3 1,
          r.2.plan.nodes.map (·.source))) =
      some ([(0, .missingLegs 2 0), (1, .inherited 0), (3, .inherited 1)], some (.inherited 0),
        some (.inherited 1), some 1, [0, 1, 2, 3]) := by
    cbv
  obtain ⟨g, hg, he⟩ := Option.bind_eq_some_iff.1 computed
  obtain ⟨⟨g', compiled⟩, hc, he⟩ := Option.map_eq_some_iff.1 he
  rw [toOption_eq_some] at hg hc
  simp only [Prod.mk.injEq] at he
  obtain ⟨listed, one, three, source, order⟩ := he
  have reachable : g.Reachable fun _ => True := .loaded (fun _ _ => trivial) hg
  obtain ⟨trials, -, hplan, main, -⟩ := faults_exact reachable hc
  rw [hplan, Plan.map_source_ofTrials] at order
  obtain ⟨t, mem, named⟩ : ∃ t ∈ trials, t.source = 3 := List.mem_map.1 (by rw [order]; decide)
  obtain ⟨-, first, -, chain⟩ := main t mem
  rw [named, three] at first chain
  obtain ⟨p, first, he⟩ := first ⟨1, ⟨1, source⟩, by rw [one]; rfl⟩
  cases he
  obtain ⟨u, -, chain, sound, f, hf, -⟩ := chain rfl
  exact ⟨g, g', compiled, hg, hc, listed, first, u.source, f, chain, hf, sound⟩

end Graph
end Patchbay
