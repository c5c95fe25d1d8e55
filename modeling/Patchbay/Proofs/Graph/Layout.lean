import Patchbay.Builtin
import Patchbay.Generator
import Patchbay.Proofs.Graph.History
import Patchbay.Proofs.Plan.Schedule

/-! # The layout of a compiled graph

Every net with a history is well formed, so all that a layout promises holds of the plans that a
graph is compiled to, and its steps are a schedule of the output and all that it depends on. The
lengths that were found when the bodies were tried are those of the regions that the bodies read in
every block.
-/

namespace Patchbay
namespace Graph

section
variable [Platform] {placed : Operator → Prop} {g g' : Graph} {context : ContextId}
  {output : NodeId} {externals : Legs} {compiled : Context}

theorem plan_of_compile (h : g.compile context output externals = .ok (g', compiled)) :
    g.net.compile output externals = .ok compiled.plan :=
  (graph_of_compile h).1

/-- Every compile of a graph with a history lays its plan out free of aliases, and every body is
evaluated on regions of the lengths that it was tried on. -/
theorem compile_layout (h : g.Reachable placed)
    (hc : g.compile context output externals = .ok (g', compiled)) :
    compiled.plan.AliasFree g.net ∧
    ∃ trials, Net.tryAll g.net.expand externals (g.net.entries output) [] = .ok trials ∧
      compiled.plan = .ofTrials output trials ∧
      ∀ before t after, trials = before ++ t :: after → ∀ legs dest,
        .evaluate t.source legs dest ∈ compiled.plan.steps →
          ∃ seen, t.toEntry.legs before.reverse = .ok seen ∧
            t.outcome = t.toEntry.yield g.net.expand externals seen
              (t.toEntry.attached before.reverse) ∧
            legs.map (·.length) = seen.map List.length := by
  obtain ⟨trials, ht, hplan⟩ := (Net.compile_eq_ok h.wellFormed).1 (plan_of_compile hc)
  rw [hplan]
  refine ⟨ht.aliasFree, trials, ht.tryAll, rfl, fun before t after hs legs dest he => ?_⟩
  obtain ⟨u, hu, hl, hi, hsu, rfl, _⟩ := Plan.mem_evaluate.1 he
  have mem : t ∈ trials := hs ▸ List.mem_append_right _ List.mem_cons_self
  cases ht.eq_of_source mem hu hsu
  obtain ⟨_, fitting, outcome⟩ := ht.sound_of_fault mem (Trial.fault_of_live hl).1
  have earlier : ∀ p ∈ t.node.sources, trial? before.reverse p = trial? trials p :=
    fun p hp => (ht.trial?_before hs p hp).1
  refine ⟨t.legsOf trials Trial.cells, ?_, ?_, ?_⟩
  · rw [legs_congr earlier]
    exact legs_eq_ok.2 ⟨fitting, rfl⟩
  · rw [attached_congr earlier]
    exact outcome
  · rw [List.map_map, Trial.legsOf, List.map_map]
    exact List.map_congr_left fun s hs => ht.length_legRegion mem hl hi hs

end

/-- An input and the position in the stream, an integer, are added: one slot is read from outside
and one is converted in every block. -/
def mixed : Document :=
  [⟨.builtin 2, [], [], .empty, 0⟩, ⟨.builtin 110, [], [], .empty, 0⟩,
    ⟨.builtin 4, [0, 1], [], .empty, 0⟩]

theorem compile_layout_mixed : ∃ (g g' : Graph) (compiled : Context),
    Graph.ofDocument 0 mixed Builtin.catalog = .ok g ∧
      g.compile 0 2 [[.zero, .zero]] = .ok (g', compiled) ∧
        compiled.plan.AliasFree g.net := by
  have computed : ((Graph.ofDocument 0 mixed Builtin.catalog).toOption.bind fun g =>
      (g.compile 0 2 [[.zero, .zero]]).toOption).isSome = true := by cbv
  obtain ⟨⟨g', compiled⟩, hr⟩ := Option.isSome_iff_exists.1 computed
  obtain ⟨g, hg, hc⟩ := Option.bind_eq_some_iff.1 hr
  rw [toOption_eq_some] at hg hc
  have reachable : g.Reachable fun _ => True := .loaded (fun _ _ => trivial) hg
  exact ⟨g, g', compiled, hg, hc, (compile_layout reachable hc).1⟩

/-- The steps of every compile of a graph with a history are a schedule of the node that is compiled
and all that it depends on. -/
theorem compile_scheduled [Platform] {placed : Operator → Prop} {g g' : Graph}
    {context : ContextId} {output : NodeId} {externals : Legs} {compiled : Context}
    (h : g.Reachable placed) (hc : g.compile context output externals = .ok (g', compiled)) :
    compiled.plan.output = output ∧ compiled.plan.Scheduled g.net := by
  obtain ⟨trials, ht, hplan⟩ := (Net.compile_eq_ok h.wellFormed).1 (plan_of_compile hc)
  rw [hplan]
  exact ⟨rfl, ht.scheduled⟩

/-- The position is converted after it was computed, and before it is added to the input. -/
theorem compile_scheduled_mixed : ∃ (g g' : Graph) (compiled : Context),
    Graph.ofDocument 0 mixed Builtin.catalog = .ok g ∧
      g.compile 0 2 [[.zero, .zero]] = .ok (g', compiled) ∧
        compiled.plan.steps.map Step.node? = [some 0, some 1, none, some 2] ∧
          compiled.plan.Scheduled g.net := by
  have computed : ((Graph.ofDocument 0 mixed Builtin.catalog).toOption.any fun g =>
      (g.compile 0 2 [[.zero, .zero]]).toOption.any fun r =>
        r.2.plan.steps.map Step.node? == [some 0, some 1, none, some 2]) = true := by cbv
  obtain ⟨g, hg, computed⟩ := (Option.any_eq_true _ _).1 computed
  obtain ⟨⟨g', compiled⟩, hc, steps⟩ := (Option.any_eq_true _ _).1 computed
  rw [toOption_eq_some] at hg hc
  have reachable : g.Reachable fun _ => True := .loaded (fun _ _ => trivial) hg
  exact ⟨g, g', compiled, hg, hc, beq_iff_eq.1 steps, (compile_scheduled reachable hc).2⟩

end Graph
end Patchbay
