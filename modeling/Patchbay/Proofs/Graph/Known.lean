import Patchbay.Generator
import Patchbay.Proofs.Graph.Layout
import Patchbay.Proofs.Plan.Recompile

/-! # What makes a node vary

Two sorts of nodes may give another output in another block: those that have to run in every block,
and inputs of which nothing is demanded early. A node is known exactly when no node of these sorts
lies upstream of it. The graph and its compiles agree on this, though each decides it on an order of
its own.
-/

namespace Patchbay
open Relation

section
variable [Platform]

namespace Net
variable {net : Net} {n : NodeId}

/-- The node may give another output in another block, whatever it reads: it has to run in every
block, or it is an input behind which no slot needs a value early. -/
def Varies (net : Net) (n : NodeId) : Prop :=
  ∃ op, net.operator? n = some op ∧ (op.live = true ∨ op.isInput = true ∧ ¬net.Demanded n)

/-- Nothing at the node or upstream of it varies. -/
def Constant (net : Net) (n : NodeId) : Prop :=
  ∀ m, ReflTransGen net.Feeds m n → ¬net.Varies m

theorem Known.not_varies (h : net.Known n) : ¬net.Varies n := by
  rintro ⟨op, ho, live | ⟨input, undemanded⟩⟩
  · rw [h.live ho] at live
    cases live
  · exact undemanded (h.demanded ho input)

theorem known_iff_constant (hw : net.WellFormed)
    (hr : ∀ n op, net.operator? n = some op → op.isInput = true → op.slots = [])
    (hc : net.contains n = true) : net.Known n ↔ net.Constant n := by
  constructor
  · intro known m up
    exact (known.of_upstream hw.toWired hr up).not_varies
  · intro constant
    refine known_of_upstream hw hc fun m op up ho => ⟨?_, fun input => ?_⟩
    · rw [Bool.eq_false_iff]
      exact fun live => constant m up ⟨op, ho, .inl live⟩
    · by_contra undemanded
      exact constant m up ⟨op, ho, .inr ⟨input, undemanded⟩⟩

/-- A trial is folded where nothing upstream varies and the node has no fault. -/
theorem Trials.folded_iff {output : NodeId} {externals : Legs} {trials : List Trial} {t : Trial}
    (h : net.Trials output externals trials) (ht : t ∈ trials)
    (hr : ∀ n op, net.operator? n = some op → op.isInput = true → op.slots = []) :
    t.folded = true ↔ net.Constant t.source ∧ t.fault = none := by
  have live : net.contains t.source = true := by
    rw [Net.contains, (h.entry_of_mem ht).1]
    rfl
  rw [Trial.folded, Bool.and_eq_true, Option.isNone_iff_eq_none, h.known_iff ht,
    known_iff_constant h.wellFormed hr live]

end Net

namespace Graph
variable {placed : Operator → Prop} {g : Graph}

/-- A live node is known exactly when nothing upstream of it varies. Every compile that contains the
node folds it exactly when that is so and the node has no fault. -/
theorem isKnown_iff_constant (h : g.Reachable placed)
    (hp : ∀ op, placed op → op.isInput = true → op.slots = []) :
    ∀ n, g.net.contains n = true →
      (g.net.isKnown n = true ↔ g.net.Constant n) ∧
      ∀ context output externals g' compiled,
        g.compile context output externals = .ok (g', compiled) →
          ∀ p ∈ compiled.plan.nodes, p.source = n →
            (p.folded = true ↔ g.net.Constant n ∧ p.fault = none) := by
  have inputs : ∀ n op, g.net.operator? n = some op → op.isInput = true → op.slots = [] :=
    fun n op ho => hp op (h.operator_placed ho)
  intro n live
  constructor
  · rw [Net.isKnown_iff h.wellFormed, and_iff_right live,
      Net.known_iff_constant h.wellFormed inputs live]
  · rintro context output externals g' compiled hc p mem rfl
    obtain ⟨trials, ht, hplan⟩ := (Net.compile_eq_ok h.wellFormed).1 (plan_of_compile hc)
    rw [hplan] at mem
    obtain ⟨t, tried, rfl⟩ := List.mem_map.1 mem
    exact ht.folded_iff tried inputs

end Graph

end

namespace Graph

/-- The count of a repetition is demanded early, and what it repeats is not. So the input of the
count is known and folded, and the repetition is neither. -/
theorem isKnown_iff_constant_counted : ∃ (g g' : Graph) (compiled : Context),
    ofDocument 0 counted Builtin.catalog = .ok g ∧
      g.compile 0 2 [[⟨5⟩], [.ofInteger 2]] = .ok (g', compiled) ∧
        g.net.Constant 1 ∧ ¬g.net.Constant 2 ∧
          ∃ p ∈ compiled.plan.nodes, p.source = 1 ∧ p.folded = true := by
  have computed : ((ofDocument 0 counted Builtin.catalog).toOption.any fun g =>
      (g.compile 0 2 [[⟨5⟩], [.ofInteger 2]]).toOption.any fun r =>
        g.net.contains 1 && g.net.isKnown 1 && g.net.contains 2 && !g.net.isKnown 2 &&
          r.2.plan.nodes.any fun p => p.source == 1 && p.fault.isNone) = true := by cbv
  obtain ⟨g, hg, computed⟩ := (Option.any_eq_true _ _).1 computed
  obtain ⟨⟨g', compiled⟩, hc, computed⟩ := (Option.any_eq_true _ _).1 computed
  simp only [Bool.and_eq_true, Bool.not_eq_true', List.any_eq_true, beq_iff_eq,
    Option.isNone_iff_eq_none] at computed
  obtain ⟨⟨⟨⟨live, known⟩, live'⟩, unknown⟩, p, mem, source, fault⟩ := computed
  rw [toOption_eq_some] at hg hc
  have reachable : g.Reachable (· ∈ Builtin.operators) :=
    .loaded (fun op hop => Builtin.mem_operators hop) hg
  have main := isKnown_iff_constant reachable fun op hop input =>
    ((Builtin.regular_of_mem hop).1.input input).1
  obtain ⟨count, folded⟩ := main 1 live
  have constant := count.1 known
  refine ⟨g, g', compiled, hg, hc, constant, fun repeated => ?_, p, mem, source, ?_⟩
  · rw [(main 2 live').1.2 repeated] at unknown
    cases unknown
  · exact (folded 0 2 _ g' compiled hc p mem source).2 ⟨constant, fault⟩

end Graph
end Patchbay
