import Patchbay.Generator
import Patchbay.Proofs.Graph.FixedLengths
import Patchbay.Proofs.Net.Inputs
import Patchbay.Proofs.Plan.Limits

/-! # The lengths in a compiled graph

All regions of a compiled graph are within the limit exactly when the vectors are that its inputs
read: an input is the one node that may be longer.
-/

namespace Patchbay

section
variable [Platform]

namespace Net.Trials
variable {net : Net} {output : NodeId} {externals : Legs} {trials : List Trial} {t : Trial}

theorem cells_input (h : net.Trials output externals trials) (rooted : net.Rooted)
    (ht : t ∈ trials) (hb : t.node.operator.body = .input) {i : Nat} {v : Cells}
    (hi : t.index = some i) (hv : externals[i]? = some v) : t.cells = v := by
  have operator : net.operator? t.source = some t.node.operator := by
    rw [operator?, (h.entry_of_mem ht).1, Option.map_some]
  have input : t.node.operator.isInput = true := by rw [Operator.isInput, hb]
  rcases h.outcome_cases ht with ⟨p, -, feeds, -, -⟩ | ⟨-, -, outcome⟩
  · exact absurd feeds (rooted.not_feeds h.wellFormed.toWired operator input)
  · rw [Trial.cells, outcome, Entry.yield, hb, hi, Option.bind_some, hv, Option.getD_some]

end Net.Trials

namespace Graph
variable {g g' : Graph} {context : ContextId} {output : NodeId} {externals : Legs}
  {compiled : Context} {depth : Nat}

/-- In a graph over the built-in operators, at any depth of nesting, a compile keeps all nodes
within the limit exactly when the vectors are that its inputs read. Built-in and promoted nodes are
never longer by themselves. Then the compile also asks for no length on legs of which two have a
product that does not fit in a word, be it in a node or inside one. -/
theorem limited_iff (h : g.Reachable (Operator.Built (· ∈ Builtin.catalog.operators) depth))
    (hc : g.compile context output externals = .ok (g', compiled)) :
    (compiled.plan.Limited ↔ ∀ (i : Nat) (n : NodeId) (v : Cells), g.net.inputs[i]? = some n →
      (compiled.plan.region? n).isSome → externals[i]? = some v → v.length ≤ maxLength) ∧
    (compiled.plan.Limited → ∀ legs, g.net.Asks output externals legs → ∀ x y,
      Broadcast.outer.length (legs.leg x).length (legs.leg y).length < 2 ^ 64) := by
  have rooted := (h.regular fun _ hop => Builtin.regular_of_mem (Builtin.mem_operators hop)).rooted
  have compile := plan_of_compile hc
  obtain ⟨trials, ht, hplan⟩ := (Net.compile_eq_ok h.wellFormed).1 compile
  have entries (inputs : ∀ (i : Nat) (n : NodeId) (v : Cells), g.net.inputs[i]? = some n →
      (compiled.plan.region? n).isSome → externals[i]? = some v → v.length ≤ maxLength) :
      ∀ e ∈ g.net.entries output, e.Limited externals := by
    intro e he i v hi hv
    rw [← ht.entries] at he
    obtain ⟨t, mem, rfl⟩ := List.mem_map.1 he
    refine inputs i t.source v (getElem?_of_idxOf? ((ht.entry_of_mem mem).2.1.symm.trans hi)) ?_ hv
    rw [hplan, Plan.region?, ht.node?_plan mem]
    rfl
  have read (limited : compiled.plan.Limited) (i : Nat) (n : NodeId) (v : Cells)
      (hn : g.net.inputs[i]? = some n) (there : (compiled.plan.region? n).isSome)
      (hv : externals[i]? = some v) : v.length ≤ maxLength := by
    rw [hplan, Plan.region?, Option.isSome_map, Plan.node?_ofTrials, Option.isSome_map] at there
    obtain ⟨t, found⟩ := Option.isSome_iff_exists.1 there
    obtain ⟨mem, rfl⟩ := mem_of_trial? found
    obtain ⟨op, operator, input⟩ := Net.mem_inputs.1 (List.mem_of_getElem? hn)
    rw [Net.operator?, (ht.entry_of_mem mem).1, Option.map_some, Option.some.injEq] at operator
    have body : t.node.operator.body = .input := by
      rw [operator]
      cases hb : op.body <;> simp [Operator.isInput, hb] at input ⊢
    have index := (ht.entry_of_mem mem).2.1.trans (idxOf?_of_getElem? g.net.nodup_inputs hn)
    rw [hplan] at limited
    rw [← ht.cells_input rooted mem body index hv, ← (ht.regionOf_output mem).1]
    exact limited.nodes (t.planNode (placement trials)) (List.mem_map_of_mem mem)
  refine ⟨⟨read, fun inputs => ?_⟩, fun limited legs asked => ?_⟩
  · exact h.deep_wellFormed.compile_limited (entries inputs) compile
  · exact (asked.limited h.deep_wellFormed (entries (read limited))).outer_lt

end Graph

end

namespace Graph

/-- Two inputs are added that read two cells and one. -/
theorem limited_iff_added : ∃ (g g' : Graph) (compiled : Context),
    assembled [2, 2, 4] [⟨0, 2, 0⟩, ⟨1, 2, 1⟩] = some g ∧
      g.compile 0 2 [[.zero, .zero], [.zero]] = .ok (g', compiled) ∧
      compiled.plan.Limited ∧
      ∀ legs, g.net.Asks 2 [[.zero, .zero], [.zero]] legs → ∀ x y,
        Broadcast.outer.length (legs.leg x).length (legs.leg y).length < 2 ^ 64 := by
  have computed : ((assembled [2, 2, 4] [⟨0, 2, 0⟩, ⟨1, 2, 1⟩]).bind fun g =>
      (g.compile 0 2 [[.zero, .zero], [.zero]]).toOption).isSome = true := by cbv
  obtain ⟨⟨g', compiled⟩, hr⟩ := Option.isSome_iff_exists.1 computed
  obtain ⟨g, hg, hc⟩ := Option.bind_eq_some_iff.1 hr
  rw [toOption_eq_some] at hc
  have short : ∀ v ∈ [[Cell.zero, .zero], [.zero]], v.length ≤ maxLength := by decide
  obtain ⟨limits, asks⟩ := limited_iff (built_assembled hg) hc
  have limited := limits.2 fun i n v _ _ hv => short v (List.mem_of_getElem? hv)
  exact ⟨g, g', compiled, hg, hc, limited, asks limited⟩

/-- An input that is compiled with a vector of any length gets a region of this length. -/
theorem compile_read (v : Cells) : ∃ (g g' : Graph) (compiled : Context),
    assembled [2] [] = some g ∧ g.compile 0 0 [v] = .ok (g', compiled) ∧
      compiled.plan.region? 0 = some ⟨0, v.length⟩ := by
  have computed : ((assembled [2] []).bind fun g => (g.compile 0 0 [v]).toOption.bind fun r =>
      r.2.plan.region? 0) = some ⟨0, v.length⟩ := by cbv
  obtain ⟨g, hg, hr⟩ := Option.bind_eq_some_iff.1 computed
  obtain ⟨⟨g', compiled⟩, hc, region⟩ := Option.bind_eq_some_iff.1 hr
  exact ⟨g, g', compiled, hg, toOption_eq_some.1 hc, region⟩

/-- So an input reads a vector of one cell above the limit. -/
theorem not_limited_read : ∃ (g g' : Graph) (compiled : Context), assembled [2] [] = some g ∧
    g.compile 0 0 [List.replicate (maxLength + 1) .zero] = .ok (g', compiled) ∧
      compiled.plan.region? 0 = some ⟨0, maxLength + 1⟩ ∧ ¬compiled.plan.Limited := by
  obtain ⟨g, g', compiled, hg, hc, region⟩ := compile_read (List.replicate (maxLength + 1) .zero)
  rw [List.length_replicate] at region
  refine ⟨g, g', compiled, hg, hc, region, fun limited => ?_⟩
  obtain ⟨p, hp, hr⟩ := Option.map_eq_some_iff.1 region
  have within := limited.nodes p (List.mem_of_find?_eq_some hp)
  rw [hr] at within
  exact Nat.not_succ_le_self maxLength within

end Graph
end Patchbay
