import Patchbay.Generator
import Patchbay.Proofs.Graph.Faults
import Patchbay.Proofs.Plan.FirstBlock

/-! # Faults inside promoted nodes

A promoted node is faulted when its net does not compile. When the net compiles and its output has a
fault, nothing of this is seen outside: the node gives a vector without cells.
-/

namespace Patchbay

section
variable [Platform]

namespace Net.Trials
variable {net : Net} {output : NodeId} {externals : Legs} {trials : List Trial}
  (h : net.Trials output externals trials) {t : Trial} {u : Template}
include h

theorem firstOutput_of_fault (hf : ((Plan.ofTrials output trials).fault? output).isSome)
    (legs : Legs) : (Plan.ofTrials output trials).firstOutput legs = [] := by
  have region : (Plan.ofTrials output trials).outputRegion = .empty := by
    obtain ⟨t, ht, rfl⟩ := h.trial?_output
    rw [h.fault?_plan ht] at hf
    rw [h.outputRegion_plan]
    exact h.regionOf_fault ht (Option.isSome_iff_ne_none.1 hf)
  rw [Plan.firstOutput, Plan.run_eq]
  refine (congrArg (fun r => Region.read r _) region).trans ?_
  exact Region.read_empty _

/-- A promoted node with sound producers fails exactly if its net does not compile. -/
theorem promoted_cases (ht : t ∈ trials) (hu : t.node.operator.body = .promoted u)
    (sound : ∀ p, net.Feeds p t.source → (Plan.ofTrials output trials).fault? p = none) :
    ∃ legs, t.toEntry.legs trials = .ok legs ∧
      (∀ cause, u.net.compile u.output legs = .error cause →
        t.outcome = .error (.promoted cause)) ∧
      ∀ plan, u.net.compile u.output legs = .ok plan →
        t.outcome = .ok ⟨plan.firstOutput legs, some plan⟩ := by
  rcases h.outcome_cases ht with ⟨p, hp, feeds, fault, -⟩ | ⟨-, fitting, outcome⟩
  · rw [← h.fault?_plan hp, sound _ feeds] at fault
    cases fault
  · have expanded := expand_of_body (h.entry_of_mem ht).1 hu
    refine ⟨_, legs_eq_ok.2 ⟨fitting, rfl⟩, fun cause hc => ?_, fun plan hc => ?_⟩
    · simp [outcome, Entry.yield, hu, expanded, hc]
    · simp [outcome, Entry.yield, hu, expanded, hc]

end Net.Trials

namespace Graph
variable {allowed : Operator → Prop} {g g' : Graph} {depth : Nat}

/-- Among promoted nodes without faulted producers just those whose net does not compile are faulted
and listed. A net that compiles with a fault at its output makes a node without a fault and without
cells, and no consumer takes it for faulted. -/
theorem fault_of_promoted (h : g.Reachable (Operator.Built allowed depth)) {context : ContextId}
    {output : NodeId} {externals : Legs} {compiled : Context}
    (hc : g.compile context output externals = .ok (g', compiled)) :
    ∃ trials, Net.tryAll g.net.expand externals (g.net.entries output) [] = .ok trials ∧
      compiled.plan = .ofTrials output trials ∧
      ∀ t ∈ trials, ∀ u, t.node.operator.body = .promoted u →
        (∀ p, g.net.Feeds p t.source → compiled.plan.fault? p = none) →
        ∃ legs, t.toEntry.legs trials = .ok legs ∧
          (∀ f, (t.source, f) ∈ compiled.plan.faults ↔
            ∃ cause, u.net.compile u.output legs = .error cause ∧ f = .promoted cause) ∧
          ∀ inner, u.net.compile u.output legs = .ok inner → (inner.fault? u.output).isSome →
            t.outcome = .ok ⟨[], some inner⟩ ∧ compiled.plan.fault? t.source = none ∧
            compiled.plan.inner? t.source = some inner ∧
            (compiled.plan.region? t.source).map (·.length) = some 0 ∧
            ∀ c, ¬compiled.plan.FirstFaulted g.net c t.source := by
  have deep := h.deep_wellFormed
  obtain ⟨trials, ht, hplan⟩ := (Net.compile_eq_ok deep.here).1 (plan_of_compile hc)
  rw [hplan]
  refine ⟨trials, ht.tryAll, rfl, fun t mem u hu sound => ?_⟩
  obtain ⟨legs, hlegs, failed, given⟩ := ht.promoted_cases mem hu sound
  refine ⟨legs, hlegs, fun f => ?_, fun inner compiled fault => ?_⟩
  · rw [ht.mem_faults, ht.fault?_plan mem, Trial.fault]
    cases hn : u.net.compile u.output legs with
    | error cause => simp [failed cause hn, eq_comm]
    | ok plan => simp [given plan hn]
  · have template := (Net.template?_eq_some (ht.entry_of_mem mem).1).2 hu
    obtain ⟨trials', ht', rfl⟩ := (Net.compile_eq_ok (deep.inside template).here).1 compiled
    have outcome := given _ compiled
    rw [ht'.firstOutput_of_fault fault] at outcome
    have unfaulted : t.fault = none := by
      rw [Trial.fault, outcome]
    refine ⟨outcome, (ht.fault?_plan mem).trans unfaulted, ?_, ?_, ?_⟩
    · rw [Plan.inner?, ht.node?_plan mem]
      change t.inner = _
      rw [Trial.inner, outcome]
    · rw [Plan.region?, ht.node?_plan mem, Option.map_some, Option.map_some]
      refine congrArg some ((ht.regionOf_output mem).1.trans ?_)
      rw [Trial.cells, outcome]
      rfl
    · rintro c ⟨slot, -, faulted, -⟩
      rw [ht.fault?_plan mem, unfaulted] at faulted
      cases faulted

end Graph

end

namespace Graph

/-- The graph of a blend without inputs as a node of another graph, where a second node reads it. -/
def muted : Option Graph := do
  let inner ← (ofDocument 0 [⟨.builtin 17, [], [], .empty, 0⟩] Builtin.catalog).toOption
  let promoted ← (inner.promote 0 ⟨0, 200⟩ "blend").toOption
  let blend ← ((Graph.empty 1).add promoted).toOption
  let floor ← Builtin.catalog.find? (.builtin 51)
  let pair ← (blend.graph.add floor).toOption
  let fed ← (pair.graph.attach 1 0 0).toOption
  return fed.graph

theorem reachable_muted (h : muted = some g) :
    g.Reachable (Operator.Built (fun _ => True) 1) := by
  unfold muted at h
  simp only [Option.bind_eq_bind, Option.bind_eq_some_iff, toOption_eq_some, Option.pure_def,
    Option.some.injEq] at h
  obtain ⟨inner, hi, promoted, hp, blend, h₁, floor, hf, pair, h₂, fed, h₃, rfl⟩ := h
  have builtin (op : Operator) (hop : op ∈ Builtin.catalog.operators) :
      Operator.Built (fun _ => True) 0 op :=
    ⟨trivial, (Builtin.regular_of_mem (Builtin.mem_operators hop)).2⟩
  have op : Operator.Built (fun _ => True) 1 promoted :=
    .inr ⟨inner, _, _, _, promoted, .loaded builtin hi, hp, .inl rfl⟩
  have other : Operator.Built (fun _ => True) 1 floor :=
    .inl (builtin floor (List.mem_of_find?_eq_some hf))
  exact .step (.step (.step (.empty 1) (.add op h₁)) (.add other h₂)) (.attach h₃)

/-- The blend fails inside, where the compile succeeds. Outside it has no fault. -/
theorem fault_of_promoted_muted :
    ∃ (g g' : Graph) (u : Template) (inner : Plan) (compiled : Context), muted = some g ∧
      g.compile 0 1 [] = .ok (g', compiled) ∧ g.net.template? 0 = some u ∧
      u.net.compile u.output [] = .ok inner ∧ inner.fault? u.output = some (.missingLegs 2 0) ∧
      compiled.plan.inner? 0 = some inner ∧ compiled.plan.fault? 0 = none ∧
      (compiled.plan.region? 0).map (·.length) = some 0 ∧
      ∀ c, ¬compiled.plan.FirstFaulted g.net c 0 := by
  have computed : (muted.bind fun g => (g.compile 0 1 []).toOption.bind fun r =>
      (g.net.template? 0).bind fun u => (u.net.compile u.output []).toOption.map fun inner =>
        (inner.fault? u.output, r.2.plan.nodes.map (·.source), (g.net.node? 0).map (·.inlets))) =
      some (some (.missingLegs 2 0), [0, 1], some []) := by
    cbv
  obtain ⟨g, hg, he⟩ := Option.bind_eq_some_iff.1 computed
  obtain ⟨⟨g', compiled⟩, hc, he⟩ := Option.bind_eq_some_iff.1 he
  obtain ⟨u, template, he⟩ := Option.bind_eq_some_iff.1 he
  obtain ⟨inner, nested, he⟩ := Option.map_eq_some_iff.1 he
  rw [toOption_eq_some] at hc nested
  simp only [Prod.mk.injEq] at he
  obtain ⟨fault, order, bare⟩ := he
  obtain ⟨node, hnode, bare⟩ := Option.map_eq_some_iff.1 bare
  have reachable := reachable_muted hg
  obtain ⟨trials, tried, hplan, main⟩ := fault_of_promoted reachable hc
  rw [hplan, Plan.map_source_ofTrials] at order
  obtain ⟨t, mem, named⟩ : ∃ t ∈ trials, t.source = 0 := List.mem_map.1 (by rw [order]; decide)
  have found : g.net.node? t.source = some t.node := by
    obtain ⟨new, rfl, entries, -⟩ := (tryAll_eq_ok (by trivial)).1 tried
    exact (Net.entry_of_mem_entries (entries ▸ List.mem_map_of_mem mem)).1
  rw [named, hnode] at found
  obtain rfl := Option.some.inj found
  have body := (Net.template?_eq_some hnode).1 template
  have alone (p : NodeId) (hp : g.net.Feeds p t.source) : compiled.plan.fault? p = none := by
    rw [← Net.mem_sources, named, Net.sources, hnode, Option.elim_some, Node.sources, bare] at hp
    cases hp
  obtain ⟨legs, hlegs, -, main⟩ := main t mem u body alone
  have none : t.toEntry.legs trials = .ok [] := by
    rw [Entry.legs, Node.sockets, bare, List.zip_nil_right]
    rfl
  obtain rfl := Except.ok.inj (hlegs.symm.trans none)
  obtain ⟨-, unfaulted, held, length, silent⟩ := main inner nested (by rw [fault]; rfl)
  rw [named] at unfaulted held length silent
  exact ⟨g, g', u, inner, compiled, hg, hc, template, nested, fault, held, unfaulted, length,
    silent⟩

/-- A promoted node whose net has a fault at its output, and its reader, are folded without a cell,
and no fault is listed. -/
theorem not_listed_muted :
    ∃ (g g' : Graph) (u : Template) (inner : Plan) (compiled : Context), muted = some g ∧
      g.Reachable (Operator.Built (fun _ => True) 1) ∧ g.compile 0 1 [] = .ok (g', compiled) ∧
      g.net.template? 0 = some u ∧ g.net.sources 0 = [] ∧ g.net.source? 1 0 = some 0 ∧
      u.net.compile u.output [] = .ok inner ∧ inner.fault? u.output = some (.missingLegs 2 0) ∧
      compiled.plan.fault? 0 = none ∧ compiled.plan.faults = [] ∧ compiled.plan.fault? 1 = none ∧
      compiled.plan.foldedCells? 1 = some [] := by
  have computed : (muted.bind fun g => (g.compile 0 1 []).toOption.bind fun r =>
      (g.net.template? 0).bind fun u => (u.net.compile u.output []).toOption.map fun inner =>
        ((g.net.sources 0, g.net.source? 1 0), inner.fault? u.output,
          (r.2.plan.fault? 0, r.2.plan.faults, r.2.plan.fault? 1), r.2.plan.foldedCells? 1)) =
      some (([], some 0), some (.missingLegs 2 0), (none, [], none), some []) := by
    cbv
  obtain ⟨g, hg, he⟩ := Option.bind_eq_some_iff.1 computed
  obtain ⟨⟨g', compiled⟩, hc, he⟩ := Option.bind_eq_some_iff.1 he
  obtain ⟨u, template, he⟩ := Option.bind_eq_some_iff.1 he
  obtain ⟨inner, nested, he⟩ := Option.map_eq_some_iff.1 he
  rw [toOption_eq_some] at hc nested
  simp only [Prod.mk.injEq] at he
  obtain ⟨⟨alone, fed⟩, fault, ⟨unfaulted, listed, sound⟩, folded⟩ := he
  exact ⟨g, g', u, inner, compiled, hg, reachable_muted hg, hc, template, alone, fed, nested, fault,
    unfaulted, listed, sound, folded⟩

end Graph
end Patchbay
