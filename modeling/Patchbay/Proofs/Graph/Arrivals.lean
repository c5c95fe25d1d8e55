import Patchbay.Builtin
import Patchbay.Generator
import Patchbay.Proofs.Graph.Early
import Patchbay.Proofs.Plan.Arrivals

/-! # Wildcard slots of following nodes

A node that took over a kind reads its wildcard slots in that kind. What a producer gives is
converted for it, before the first block and in every one. The default of an open slot is not: it
arrives as it is stored.
-/

namespace Patchbay

section
variable [Platform]

namespace Graph
variable {placed : Operator → Prop} {g g' : Graph}

/-- Whatever feeds a wildcard slot of a following node arrives in the kind of the node, when the
node is tried and in every block. An open slot gives its stored default instead, which is what the
decimal converts to only where converting changes nothing. -/
theorem legs_of_follows (h : g.Reachable placed) {context : ContextId} {output : NodeId}
    {externals : Legs} {compiled : Context}
    (hc : g.compile context output externals = .ok (g', compiled)) :
    ∃ trials, Net.tryAll g.net.expand externals (g.net.entries output) [] = .ok trials ∧
      compiled.plan = .ofTrials output trials ∧
      ∀ before t after k, trials = before ++ t :: after → t.fault = none →
        t.node.operator.output = .follows → g.net.kind? t.source = some k →
        ∃ seen, t.toEntry.legs before.reverse = .ok seen ∧
          t.outcome = t.toEntry.yield g.net.expand externals seen
            (t.toEntry.attached before.reverse) ∧
          (t.live = true → t.isInput = false → ∀ state host later,
            ∃ legs, compiled.plan.Reads state host later t.source legs) ∧
          ∀ slot s inlet, t.node.operator.slots[slot]? = some s → s.kind = .any →
            g.net.inlet? t.source slot = some inlet →
            (∀ p, inlet.source = some p → ∃ q producer, trial? before.reverse p = some q ∧
              compiled.plan.node? p = some producer ∧
              seen[slot]? = some (q.cells.map fun c => c.convert producer.kind k) ∧
              ∀ state, compiled.plan.Used state → ∀ host later legs,
                compiled.plan.Reads state host later t.source legs →
                legs[slot]? = some ((producer.region.read
                  (compiled.plan.run state host later).state.field).map fun c =>
                    c.convert producer.kind k)) ∧
            (inlet.source = none → seen[slot]? = some [inlet.default] ∧
              (∀ state, compiled.plan.Used state → ∀ host later legs,
                compiled.plan.Reads state host later t.source legs →
                legs[slot]? = some [inlet.default]) ∧
              (seen[slot]? = some [inlet.default.convert .decimal k] ↔
                inlet.default.convert .decimal k = inlet.default)) := by
  obtain ⟨trials, ht, hplan⟩ := (Net.compile_eq_ok h.wellFormed).1 (plan_of_compile hc)
  refine ⟨trials, ht.tryAll, hplan, fun before t after k hsplit hf follows hk => ?_⟩
  rw [hplan]
  have mem : t ∈ trials := hsplit ▸ List.mem_append_right _ List.mem_cons_self
  obtain ⟨legs, outcome⟩ := ht.seen hsplit hf
  refine ⟨_, legs, outcome, fun live input state host later =>
    Net.Trials.exists_reads mem live input state host later,
    fun slot s inlet hslot any hinlet => ?_⟩
  obtain ⟨socket, hs, rfl, rfl, rfl⟩ := ht.exists_socket_of_inlet mem hslot hinlet
  have kind := ht.reads_of_follows mem follows hk any
  have seen := Trial.getElem?_legsOf Trial.cells hs
  have source := ht.map_source_producer mem hs
  refine ⟨fun p hp => ?_, fun hopen => ?_⟩
  · rw [hp] at source
    obtain ⟨q, hq, rfl⟩ := Option.map_eq_some_iff.1 source
    have found := trial?_of_mem ht.nodup ((ht.producer_eq mem hs).2 q hq)
    have feeds := (ht.mem_sources mem).2 (ht.feeds_of_producer mem hs hq)
    rw [Trial.vector, hq] at seen
    dsimp only at seen
    rw [kind] at seen
    refine ⟨q, _, (ht.trial?_before hsplit _ feeds).1.trans found,
      ht.node?_plan ((ht.producer_eq mem hs).2 q hq), seen, fun state used host later legs hr => ?_⟩
    rw [ht.read_producer used mem hs hq hr, kind]
    rfl
  · rw [hopen] at source
    have free := Option.map_eq_none_iff.1 source
    rw [Trial.vector, free] at seen
    refine ⟨seen, fun state used host later legs hr => ?_, ?_⟩
    · refine (ht.read_static used mem hs (fun p hp => ?_) hr).trans seen
      rw [free] at hp
      cases hp
    · rw [seen, Option.some.injEq, List.cons.injEq]
      exact ⟨fun he => he.1.symm, fun he => ⟨he.symm, rfl⟩⟩

end Graph

end

namespace Graph

/-- A sample number and a sample rate, of which a third node takes one. -/
def stepped : Document :=
  [⟨.builtin 110, [], [], .empty, 0⟩, ⟨.builtin 111, [], [], .empty, 0⟩,
    ⟨.builtin 79, [-1, 0, 1], [], .empty, 0⟩]

/-- The node that chooses follows the sample number, so it reads the rate as an integer. -/
theorem legs_of_follows_stepped :
    ∃ (g g' : Graph) (compiled : Context) (region : Region),
      ofDocument 0 stepped Builtin.catalog = .ok g ∧
      g.compile 0 2 [] = .ok (g', compiled) ∧ compiled.plan.region? 1 = some region ∧
      (∃ legs, compiled.plan.Reads (.fresh compiled.plan) .detached [] 2 legs) ∧
      ∀ state, compiled.plan.Used state → ∀ host later legs,
        compiled.plan.Reads state host later 2 legs →
        legs[2]? = some ((region.read (compiled.plan.run state host later).state.field).map
          fun c => c.convert .decimal .integer) := by
  have computed : ((ofDocument 0 stepped Builtin.catalog).toOption.bind fun g =>
      (g.compile 0 2 []).toOption.map fun r =>
        ((g.net.kind? 2, (g.net.inlet? 2 2).map (·.source)),
          (r.2.plan.node? 1).map (·.kind),
          (r.2.plan.node? 2).map fun p => ((p.fault, p.folded),
            (p.operator.output, p.operator.isInput), (p.operator.slots[2]?).map (·.kind)))) =
      some ((some .integer, some (some 1)), some .decimal,
        some ((none, false), (.follows, false), some .any)) := by
    cbv
  obtain ⟨g, hg, he⟩ := Option.bind_eq_some_iff.1 computed
  obtain ⟨⟨g', compiled⟩, hc, he⟩ := Option.map_eq_some_iff.1 he
  rw [toOption_eq_some] at hg hc
  simp only [Prod.mk.injEq] at he
  obtain ⟨⟨hk, hinlet⟩, hone, htwo⟩ := he
  obtain ⟨inlet, hinlet, source⟩ := Option.map_eq_some_iff.1 hinlet
  obtain ⟨one, hone, decimal⟩ := Option.map_eq_some_iff.1 hone
  obtain ⟨two, htwo, he⟩ := Option.map_eq_some_iff.1 htwo
  simp only [Prod.mk.injEq] at he
  obtain ⟨⟨fault, unfolded⟩, ⟨follows, body⟩, hslot⟩ := he
  obtain ⟨slot, hslot, any⟩ := Option.map_eq_some_iff.1 hslot
  have reachable : g.Reachable fun _ => True := .loaded (fun _ _ => trivial) hg
  obtain ⟨trials, -, hplan, main⟩ := legs_of_follows reachable hc
  rw [hplan, Plan.node?_ofTrials] at htwo
  obtain ⟨t, ht, rfl⟩ := Option.map_eq_some_iff.1 htwo
  obtain ⟨mem, named⟩ := mem_of_trial? ht
  obtain ⟨before, after, hsplit⟩ := List.append_of_mem mem
  have live : t.live = true := (Trial.folded_or_live fault).resolve_left fun hf => by
    rw [show t.folded = false from unfolded] at hf
    cases hf
  obtain ⟨seen, -, -, reads, arrive⟩ :=
    main before t after .integer hsplit fault follows (named ▸ hk)
  rw [named] at reads arrive
  obtain ⟨fed, -⟩ := arrive 2 slot inlet hslot any hinlet
  obtain ⟨q, producer, -, hproducer, -, every⟩ := fed 1 source
  obtain rfl := Option.some.inj (hproducer.symm.trans hone)
  rw [decimal] at every
  refine ⟨g, g', compiled, producer.region, hg, hc, ?_, reads live body _ _ _, every⟩
  rw [Plan.region?, hproducer]
  rfl

/-- A node that passes on what it reads, which is a default of two, to the count of a
repetition. -/
def openCount : Document :=
  [⟨.builtin 1, [-1], [⟨0x4000000000000000⟩], .empty, 0⟩,
    ⟨.builtin 44, [-1, 0], [], .empty, 0⟩]

/-- The node that passes on is an integer for the sake of its reader. Yet the cell that it reads,
and gives, has the bits of the decimal two, and as a count these are far beyond the limit. -/
theorem not_converted_openCount :
    ∃ (g g₀ g₁ : Graph) (passed repeated : Context) (t : Trial),
      ofDocument 0 openCount Builtin.catalog = .ok g ∧ g.Reachable (fun _ => True) ∧
      g.compile 0 0 [] = .ok (g₀, passed) ∧
      (g.net.operator? 0).map (fun op => (op.output, op.slots.map (·.kind))) =
        some (.follows, [.any]) ∧
      g.net.kind? 0 = some .integer ∧ g.net.inlet? 0 0 = some ⟨none, .ofDecimal 2⟩ ∧
      Net.tryAll g.net.expand [] (g.net.entries 0) [] = .ok [t] ∧ t.fault = none ∧
      t.toEntry.legs [] ≠ .ok [[(Cell.ofDecimal 2).convert .decimal .integer]] ∧
      passed.plan.foldedCells? 0 ≠ some [(Cell.ofDecimal 2).convert .decimal .integer] ∧
      g.compile 1 1 [] = .ok (g₁, repeated) ∧ (repeated.plan.fault? 1).isSome = true := by
  have two : Cell.ofDecimal 2 = ⟨0x4000000000000000⟩ := by cbv
  have converted : (Cell.ofDecimal 2).convert .decimal .integer = ⟨2⟩ := by cbv
  have computed : ((ofDocument 0 openCount Builtin.catalog).toOption.bind fun g =>
      (g.compile 0 0 []).toOption.bind fun r => (g.compile 1 1 []).toOption.bind fun r' =>
        (Net.tryAll g.net.expand [] (g.net.entries 0) []).toOption.map fun trials =>
          (((g.net.operator? 0).map (fun op => (op.output, op.slots.map (·.kind))),
            g.net.kind? 0, g.net.inlet? 0 0),
            trials.map (fun t => (t.fault, (t.toEntry.legs []).toOption)),
            r.2.plan.foldedCells? 0, (r'.2.plan.fault? 1).isSome)) =
      some ((some (.follows, [.any]), some .integer, some ⟨none, ⟨0x4000000000000000⟩⟩),
        [(none, some [[⟨0x4000000000000000⟩]])], some [⟨0x4000000000000000⟩], true) := by
    cbv
  obtain ⟨g, hg, he⟩ := Option.bind_eq_some_iff.1 computed
  obtain ⟨⟨g₀, passed⟩, hc, he⟩ := Option.bind_eq_some_iff.1 he
  obtain ⟨⟨g₁, repeated⟩, hc', he⟩ := Option.bind_eq_some_iff.1 he
  obtain ⟨trials, htrials, he⟩ := Option.map_eq_some_iff.1 he
  rw [toOption_eq_some] at hg hc hc' htrials
  simp only [Prod.mk.injEq] at he
  obtain ⟨⟨operator, kind, inlet⟩, tried, folded, fault⟩ := he
  obtain ⟨t, rest, rfl, ht, nothing⟩ := List.map_eq_cons_iff.1 tried
  obtain rfl := List.map_eq_nil_iff.1 nothing
  obtain ⟨sound, legs⟩ := Prod.mk.inj ht
  rw [toOption_eq_some] at legs
  refine ⟨g, g₀, g₁, passed, repeated, t, hg, .loaded (fun _ _ => trivial) hg, hc, operator, kind,
    two ▸ inlet, htrials, sound, ?_, ?_, hc', fault⟩
  · rw [legs, converted]
    decide
  · rw [folded, converted]
    decide

end Graph
end Patchbay
