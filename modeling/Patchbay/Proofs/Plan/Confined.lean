import Patchbay.Proofs.Plan.Faults

/-! # What a fault cannot reach

A faulted node has no cells and no step. What the steps of the other nodes read is laid down from
their own defaults, or it comes from producers without a fault.
-/

namespace Patchbay

variable [Platform]

namespace Plan

/-- Where a region comes from that the body of a node reads for a slot. -/
inductive Supplied (plan : Plan) (net : Net) (n : NodeId) (slot : Nat) (region : Region) : Prop
  /-- The default of an open slot was laid down. -/
  | default {inlet : Inlet} (found : net.inlet? n slot = some inlet) (free : inlet.source = none)
    (laid : region.read plan.field = [inlet.default])
  /-- The converted cells of a folded producer were laid down. -/
  | constant {q : NodeId} {producer : PlanNode} {reader : Kind} (fed : net.source? n slot = some q)
    (found : plan.node? q = some producer) (sound : producer.fault = none)
    (folded : producer.folded = true)
    (laid : region.read plan.field =
      (producer.region.read plan.field).map fun c => c.convert producer.kind reader)
  /-- A step converts the cells of a producer. -/
  | converted {q : NodeId} {producer : PlanNode} {reader : Kind}
    (fed : net.source? n slot = some q) (found : plan.node? q = some producer)
    (sound : producer.fault = none)
    (step : .convert producer.region region producer.kind reader ∈ plan.steps)
  /-- It is the region of a producer. -/
  | direct {q : NodeId} {producer : PlanNode} (fed : net.source? n slot = some q)
    (found : plan.node? q = some producer) (sound : producer.fault = none)
    (same : region = producer.region)

/-- Faulted nodes take no part in a block, and nothing is read from them. -/
structure Confined (plan : Plan) (net : Net) : Prop where
  idle : ∀ p ∈ plan.nodes, p.fault ≠ none →
    p.region = .empty ∧ p.folded = false ∧ ∀ step ∈ plan.steps, step.node? ≠ some p.source
  external : ∀ n index fallback dest, .read n index fallback dest ∈ plan.steps →
    ∃ p, plan.node? n = some p ∧ p.fault = none ∧ p.folded = false ∧ dest = p.region
  /-- A conversion serves a slot of a node that runs in every block. -/
  converted : ∀ source dest written reader, .convert source dest written reader ∈ plan.steps →
    ∃ n legs out slot q producer, .evaluate n legs out ∈ plan.steps ∧ legs[slot]? = some dest ∧
      net.source? n slot = some q ∧ plan.node? q = some producer ∧ producer.fault = none ∧
        source = producer.region
  evaluated : ∀ n legs dest, .evaluate n legs dest ∈ plan.steps →
    ∃ p, plan.node? n = some p ∧ p.fault = none ∧ p.folded = false ∧ dest = p.region ∧
      ∀ slot region, legs[slot]? = some region → plan.Supplied net n slot region

end Plan

namespace Net.Trials
variable {net : Net} {output : NodeId} {externals : Legs} {trials : List Trial}
  (h : net.Trials output externals trials) {t p : Trial} {s : Trial.Socket}
include h

theorem fault_of_step (ht : t ∈ trials) {step : Step}
    (hs : step ∈ (Plan.ofTrials output trials).steps) (hn : step.node? = some t.source) :
    t.fault = none := by
  obtain ⟨u, hu, hs⟩ := Plan.mem_steps_ofTrials.1 hs
  obtain ⟨hl, hs⟩ := Plan.mem_steps.1 hs
  have same : step.node? = some u.source := by
    rcases hs with ⟨_, rfl⟩ | ⟨_, ⟨s, p, _, rfl⟩ | rfl⟩
    · rfl
    · cases hn
    · rfl
  rw [h.eq_of_source ht hu (Option.some.inj (hn.symm.trans same))]
  exact (Trial.fault_of_live hl).1

/-- The producer of a slot of a live node stands in the plan and has no fault. -/
theorem producer_plan (ht : t ∈ trials) (hl : t.live = true) (hs : s ∈ t.sockets trials)
    (hp : s.producer = some p) : net.source? t.source s.number = some p.source ∧
      (Plan.ofTrials output trials).node? p.source = some (p.planNode (placement trials)) ∧
      p.fault = none := by
  obtain ⟨source, mem⟩ := h.producer_eq ht hs
  rw [hp, Option.map_some] at source
  exact ⟨source.symm, h.node?_plan (mem p hp), h.fault_of_producer ht hl hs hp⟩

theorem supplied (ht : t ∈ trials) (hl : t.live = true) (hi : t.isInput = false)
    (hs : s ∈ t.sockets trials) : (Plan.ofTrials output trials).Supplied net t.source s.number
      (t.legRegion (placement trials) s) := by
  rcases t.socket_cases s with hc | hc | ⟨hk, hc, p, hp, -⟩
  · obtain ⟨-, -, laid⟩ := h.legRegion_constant ht hl hi hs hc
    cases hp : s.producer with
    | none =>
      have source := h.map_source_producer ht hs
      rw [hp] at source
      rw [Trial.vector, hp] at laid
      refine .default ?_ source.symm laid
      rw [inlet?, (h.entry_of_mem ht).1]
      exact (Trial.getElem?_sockets.1 (Trial.mem_sockets hs)).2.1
    | some p =>
      obtain ⟨fed, found, sound⟩ := h.producer_plan ht hl hs hp
      rw [Trial.holdsConstant, hp, Option.all_some, Bool.and_eq_true] at hc
      have read : (regionOf (placement trials) (.output p.source)).read
          ((allotments trials).flatMap (·.cells)) = p.cells :=
        (regionOf_allotment h.nodup (mem_allotments_folded ((h.producer_eq ht hs).2 p hp)
          (Trial.place_folded hc.1))).2.2.2
      rw [Trial.vector, hp] at laid
      dsimp only at laid
      rw [← read] at laid
      exact .constant fed found sound hc.1 laid
  · obtain ⟨p, hp, -⟩ := Trial.producer_of_convertsLive hc
    obtain ⟨fed, found, sound⟩ := h.producer_plan ht hl hs hp
    have step : .convert (regionOf (placement trials) (.output p.source))
        (t.legRegion (placement trials) s) p.kind (t.reads s.slot) ∈
          t.steps (placement trials) trials := by
      rw [(h.legRegion_converted ht hl hi hs hp hc).1]
      exact Plan.mem_steps.2 ⟨hl, .inr ⟨hi, .inl ⟨s, p,
        Plan.mem_convertedSockets.2 ⟨hs, hp, hc⟩, rfl⟩⟩⟩
    exact .converted fed found sound (Plan.mem_steps_ofTrials.2 ⟨t, ht, step⟩)
  · obtain ⟨fed, found, sound⟩ := h.producer_plan ht hl hs hp
    exact .direct fed found sound (h.legRegion_direct ht hs hp hk hc)

/-- The faults of a compile are confined. -/
theorem confined : (Plan.ofTrials output trials).Confined net where
  idle p hp hf := by
    obtain ⟨t, ht, rfl⟩ := List.mem_map.1 hp
    have unfolded : t.folded = false :=
      Bool.eq_false_iff.2 fun hd => hf (Trial.fault_of_folded hd).1
    exact ⟨h.regionOf_fault ht hf, unfolded, fun step hs hn => hf (h.fault_of_step ht hs hn)⟩
  external n index fallback dest hs := by
    obtain ⟨t, ht, hs⟩ := Plan.mem_steps_ofTrials.1 hs
    obtain ⟨hl, ⟨-, he⟩ | ⟨-, ⟨s, p, -, he⟩ | he⟩⟩ := Plan.mem_steps.1 hs <;> cases he
    exact ⟨_, h.node?_plan ht, (Trial.fault_of_live hl).1, Trial.not_folded_of_live hl, rfl⟩
  converted source dest written reader hs := by
    obtain ⟨t, ht, hs⟩ := Plan.mem_steps_ofTrials.1 hs
    obtain ⟨hl, ⟨-, he⟩ | ⟨hi, ⟨s, p, hsp, he⟩ | he⟩⟩ := Plan.mem_steps.1 hs <;> cases he
    obtain ⟨hs, hp, hc⟩ := Plan.mem_convertedSockets.1 hsp
    obtain ⟨fed, found, sound⟩ := h.producer_plan ht hl hs hp
    refine ⟨t.source, _, _, s.number, p.source, _,
      Plan.mem_evaluate.2 ⟨t, ht, hl, hi, rfl, rfl, rfl⟩, ?_, fed, found, sound, rfl⟩
    rw [List.getElem?_map, Trial.mem_sockets hs, Option.map_some,
      (h.legRegion_converted ht hl hi hs hp hc).1]
  evaluated n legs dest hs := by
    obtain ⟨t, ht, hl, hi, rfl, rfl, rfl⟩ := Plan.mem_evaluate.1 hs
    refine ⟨_, h.node?_plan ht, (Trial.fault_of_live hl).1, Trial.not_folded_of_live hl, rfl,
      fun slot region hr => ?_⟩
    rw [List.getElem?_map] at hr
    obtain ⟨s, hs, rfl⟩ := Option.map_eq_some_iff.1 hr
    have number := (Trial.getElem?_sockets.1 hs).2.2.1
    rw [← number]
    exact h.supplied ht hl hi (List.mem_of_getElem? hs)

end Net.Trials
end Patchbay
