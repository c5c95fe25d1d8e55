import Patchbay.Proofs.Plan.Reads

/-! # The layout of a plan

The regions of a plan are those of its folded nodes, the constants that its steps read, and whatever
its steps write. They lie one behind the other in this order, and every step reads only what ends
before the region that it writes starts.
-/

namespace Patchbay

variable [Platform]

def PlanNode.reads (p : PlanNode) (slot : Slot) : Kind :=
  if slot.kind = .any ∧ p.operator.output = .follows then p.kind else slot.kind

namespace Plan

/-- Whether a slot of a node reads cells that were laid down for it alone: its default, or the
converted cells of a folded producer. -/
def isConstant (plan : Plan) (net : Net) (n : NodeId) (slot : Nat) : Bool :=
  (net.source? n slot).all fun p => plan.isFolded p && (plan.node? p).any fun producer =>
    (plan.node? n).any fun node => (node.operator.slots[slot]?).any fun s =>
      producer.kind.converts (node.reads s)

/-- The defaults and the converted constants that the steps of a plan read. -/
def constants (plan : Plan) (net : Net) : List Region :=
  plan.steps.flatMap fun
    | .evaluate n legs _ =>
      (legs.zipIdx.filter fun (_, slot) => plan.isConstant net n slot).map (·.1)
    | _ => []

/-- All regions of a plan: the folded nodes, the constants, and what the steps write. -/
def regions (plan : Plan) (net : Net) : List Region :=
  (plan.nodes.filter (·.folded)).map (·.region) ++ plan.constants net ++ plan.steps.map Step.dest

/-- What the layout of a plan promises to its steps. -/
structure AliasFree (plan : Plan) (net : Net) : Prop where
  /-- The regions lie one behind the other. -/
  apart : (plan.regions net).Pairwise fun r s => r.stop ≤ s.offset
  inside : ∀ r ∈ plan.regions net, r.stop ≤ plan.field.length
  /-- The region of a node that runs in every block is what a step of that node writes. -/
  written : ∀ p ∈ plan.nodes, p.folded = false → p.fault = none →
    ∃ step ∈ plan.steps, step.node? = some p.source ∧ step.dest = p.region
  reads : ∀ step ∈ plan.steps, ∀ r ∈ step.reads, r.stop ≤ step.dest.offset
  /-- A slot that demands a length reads a region of that length. -/
  demanded : ∀ p ∈ plan.nodes, p.fault = none → ∀ slot s q, p.operator.slots[slot]? = some s →
    0 < s.length → net.source? p.source slot = some q →
      (plan.region? q).map (·.length) = some s.length ∧
        ∀ legs dest, .evaluate p.source legs dest ∈ plan.steps →
          (legs[slot]?).map (·.length) = some s.length

section OfTrials
variable {output n : NodeId} {trials : List Trial} {t : Trial}

theorem node?_ofTrials (output : NodeId) (trials : List Trial) (n : NodeId) :
    (ofTrials output trials).node? n =
      (trial? trials n).map (Trial.planNode (placement trials)) := by
  rw [node?, ofTrials, List.find?_map]
  rfl

theorem map_source_ofTrials (output : NodeId) (trials : List Trial) :
    (ofTrials output trials).nodes.map (·.source) = trials.map (·.source) := by
  rw [ofTrials, List.map_map]
  rfl

theorem mem_convertedSockets {s : Trial.Socket} {p : Trial} :
    (s, p) ∈ t.convertedSockets trials ↔
      s ∈ t.sockets trials ∧ s.producer = some p ∧ t.convertsLive s = true := by
  simp only [Trial.convertedSockets, List.mem_filterMap, Option.bind_eq_some_iff,
    Trial.convertsLive]
  constructor
  · rintro ⟨s', hs', p', hp', he⟩
    split at he
    · rename_i hc
      cases he
      exact ⟨hs', hp', by rw [hp', Option.any_some, hc]⟩
    · cases he
  · rintro ⟨hs, hp, hc⟩
    rw [hp, Option.any_some] at hc
    exact ⟨s, hs, p, hp, if_pos hc⟩

/-- The steps of a live node: it reads from outside, or converts some legs and runs its body. -/
theorem mem_steps {places : List (Place × Region)} {step : Step} :
    step ∈ t.steps places trials ↔ t.live = true ∧
      (t.isInput = true ∧
        step = .read t.source t.index t.fallback (regionOf places (.output t.source)) ∨
      t.isInput = false ∧
        ((∃ s p, (s, p) ∈ t.convertedSockets trials ∧
          step = .convert (regionOf places (.output p.source))
            (regionOf places (.leg t.source s.number)) p.kind (t.reads s.slot)) ∨
        step = .evaluate t.source ((t.sockets trials).map (t.legRegion places))
          (regionOf places (.output t.source)))) := by
  rw [Trial.steps]
  by_cases hl : t.live = true
  · by_cases hi : t.isInput = true
    · simp [hl, hi]
    · simp only [hl, hi, Bool.not_true, Bool.false_eq_true, if_false, List.mem_append,
        List.mem_map, List.mem_singleton, true_and, false_and, false_or, Prod.exists,
        eq_comm (a := step)]
  · simp [hl]

theorem mem_steps_ofTrials {step : Step} :
    step ∈ (ofTrials output trials).steps ↔
      ∃ t ∈ trials, step ∈ t.steps (placement trials) trials :=
  List.mem_flatMap

/-- Only the body of a live node is evaluated, on the regions of its slots. -/
theorem mem_evaluate {legs : List Region} {dest : Region} :
    .evaluate n legs dest ∈ (ofTrials output trials).steps ↔
      ∃ t ∈ trials, t.live = true ∧ t.isInput = false ∧ n = t.source ∧
        legs = (t.sockets trials).map (t.legRegion (placement trials)) ∧
        dest = regionOf (placement trials) (.output t.source) := by
  rw [mem_steps_ofTrials]
  refine exists_congr fun t => and_congr_right fun _ => ?_
  rw [mem_steps]
  simp

theorem map_dest (trials : List Trial) (t : Trial) (places : List (Place × Region)) :
    (t.steps places trials).map Step.dest =
      (t.livePlaces trials).map fun a => regionOf places a.place := by
  rw [Trial.steps, Trial.livePlaces]
  split
  · rfl
  split
  · rfl
  · simp only [List.map_append, List.map_map, List.map_cons, List.map_nil]
    rfl

end OfTrials
end Plan

namespace Net.Trials
variable {net : Net} {output : NodeId} {externals : Legs} {trials : List Trial}
  (h : net.Trials output externals trials) {t : Trial}
include h

theorem node?_plan (ht : t ∈ trials) :
    (Plan.ofTrials output trials).node? t.source = some (t.planNode (placement trials)) := by
  rw [Plan.node?_ofTrials, trial?_of_mem h.nodup ht]
  rfl

theorem isConstant_eq (ht : t ∈ trials) {s : Trial.Socket} (hs : s ∈ t.sockets trials) :
    (Plan.ofTrials output trials).isConstant net t.source s.number = t.holdsConstant s := by
  obtain ⟨source, mem⟩ := h.producer_eq ht hs
  have slot := (Trial.getElem?_sockets.1 (Trial.mem_sockets hs)).1
  rw [Plan.isConstant, ← source, Trial.holdsConstant]
  cases hp : s.producer with
  | none => rfl
  | some p =>
    have there : (t.planNode (placement trials)).operator.slots[s.number]? = some s.slot := slot
    rw [Option.map_some, Option.all_some, Option.all_some, Plan.isFolded, h.node?_plan (mem p hp),
      h.node?_plan ht, Option.any_some, Option.any_some, Option.any_some, there, Option.any_some]
    rfl

theorem constants_eq : (Plan.ofTrials output trials).constants net =
    (trials.flatMap (Trial.constantPlaces trials)).map
      fun a => regionOf (placement trials) a.place := by
  rw [Plan.constants, Plan.ofTrials, List.flatMap_assoc, List.map_flatMap]
  apply List.flatMap_congr
  intro t ht
  rw [Trial.steps, Trial.constantPlaces_eq]
  by_cases hl : t.live = true
  · by_cases hi : t.isInput = true
    · simp [hl, hi]
    · have hi : t.isInput = false := by simpa using hi
      have numbered : (t.sockets trials).zipIdx =
          (t.sockets trials).map fun s => (s, s.number) := by
        apply List.ext_getElem?
        intro i
        rw [List.getElem?_zipIdx, List.getElem?_map, Nat.zero_add]
        cases hs : (t.sockets trials)[i]? with
        | none => rfl
        | some s => rw [Option.map_some, Option.map_some, (Trial.getElem?_sockets.1 hs).2.2.1]
      have constant : (t.sockets trials).filter (fun s =>
          (Plan.ofTrials output trials).isConstant net t.source s.number) =
            (t.sockets trials).filter t.holdsConstant :=
        List.filter_congr fun s hs => h.isConstant_eq ht hs
      simp only [hl, hi, Bool.not_true, Bool.not_false, Bool.and_self, Bool.false_eq_true,
        if_false, if_true, List.flatMap_append, List.flatMap_cons, List.flatMap_nil,
        List.append_nil, List.flatMap_map, List.zipIdx_map, numbered, List.map_map,
        List.filter_map]
      have none : (t.convertedSockets trials).flatMap (fun _ => ([] : List Region)) = [] :=
        List.flatMap_eq_nil_iff.2 fun _ _ => rfl
      rw [none, List.nil_append]
      refine Eq.trans (congrArg (List.map _) constant) (List.map_congr_left fun s hs => ?_)
      obtain ⟨hs, hc⟩ := List.mem_filter.1 hs
      exact (h.legRegion_constant ht hl hi hs hc).1
  · simp [hl]

theorem regions_eq : (Plan.ofTrials output trials).regions net = (placement trials).map (·.2) := by
  have folded : ((Plan.ofTrials output trials).nodes.filter (·.folded)).map (·.region) =
      (trials.flatMap Trial.foldedPlace).map fun a => regionOf (placement trials) a.place := by
    rw [Plan.ofTrials, List.filter_map, List.map_map, List.map_flatMap, map_filter_eq_flatMap]
    apply List.flatMap_congr
    intro t _
    rw [Trial.foldedPlace, apply_ite (List.map _)]
    rfl
  have written : (Plan.ofTrials output trials).steps.map Step.dest =
      (trials.flatMap (Trial.livePlaces trials)).map
        fun a => regionOf (placement trials) a.place := by
    rw [Plan.ofTrials, List.map_flatMap, List.map_flatMap]
    exact List.flatMap_congr fun t _ => Plan.map_dest trials t _
  rw [Plan.regions, folded, h.constants_eq, written, ← List.map_append, ← List.map_append,
    ← map_regionOf h.nodup]
  rfl

/-- The layout of a compile is free of aliases. -/
theorem aliasFree : (Plan.ofTrials output trials).AliasFree net where
  apart := by
    rw [h.regions_eq]
    exact List.pairwise_map.2 (Allotment.pairwise_place? 0 _)
  inside r hr := by
    rw [h.regions_eq] at hr
    obtain ⟨x, hx, rfl⟩ := List.mem_map.1 hr
    exact (Allotment.read_of_mem_place? [] hx).1
  written p hp hd hf := by
    obtain ⟨t, ht, rfl⟩ := List.mem_map.1 hp
    have hl : t.live = true := Trial.live_iff.2 ⟨hd, hf⟩
    cases hi : t.isInput with
    | true =>
      exact ⟨_, Plan.mem_steps_ofTrials.2 ⟨t, ht, Plan.mem_steps.2 ⟨hl, .inl ⟨hi, rfl⟩⟩⟩, rfl, rfl⟩
    | false =>
      exact ⟨_, Plan.mem_evaluate.2 ⟨t, ht, hl, hi, rfl, rfl, rfl⟩, rfl, rfl⟩
  reads step hstep r hr := by
    obtain ⟨t, ht, hstep⟩ := Plan.mem_steps_ofTrials.1 hstep
    obtain ⟨hl, ⟨_, rfl⟩ | ⟨hi, ⟨s, p, hsp, rfl⟩ | rfl⟩⟩ := Plan.mem_steps.1 hstep
    · cases hr
    · obtain ⟨hs, hp, hc⟩ := Plan.mem_convertedSockets.1 hsp
      cases List.mem_singleton.1 hr
      exact h.output_before ht hl hs hp
        (List.mem_map_of_mem (f := Allotment.place) (Trial.place_converted hl hi hs hp hc))
    · obtain ⟨s, hs, rfl⟩ := List.mem_map.1 hr
      exact h.legRegion_before ht hl hi hs
  demanded p hp hf slot spec q hslot hlen hq := by
    obtain ⟨t, ht, rfl⟩ := List.mem_map.1 hp
    obtain ⟨inlet, hinlet⟩ : ∃ inlet, t.node.inlets[slot]? = some inlet := by
      obtain ⟨node, inlet, hnode, hinlet, _⟩ := exists_inlet_of_source? hq
      cases hnode.symm.trans (h.entry_of_mem ht).1
      exact ⟨inlet, hinlet⟩
    have hs : (t.sockets trials)[slot]? =
        some ⟨spec, inlet, slot, Entry.producer? trials inlet⟩ :=
      Trial.getElem?_sockets.2 ⟨hslot, hinlet, rfl, rfl⟩
    have mem := List.mem_of_getElem? hs
    obtain ⟨source, _⟩ := h.producer_eq ht mem
    obtain ⟨u, hu, rfl⟩ := Option.map_eq_some_iff.1 (source.trans hq)
    have humem := (h.producer_eq ht mem).2 u hu
    have length := (h.sound_of_fault ht hf).2.1 _ mem u hu hlen
    refine ⟨?_, fun legs dest he => ?_⟩
    · rw [Plan.region?, h.node?_plan humem, Option.map_some, Option.map_some]
      exact congrArg some ((h.regionOf_output humem).1.trans length)
    · obtain ⟨v, hv, hl, hi, hsv, rfl, _⟩ := Plan.mem_evaluate.1 he
      cases h.eq_of_source ht hv hsv
      rw [List.getElem?_map, hs, Option.map_some, Option.map_some,
        h.length_legRegion ht hl hi mem, Trial.length_vector hu, length]

end Net.Trials
end Patchbay
