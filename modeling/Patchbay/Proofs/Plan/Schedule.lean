import Patchbay.Proofs.Plan.Layout

/-! # The schedule of a plan

The steps of a plan are those of its live nodes, one group behind the other in the order of the
nodes. A group ends with the one step that fills the output of its node, and the conversions of the
legs stand in front of it. Since producers come first, whatever a step reads was filled before.
-/

namespace Patchbay
open Relation

/-- A cut in a list that was built group by group lies in one of the groups. -/
theorem flatMap_eq_append_cons {α β : Type*} {g : α → List β} {l : List α} {done rest : List β}
    {b : β} (h : l.flatMap g = done ++ b :: rest) :
    ∃ before a after front back, l = before ++ a :: after ∧ g a = front ++ b :: back ∧
      done = before.flatMap g ++ front ∧ rest = back ++ after.flatMap g := by
  induction l generalizing done with
  | nil => simp at h
  | cons a l ih =>
    rw [List.flatMap_cons, List.append_eq_append_iff] at h
    rcases h with ⟨later, rfl, hl⟩ | ⟨back, ha, hl⟩
    · obtain ⟨before, c, after, front, back, rfl, hc, rfl, rfl⟩ := ih hl
      exact ⟨a :: before, c, after, front, back, rfl, hc, by simp, rfl⟩
    · cases back with
      | nil =>
        have cut : l.flatMap g = [] ++ b :: rest := hl.symm
        obtain ⟨before, c, after, front, back, rfl, hc, hd, rfl⟩ := ih cut
        refine ⟨a :: before, c, after, front, back, rfl, hc, ?_, rfl⟩
        rw [List.flatMap_cons, List.append_assoc, ← hd, ha, List.append_nil, List.append_nil]
      | cons c back =>
        obtain ⟨rfl, rfl⟩ := List.cons.inj hl
        exact ⟨[], a, l, done, back, rfl, ha, rfl, rfl⟩

variable [Platform]

/-- The node runs in every block: its cells are not computed ahead, and it has no fault. -/
def PlanNode.Runs (p : PlanNode) : Prop := p.folded = false ∧ p.fault = none

/-- The step fills the output of the node: an input is read from outside, and the body of any other
node is evaluated. -/
def Step.Fills (step : Step) (p : PlanNode) : Prop :=
  if p.operator.isInput then ∃ index fallback, step = .read p.source index fallback p.region
  else ∃ legs, step = .evaluate p.source legs p.region

/-- What the order of the steps promises. -/
structure Plan.Scheduled (plan : Plan) (net : Net) : Prop where
  /-- The nodes are the output and all that it depends on. -/
  complete : ∀ n, n ∈ plan.nodes.map (·.source) ↔ ReflTransGen net.Feeds n plan.output
  nodup : (plan.nodes.map (·.source)).Nodup
  once : ∀ p ∈ plan.nodes, p.Runs →
    ∃ step, plan.steps.filter (·.node? == some p.source) = [step] ∧ step.Fills p
  idle : ∀ step ∈ plan.steps, ∀ n, step.node? = some n → ∃ p ∈ plan.nodes, p.source = n ∧ p.Runs
  /-- The producers of a node run before it. -/
  ordered : ∀ done step rest, plan.steps = done ++ step :: rest →
    ∀ n, step.node? = some n → ∀ p ∈ plan.nodes, net.Feeds p.source n → p.Runs →
      ∃ earlier ∈ done, earlier.node? = some p.source
  /-- A conversion reads the cells of a node that ran before, and no step but the evaluation of a
  later node reads the cells that it writes. Regions without cells are told apart by their slots. -/
  converted : ∀ done source dest written reader rest,
    plan.steps = done ++ .convert source dest written reader :: rest →
      ∃ p c slot legs out, net.source? c slot = some p ∧
        (plan.region? p = some source ∧
          (∃ earlier ∈ done, earlier.node? = some p) ∧
          ∀ q r, plan.region? q = some r → r.overlaps source = true → q = p) ∧
        .evaluate c legs out ∈ rest ∧ legs[slot]? = some dest ∧
          ∀ other ∈ plan.steps, ∀ r ∈ other.reads, r.overlaps dest = true →
            other = .evaluate c legs out

namespace Trial
variable {places : List (Place × Region)} {trials : List Trial} {t : Trial} {step : Step}

def conversions (places : List (Place × Region)) (done : List Trial) (t : Trial) : List Step :=
  if t.isInput then []
  else (t.convertedSockets done).map fun (s, p) =>
    .convert (regionOf places (.output p.source)) (regionOf places (.leg t.source s.number))
      p.kind (t.reads s.slot)

def filling (places : List (Place × Region)) (done : List Trial) (t : Trial) : Step :=
  let dest := regionOf places (.output t.source)
  if t.isInput then .read t.source t.index t.fallback dest
  else .evaluate t.source ((t.sockets done).map (t.legRegion places)) dest

theorem steps_eq (places : List (Place × Region)) (trials : List Trial) (t : Trial) :
    t.steps places trials =
      if t.live then t.conversions places trials ++ [t.filling places trials] else [] := by
  rw [steps, conversions, filling]
  by_cases hl : t.live = true
  · by_cases hi : t.isInput = true <;> simp [hl, hi]
  · simp [hl]

@[simp] theorem node?_filling : (t.filling places trials).node? = some t.source := by
  rw [filling]
  split <;> rfl

theorem fills_filling (places : List (Place × Region)) (trials : List Trial) (t : Trial) :
    (t.filling places trials).Fills (t.planNode places) := by
  unfold Step.Fills filling
  by_cases hi : t.isInput = true
  · have input : (t.planNode places).operator.isInput = true := hi
    rw [if_pos input, if_pos hi]
    exact ⟨_, _, rfl⟩
  · have body : ¬(t.planNode places).operator.isInput = true := hi
    rw [if_neg body, if_neg hi]
    exact ⟨_, rfl⟩

theorem node?_of_mem_conversions (h : step ∈ t.conversions places trials) : step.node? = none := by
  rw [conversions] at h
  split at h
  · cases h
  · obtain ⟨x, -, rfl⟩ := List.mem_map.1 h
    rfl

/-- The only step that runs a node is the one that fills its output. -/
theorem filling_of_node? {n : NodeId} (h : step ∈ t.steps places trials)
    (hn : step.node? = some n) :
    t.live = true ∧ n = t.source ∧ step = t.filling places trials := by
  rw [steps_eq] at h
  split at h
  · rename_i hl
    rcases List.mem_append.1 h with h | h
    · rw [node?_of_mem_conversions h] at hn
      cases hn
    · obtain rfl := List.mem_singleton.1 h
      rw [node?_filling] at hn
      exact ⟨hl, (Option.some.inj hn).symm, rfl⟩
  · cases h

theorem filter_steps (places : List (Place × Region)) (trials : List Trial) (t : Trial)
    (n : NodeId) : (t.steps places trials).filter (·.node? == some n) =
      if t.live && t.source == n then [t.filling places trials] else [] := by
  have silent : (t.conversions places trials).filter (·.node? == some n) = [] := by
    rw [List.filter_eq_nil_iff]
    intro step hs
    simp [node?_of_mem_conversions hs]
  rw [steps_eq]
  by_cases hl : t.live = true
  · by_cases hn : t.source = n <;> simp [hl, hn, silent]
  · simp [hl]

theorem filterMap_steps (places : List (Place × Region)) (trials : List Trial) (t : Trial) :
    (t.steps places trials).filterMap Step.node? = if t.live then [t.source] else [] := by
  have silent : (t.conversions places trials).filterMap Step.node? = [] := by
    rw [List.filterMap_eq_nil_iff]
    exact fun step hs => node?_of_mem_conversions hs
  rw [steps_eq]
  by_cases hl : t.live = true <;> simp [hl, silent]

theorem runs_planNode : (t.planNode places).Runs ↔ t.live = true := live_iff.symm

end Trial

/-- The live nodes in the order in which they were tried are those that run, in their order. -/
theorem Plan.executionOrder_ofTrials (output : NodeId) (trials : List Trial) :
    (ofTrials output trials).executionOrder = (trials.filter (·.live)).map (·.source) := by
  rw [executionOrder, ofTrials, List.filterMap_flatMap, map_filter_eq_flatMap]
  exact List.flatMap_congr fun t _ => Trial.filterMap_steps _ _ t

/-! ### Cells that two regions share -/

omit [Platform] in
theorem Region.overlaps_comm (r s : Region) : r.overlaps s = s.overlaps r := by
  rw [overlaps, overlaps, Bool.and_assoc, Bool.and_assoc, Bool.and_assoc, Bool.and_assoc,
    Bool.and_left_comm]
  congr 2
  exact Bool.and_comm _ _

omit [Platform] in
theorem Region.not_overlaps_of_le {r s : Region} (h : r.stop ≤ s.offset) :
    r.overlaps s = false := by
  simp only [overlaps, Bool.and_eq_false_iff, decide_eq_false_iff_not]
  omega

theorem place_of_overlaps {trials : List Trial} (hn : (trials.map (·.source)).Nodup) {k k' : Place}
    (hk : k ∈ (allotments trials).map (·.place)) (hk' : k' ∈ (allotments trials).map (·.place))
    (h : (regionOf (placement trials) k).overlaps (regionOf (placement trials) k') = true) :
    k = k' := by
  have apart : ((allotments trials).map (·.place)).Pairwise fun k k' =>
      (regionOf (placement trials) k).overlaps (regionOf (placement trials) k') = false :=
    List.pairwise_iff_forall_sublist.2 fun hs =>
      Region.not_overlaps_of_le (regionOf_before hn hs)
  have symm : Std.Symm fun k k' : Place =>
      (regionOf (placement trials) k).overlaps (regionOf (placement trials) k') = false :=
    ⟨fun k k' hd => by rw [Region.overlaps_comm, hd]⟩
  by_contra hne
  have distinct := apart.forall hk hk' hne
  rw [h] at distinct
  cases distinct

section Places
variable {trials : List Trial} {t : Trial} {s : Trial.Socket}

theorem mem_places_output (ht : t ∈ trials) (hf : t.fault = none) :
    .output t.source ∈ (allotments trials).map (·.place) := by
  rcases Trial.folded_or_live hf with hd | hl
  · exact List.mem_map_of_mem (f := Allotment.place)
      (mem_allotments_folded ht (Trial.place_folded hd))
  · obtain ⟨_, _, mem, _⟩ := Trial.place_live hl
    exact List.mem_map_of_mem (f := Allotment.place) (mem_allotments_live ht mem)

theorem mem_places_converted (ht : t ∈ trials) (hl : t.live = true) (hi : t.isInput = false)
    (hs : s ∈ t.sockets trials) (hc : t.convertsLive s = true) :
    .leg t.source s.number ∈ (allotments trials).map (·.place) := by
  obtain ⟨p, hp, -⟩ := Trial.producer_of_convertsLive hc
  exact List.mem_map_of_mem (f := Allotment.place)
    (mem_allotments_live ht (Trial.place_converted hl hi hs hp hc))

end Places

namespace Net.Trials
variable {net : Net} {output : NodeId} {externals : Legs} {trials : List Trial}
  (h : net.Trials output externals trials) {t p : Trial} {s : Trial.Socket}
include h

theorem place_legRegion (ht : t ∈ trials) (hl : t.live = true) (hi : t.isInput = false)
    (hs : s ∈ t.sockets trials) :
    ∃ k ∈ (allotments trials).map (·.place),
      t.legRegion (placement trials) s = regionOf (placement trials) k ∧
        (k = .leg t.source s.number ∨ ∃ n, k = .output n) := by
  rcases t.socket_cases s with hc | hc | ⟨hk, hc, p, hp, -⟩
  · exact ⟨_, List.mem_map_of_mem (f := Allotment.place)
      (mem_allotments_constant ht (Trial.place_constant hl hi hs hc)),
      (h.legRegion_constant ht hl hi hs hc).1, .inl rfl⟩
  · obtain ⟨p, hp, -⟩ := Trial.producer_of_convertsLive hc
    exact ⟨_, mem_places_converted ht hl hi hs hc, (h.legRegion_converted ht hl hi hs hp hc).1,
      .inl rfl⟩
  · have sound := h.fault_of_producer ht hl hs hp
    exact ⟨_, mem_places_output ((h.producer_eq ht hs).2 p hp) sound,
      h.legRegion_direct ht hs hp hk hc, .inr ⟨_, rfl⟩⟩

/-- Only the evaluation of a node reads the cells of a place that one of its slots has for itself.
-/
theorem step_of_overlaps {step : Step} (ht : t ∈ trials) {slot : Nat}
    (hk : .leg t.source slot ∈ (allotments trials).map (·.place))
    (hstep : step ∈ (Plan.ofTrials output trials).steps) {r : Region} (hr : r ∈ step.reads)
    (shared : r.overlaps (regionOf (placement trials) (.leg t.source slot)) = true) :
    step = t.filling (placement trials) trials := by
  obtain ⟨u, hu, hstep⟩ := Plan.mem_steps_ofTrials.1 hstep
  obtain ⟨hl, ⟨hi, rfl⟩ | ⟨hi, ⟨s, p, hsp, rfl⟩ | rfl⟩⟩ := Plan.mem_steps.1 hstep
  · cases hr
  · obtain ⟨hs, hp, -⟩ := Plan.mem_convertedSockets.1 hsp
    obtain rfl := List.mem_singleton.1 hr
    have sound := h.fault_of_producer hu hl hs hp
    have place := mem_places_output ((h.producer_eq hu hs).2 p hp) sound
    cases place_of_overlaps h.nodup place hk shared
  · obtain ⟨s, hs, rfl⟩ := List.mem_map.1 hr
    obtain ⟨k, mem, region, own⟩ := h.place_legRegion hu hl hi hs
    rw [region] at shared
    obtain rfl := place_of_overlaps h.nodup mem hk shared
    rcases own with own | ⟨n, own⟩
    · obtain rfl := h.eq_of_source ht hu (Place.leg.inj own).1
      rw [Trial.filling, if_neg (by simp [hi])]
    · cases own

theorem source_of_overlaps {n : NodeId} {r : Region} (hp : p ∈ trials) (hf : p.fault = none)
    (hr : (Plan.ofTrials output trials).region? n = some r)
    (shared : r.overlaps (regionOf (placement trials) (.output p.source)) = true) :
    n = p.source := by
  obtain ⟨_, found, rfl⟩ := Option.map_eq_some_iff.1 hr
  rw [Plan.node?_ofTrials] at found
  obtain ⟨q, hq, rfl⟩ := Option.map_eq_some_iff.1 found
  obtain ⟨mem, rfl⟩ := mem_of_trial? hq
  change (regionOf (placement trials) (.output q.source)).overlaps _ = true at shared
  by_cases sound : q.fault = none
  · have same := place_of_overlaps h.nodup (mem_places_output mem sound)
      (mem_places_output hp hf) shared
    exact Place.output.inj same
  · rw [h.regionOf_fault mem sound] at shared
    cases shared

theorem filter_steps_plan (ht : t ∈ trials) (hl : t.live = true) :
    (Plan.ofTrials output trials).steps.filter (·.node? == some t.source) =
      [t.filling (placement trials) trials] := by
  have others {l : List Trial} (hne : ∀ u ∈ l, u.source ≠ t.source) :
      l.flatMap (fun u => (u.steps (placement trials) trials).filter
        (·.node? == some t.source)) = [] := by
    rw [List.flatMap_eq_nil_iff]
    intro u hu
    simp [Trial.filter_steps, hne u hu]
  obtain ⟨before, after, hs⟩ := List.append_of_mem ht
  have nodup := h.nodup
  rw [hs, List.map_append, List.map_cons, List.nodup_middle, List.nodup_cons, List.mem_append,
    List.mem_map, List.mem_map] at nodup
  have front := others (l := before) fun u hu he => nodup.1 (.inl ⟨u, hu, he⟩)
  have back := others (l := after) fun u hu he => nodup.1 (.inr ⟨u, hu, he⟩)
  have steps : (Plan.ofTrials output trials).steps =
      (before ++ t :: after).flatMap (Trial.steps (placement trials) trials) := by
    rw [← hs]
    rfl
  rw [steps, List.filter_flatMap, List.flatMap_append, List.flatMap_cons, front, back,
    Trial.filter_steps]
  simp [hl]

theorem filling_before {before after : List Trial} (hs : trials = before ++ t :: after)
    (hp : p ∈ trials) (hl : p.live = true) (hf : net.Feeds p.source t.source) :
    p.filling (placement trials) trials ∈
      before.flatMap (Trial.steps (placement trials) trials) := by
  have ht : t ∈ trials := hs ▸ List.mem_append_right _ List.mem_cons_self
  obtain ⟨q, hq, he⟩ := (h.trial?_before hs _ ((h.mem_sources ht).2 hf)).2
  have mem : q ∈ trials := hs ▸ List.mem_append_left _ hq
  obtain rfl := h.eq_of_source mem hp he
  refine List.mem_flatMap.2 ⟨q, hq, ?_⟩
  rw [Trial.steps_eq, if_pos hl]
  exact List.mem_append_right _ (List.mem_singleton_self _)

theorem ordered_plan {done rest : List Step} {step : Step} {n : NodeId}
    (hsteps : (Plan.ofTrials output trials).steps = done ++ step :: rest)
    (hn : step.node? = some n) (hp : p ∈ trials) (hl : p.live = true)
    (hf : net.Feeds p.source n) : p.filling (placement trials) trials ∈ done := by
  obtain ⟨before, t, after, front, back, hs, hsplit, rfl, rfl⟩ := flatMap_eq_append_cons hsteps
  have mem : step ∈ t.steps (placement trials) trials :=
    hsplit ▸ List.mem_append_right _ List.mem_cons_self
  obtain ⟨-, rfl, -⟩ := Trial.filling_of_node? mem hn
  exact List.mem_append_left _ (h.filling_before hs hp hl hf)

/-- A conversion stands between the step that fills what it reads and the evaluation that reads what
it writes. -/
theorem converted_plan {done rest : List Step} {source dest : Region} {written reader : Kind}
    (hsteps : (Plan.ofTrials output trials).steps =
      done ++ .convert source dest written reader :: rest) :
    ∃ t ∈ trials, ∃ s p, t.live = true ∧ t.isInput = false ∧ (s, p) ∈ t.convertedSockets trials ∧
      source = regionOf (placement trials) (.output p.source) ∧
      dest = regionOf (placement trials) (.leg t.source s.number) ∧
      p.filling (placement trials) trials ∈ done ∧ t.filling (placement trials) trials ∈ rest := by
  obtain ⟨before, t, after, front, back, hs, hsplit, rfl, rfl⟩ := flatMap_eq_append_cons hsteps
  have ht : t ∈ trials := hs ▸ List.mem_append_right _ List.mem_cons_self
  have mem : .convert source dest written reader ∈ t.steps (placement trials) trials :=
    hsplit ▸ List.mem_append_right _ List.mem_cons_self
  obtain ⟨hl, ⟨-, he⟩ | ⟨hi, ⟨s, p, hsp, he⟩ | he⟩⟩ := Plan.mem_steps.1 mem <;> cases he
  obtain ⟨hsocket, hp, hc⟩ := Plan.mem_convertedSockets.1 hsp
  have tried := (h.producer_eq ht hsocket).2 p hp
  have sound := h.fault_of_producer ht hl hsocket hp
  refine ⟨t, ht, s, p, hl, hi, hsp, rfl, rfl, List.mem_append_left _ ?_, ?_⟩
  · refine h.filling_before hs tried ?_ (h.feeds_of_producer ht hsocket hp)
    rw [Trial.convertsLive, hp, Option.any_some, Bool.and_eq_true, Bool.not_eq_true'] at hc
    exact Trial.live_iff.2 ⟨hc.1, sound⟩
  · rw [Trial.steps_eq, if_pos hl] at hsplit
    rcases List.eq_nil_or_concat back with rfl | ⟨between, last, rfl⟩
    · -- the last step of a group is no conversion
      have same := List.singleton_inj.1 (List.append_inj' hsplit rfl).2
      have silent := congrArg Step.node? same
      rw [Trial.node?_filling] at silent
      cases silent
    · rw [List.concat_eq_append] at hsplit ⊢
      rw [← List.cons_append, ← List.append_assoc] at hsplit
      rw [List.singleton_inj.1 (List.append_inj' hsplit rfl).2]
      simp

/-- The steps of a compile are a schedule of its nodes. -/
theorem scheduled : (Plan.ofTrials output trials).Scheduled net where
  complete n := by
    rw [Plan.map_source_ofTrials, h.map_source]
    exact mem_lineage h.wellFormed.linked h.wellFormed.acyclic h.contains
  nodup := by
    rw [Plan.map_source_ofTrials]
    exact h.nodup
  once p hp runs := by
    obtain ⟨t, ht, rfl⟩ := List.mem_map.1 hp
    exact ⟨_, h.filter_steps_plan ht (Trial.runs_planNode.1 runs), t.fills_filling _ _⟩
  idle step hs n hn := by
    obtain ⟨t, ht, hs⟩ := Plan.mem_steps_ofTrials.1 hs
    obtain ⟨hl, rfl, -⟩ := Trial.filling_of_node? hs hn
    exact ⟨_, List.mem_map_of_mem ht, rfl, Trial.runs_planNode.2 hl⟩
  ordered done step rest hs n hn p hp hf runs := by
    obtain ⟨t, ht, rfl⟩ := List.mem_map.1 hp
    exact ⟨_, h.ordered_plan hs hn ht (Trial.runs_planNode.1 runs) hf, Trial.node?_filling⟩
  converted done source dest written reader rest hs := by
    obtain ⟨t, ht, s, p, hl, hi, hsp, rfl, rfl, earlier, later⟩ := h.converted_plan hs
    obtain ⟨hsocket, hp, hc⟩ := Plan.mem_convertedSockets.1 hsp
    obtain ⟨fed, tried⟩ := h.producer_eq ht hsocket
    rw [hp, Option.map_some] at fed
    have sound := h.fault_of_producer ht hl hsocket hp
    have filling : t.filling (placement trials) trials = .evaluate t.source
        ((t.sockets trials).map (t.legRegion (placement trials)))
        (regionOf (placement trials) (.output t.source)) := if_neg (by simp [hi])
    refine ⟨p.source, t.source, s.number, _, _, fed.symm,
      ⟨?_, ⟨_, earlier, Trial.node?_filling⟩, fun q r hr shared => ?_⟩, filling ▸ later, ?_,
      fun other ho r hr shared => ?_⟩
    · rw [Plan.region?, h.node?_plan (tried p hp)]
      rfl
    · exact h.source_of_overlaps (tried p hp) sound hr shared
    · rw [List.getElem?_map, Trial.mem_sockets hsocket, Option.map_some,
        (h.legRegion_converted ht hl hi hsocket hp hc).1]
    · rw [← filling]
      exact h.step_of_overlaps ht (mem_places_converted ht hl hi hsocket hc) ho hr shared

end Net.Trials
end Patchbay
