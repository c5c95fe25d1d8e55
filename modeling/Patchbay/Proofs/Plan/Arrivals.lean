import Patchbay.Proofs.Plan.Schedule
import Patchbay.Proofs.Plan.Static

/-! # What arrives at a slot

The steps of a block write one region behind the other. So what a step has read or written stays as
it is to the end of the block, and a slot reads just the vector that its producer leaves behind, in
the kind in which the node reads the slot.
-/

namespace Patchbay

variable [Platform]

namespace Plan
variable {plan : Plan} {net : Net} {inner : NodeId → State → Host → Legs → Option Block}
  {externals : Legs} {x : State × Host} {done steps rest : List Step} {step : Step} {r : Region}

theorem read_foldl (inside : ∀ step ∈ steps, step.dest.stop ≤ x.1.field.length)
    (apart : ∀ step ∈ steps, r.Apart step.dest) :
    r.read (steps.foldl (plan.stepWith inner externals) x).1.field = r.read x.1.field := by
  induction steps generalizing x with
  | nil => rfl
  | cons step steps ih =>
    rw [List.forall_mem_cons] at inside apart
    rw [List.foldl_cons]
    rcases field_stepWith inner externals inside.1 with he | ⟨cells, hc, he⟩
    · rw [ih (by rw [he]; exact inside.2) apart.2, he]
    · have length : (plan.stepWith inner externals x step).1.field.length = x.1.field.length := by
        rw [he, Region.length_write hc inside.1]
      rw [ih (by rw [length]; exact inside.2) apart.2, he,
        Region.read_write_of_apart apart.1 hc inside.1]

namespace AliasFree
variable (h : plan.AliasFree net)
include h

theorem dest_before (hs : plan.steps = done ++ step :: rest) :
    ∀ later ∈ rest, step.dest.stop ≤ later.dest.offset := by
  have order := (List.pairwise_append.1 h.apart).2.1
  rw [hs, List.map_append, List.map_cons, List.pairwise_append, List.pairwise_cons] at order
  exact fun later hl => order.2.1.1 _ (List.mem_map_of_mem hl)

/-- What ends before the region of a step is left alone by the step and by all later ones. -/
theorem read_rest (hs : plan.steps = done ++ step :: (steps ++ rest))
    (hx : x.1.field.length = plan.field.length) (hr : r.stop ≤ step.dest.offset) :
    r.read ((step :: steps).foldl (plan.stepWith inner externals) x).1.field =
      r.read x.1.field := by
  have mem : ∀ later ∈ step :: steps, later ∈ plan.steps := by
    rw [hs]
    intro later hl
    rcases List.mem_cons.1 hl with rfl | hl
    · exact List.mem_append_right _ List.mem_cons_self
    · exact List.mem_append_right _ (List.mem_cons_of_mem _ (List.mem_append_left _ hl))
  refine read_foldl (fun later hl => ?_) fun later hl => .inl ?_
  · rw [hx]
    exact h.inside_steps later (mem later hl)
  · rcases List.mem_cons.1 hl with rfl | hl
    · exact hr
    · have behind := h.dest_before hs later (List.mem_append_left _ hl)
      exact hr.trans ((Nat.le_add_right _ _).trans behind)

/-- A conversion leaves in its region the converted cells of its source, and later steps keep it
that way. -/
theorem read_converted {source dest : Region} {written reader : Kind}
    (hs : plan.steps = done ++ .convert source dest written reader :: (steps ++ rest))
    (hx : x.1.field.length = plan.field.length) (hl : source.length = dest.length) :
    dest.read ((.convert source dest written reader :: steps).foldl
        (plan.stepWith inner externals) x).1.field =
      (source.read ((.convert source dest written reader :: steps).foldl
        (plan.stepWith inner externals) x).1.field).map fun c => c.convert written reader := by
  have mem : .convert source dest written reader ∈ plan.steps :=
    hs ▸ List.mem_append_right _ List.mem_cons_self
  have before : source.stop ≤ dest.offset := h.reads _ mem source (List.mem_singleton_self _)
  have inside : dest.stop ≤ x.1.field.length := hx ▸ h.inside_steps _ mem
  have sourceInside : source.stop ≤ x.1.field.length :=
    before.trans ((Nat.le_add_right _ _).trans inside)
  have poured : (pour ((source.read x.1.field).map fun c => c.convert written reader)
      (dest.read x.1.field)).length = dest.length :=
    (length_pour _ _).trans (Region.length_read inside)
  rw [h.read_rest hs hx before, List.foldl_cons, read_foldl (fun later hm => ?_) fun later hm => ?_]
  · refine (Region.read_write_same poured inside).trans (pour_of_length_eq ?_)
    rw [List.length_map, Region.length_read inside, Region.length_read sourceInside, hl]
  · refine (h.inside_steps later ?_).trans_eq ?_
    · rw [hs]
      exact List.mem_append_right _ (List.mem_cons_of_mem _ (List.mem_append_left _ hm))
    · exact hx.symm.trans (Region.length_write poured inside).symm
  · exact .inl (h.dest_before hs later (List.mem_append_left _ hm))

/-- What ends before the region of a step is at the end of a block as the step finds it. -/
theorem read_run {s : State} (hs : plan.steps = done ++ step :: rest) (hh : plan.Holds s.field)
    (host : Host) (externals : Legs) (hr : r.stop ≤ step.dest.offset) :
    r.read (plan.run s host externals).state.field =
      r.read (done.foldl (plan.stepWith plan.runInner externals) (s, host)).1.field := by
  have ran : ∀ earlier ∈ done, earlier ∈ plan.steps :=
    fun earlier he => hs ▸ List.mem_append_left _ he
  have length := (hh.foldl plan.runInner externals (x := (s, host)) h.inside_steps ran).length
  have all : plan.steps = done ++ step :: (rest ++ []) := by rw [List.append_nil, hs]
  have taken : plan.steps.foldl (plan.stepWith plan.runInner externals) (s, host) =
      (step :: rest).foldl (plan.stepWith plan.runInner externals)
        (done.foldl (plan.stepWith plan.runInner externals) (s, host)) := by
    rw [← List.foldl_append, ← hs]
  rw [run_eq, runWith]
  dsimp only
  rw [taken]
  exact h.read_rest all length hr

end AliasFree
end Plan

namespace Net.Trials
variable {net : Net} {output : NodeId} {externals : Legs} {trials : List Trial}
  (h : net.Trials output externals trials) {t p : Trial} {s : Trial.Socket}
include h

theorem nodup_executionOrder : (Plan.ofTrials output trials).executionOrder.Nodup := by
  rw [Plan.executionOrder_ofTrials]
  exact h.nodup.sublist (List.filter_sublist.map _)

theorem converted_before (ht : t ∈ trials) (hl : t.live = true) (hi : t.isInput = false)
    {done rest : List Step} {regions : List Region} {dest : Region}
    (hsteps : (Plan.ofTrials output trials).steps =
      done ++ .evaluate t.source regions dest :: rest)
    (hsp : (s, p) ∈ t.convertedSockets trials) :
    .convert (regionOf (placement trials) (.output p.source))
      (regionOf (placement trials) (.leg t.source s.number)) p.kind (t.reads s.slot) ∈ done := by
  have once := h.nodup_executionOrder
  rw [Plan.executionOrder, hsteps, List.filterMap_append, List.nodup_append] at once
  have mem : .evaluate t.source regions dest ∈ (Plan.ofTrials output trials).steps :=
    hsteps ▸ List.mem_append_right _ List.mem_cons_self
  obtain ⟨u, hu, -, -, he, hregions, hdest⟩ := Plan.mem_evaluate.1 mem
  obtain rfl := h.eq_of_source ht hu he
  subst hregions hdest
  have both : [Step.convert (regionOf (placement trials) (.output p.source))
      (regionOf (placement trials) (.leg t.source s.number)) p.kind (t.reads s.slot),
      .evaluate t.source ((t.sockets trials).map (t.legRegion (placement trials)))
        (regionOf (placement trials) (.output t.source))].Sublist
        (Plan.ofTrials output trials).steps := by
    refine List.Sublist.trans ?_ ((List.singleton_sublist.2 ht).flatMap _)
    rw [List.flatMap_cons, List.flatMap_nil, List.append_nil, Trial.steps, if_neg (by simp [hl]),
      if_neg (by simp [hi])]
    refine (List.singleton_sublist.2 ?_).append (List.Sublist.refl _)
    exact List.mem_map.2 ⟨(s, p), hsp, rfl⟩
  rw [hsteps] at both
  refine mem_of_sublist both fun hrest => ?_
  rw [List.filterMap_cons] at once
  exact (List.nodup_cons.1 once.2.1).1 (List.mem_filterMap.2 ⟨_, hrest, rfl⟩)

/-- The body of a following node reads its wildcard slots in the kind of the node. -/
theorem reads_of_follows (ht : t ∈ trials) (follows : t.node.operator.output = .follows) {k : Kind}
    (hk : net.kind? t.source = some k) {slot : Slot} (any : slot.kind = .any) :
    t.reads slot = k := by
  have written : t.node.kind = some k := by
    rw [kind?, (h.entry_of_mem ht).1] at hk
    exact hk
  rw [Entry.reads, Node.reads, if_pos ⟨any, follows⟩, Node.written, written]
  rfl

/-- A slot reads the vector that its producer leaves behind in the block, in the kind in which the
node reads it. -/
theorem read_producer {before : State} (hb : (Plan.ofTrials output trials).Used before)
    (ht : t ∈ trials) (hs : s ∈ t.sockets trials) (hp : s.producer = some p) {host : Host}
    {later legs : Legs} (hr : (Plan.ofTrials output trials).Reads before host later t.source legs) :
    legs[s.number]? = some (((regionOf (placement trials) (.output p.source)).read
      ((Plan.ofTrials output trials).run before host later).state.field).map fun c =>
        c.convert p.kind (t.reads s.slot)) := by
  have hpm := (h.producer_eq ht hs).2 p hp
  have free := h.aliasFree
  have kept := hb.holds h.inside_plan
  by_cases hf : p.folded = true
  · -- nothing writes the cells of a folded producer
    have place := regionOf_allotment h.nodup (mem_allotments_folded hpm (Trial.place_folded hf))
    rw [h.read_static hb ht hs (fun q hq => (Option.some.inj (hp.symm.trans hq)) ▸ hf) hr,
      Trial.getElem?_legsOf Trial.cells hs, Trial.vector, hp,
      (kept.run h.inside_plan host later).fixed _ fun step hstep =>
        .inl (h.static_before (static_folded hpm hf) hstep)]
    exact congrArg (fun cells => some (List.map _ cells)) place.2.2.2.symm
  obtain ⟨done, regions, dest, rest, hsteps, rfl⟩ := hr
  have mem : .evaluate t.source regions dest ∈ (Plan.ofTrials output trials).steps :=
    hsteps ▸ List.mem_append_right _ List.mem_cons_self
  obtain ⟨u, hu, hl, hi, he, rfl, hdest⟩ := Plan.mem_evaluate.1 mem
  obtain rfl := h.eq_of_source ht hu he
  have ran : ∀ step ∈ done, step ∈ (Plan.ofTrials output trials).steps :=
    fun step hstep => hsteps ▸ List.mem_append_left _ hstep
  have ahead := h.output_before ht hl hs hp (Trial.mem_livePlaces_output trials hl)
  rw [← hdest] at ahead
  rw [free.read_run hsteps kept host later ahead, List.map_map, List.getElem?_map,
    Trial.mem_sockets hs, Option.map_some, Function.comp_apply]
  rcases t.socket_cases s with hc | hc | ⟨hk, hc, q, hq, hn⟩
  · rw [Trial.holdsConstant, hp, Option.all_some, Bool.and_eq_true] at hc
    exact absurd hc.1 hf
  · have hsp := Plan.mem_convertedSockets.2 ⟨hs, hp, hc⟩
    obtain ⟨first, between, rfl⟩ :=
      List.append_of_mem (h.converted_before ht hl hi hsteps hsp)
    have length := (kept.foldl (Plan.ofTrials output trials).runInner later (x := (before, host))
      h.inside_plan fun step hstep => ran step (List.mem_append_left _ hstep)).length
    have regions := h.converted_regions ht hl hi hsp
    have source := (h.regionOf_output hpm).1.trans regions.2.1.symm
    rw [List.append_assoc, List.cons_append] at hsteps
    rw [(h.legRegion_converted ht hl hi hs hp hc).1, List.foldl_append]
    exact congrArg some (free.read_converted hsteps length source)
  · obtain rfl := Option.some.inj (hp.symm.trans hq)
    rw [h.legRegion_direct ht hs hp hk hc]
    refine congrArg some ((List.map_id _).symm.trans (List.map_congr_left fun c _ => ?_))
    exact (Trial.convert_of_not_converts c hn).symm

end Net.Trials
end Patchbay
