import Patchbay.Proofs.Plan.Layout
import Patchbay.Proofs.Plan.Rendering

/-! # Running a block

The steps of one node change only what the node writes. They read the vectors that its producers
gave in this block, so they leave in its region just the vector that it renders. Taken over all
nodes, a block renders what the trials say, and the buffer it leaves fits the plan again.
-/

namespace Patchbay

variable [Platform]

/-- What the steps of a node leave alone: all that is apart from its places, and the states of the
other nodes. -/
structure Frame (trials : List Trial) (t : Trial) (s s' : State) : Prop where
  length : s'.field.length = s.field.length
  read : ∀ r : Region,
    (∀ k ∈ (t.livePlaces trials).map (·.place), r.Apart (regionOf (placement trials) k)) →
      r.read s'.field = r.read s.field
  inner : ∀ n, n ≠ t.source → s'.inner.lookup n = s.inner.lookup n

theorem Frame.refl {trials : List Trial} {t : Trial} {s : State} : Frame trials t s s :=
  ⟨rfl, fun _ _ => rfl, fun _ _ => rfl⟩

theorem Frame.trans {trials : List Trial} {t : Trial} {s s' s'' : State}
    (h : Frame trials t s s') (h' : Frame trials t s' s'') : Frame trials t s s'' where
  length := h'.length.trans h.length
  read r hr := (h'.read r hr).trans (h.read r hr)
  inner n hn := (h'.inner n hn).trans (h.inner n hn)

theorem frame_write {trials : List Trial} {t : Trial} {s : State} {k : Place} {cells : Cells}
    (hk : k ∈ (t.livePlaces trials).map (·.place))
    (hc : cells.length = (regionOf (placement trials) k).length)
    (hr : (regionOf (placement trials) k).stop ≤ s.field.length) :
    Frame trials t s (s.write (regionOf (placement trials) k) cells) where
  length := Region.length_write hc hr
  read _ h := Region.read_write_of_apart (h k hk) hc hr
  inner _ _ := rfl

omit [Platform] in
theorem lookup_replace {β : Type*} (l : List (NodeId × β)) (n m : NodeId) (b : β) :
    (l.map fun c => if c.1 = n then (n, b) else c).lookup m =
      if m = n then (l.lookup n).map fun _ => b else l.lookup m := by
  induction l with
  | nil => simp
  | cons c l ih =>
    obtain ⟨k, old⟩ := c
    by_cases hk : k = n
    · subst hk
      by_cases hm : m = k
      · simp [hm]
      · have head : (m == k) = false := by simpa using hm
        simp only [List.map_cons, if_true, List.lookup_cons, head, ih, hm, if_false]
    · have next : (n == k) = false := by simpa using Ne.symm hk
      simp only [List.map_cons, hk, if_false, List.lookup_cons, next, ih]
      by_cases hm : m = n
      · simp [hm, next]
      · simp [hm]

omit [Platform] in
theorem lookup_setInner (s : State) (n m : NodeId) (child : State) :
    (s.setInner n child).inner.lookup m =
      if m = n then (s.inner.lookup n).map fun _ => child else s.inner.lookup m :=
  lookup_replace s.inner n m child

theorem frame_setInner {trials : List Trial} {t : Trial} (s : State) (child : State) :
    Frame trials t s (s.setInner t.source child) where
  length := rfl
  read _ _ := rfl
  inner n hn := (lookup_setInner s t.source n child).trans (if_neg hn)

def Trial.convertLeg (places : List (Place × Region)) (t : Trial) :
    Cells → Trial.Socket × Trial → Cells :=
  convertInto (fun x => regionOf places (.output x.2.source))
    (fun x => regionOf places (.leg t.source x.1.number))
    fun x c => c.convert x.2.kind (t.reads x.1.slot)

theorem foldl_convert {places : List (Place × Region)} {t : Trial}
    {inner : NodeId → State → Host → Legs → Option Block} {plan : Plan} {legs : Legs} {host : Host}
    (l : List (Trial.Socket × Trial)) (s : State) :
    (l.map fun (x, p) => Step.convert (regionOf places (.output p.source))
        (regionOf places (.leg t.source x.number)) p.kind (t.reads x.slot)).foldl
      (plan.stepWith inner legs) (s, host) =
    ({ s with field := l.foldl (t.convertLeg places) s.field }, host) := by
  induction l generalizing s with
  | nil =>
    cases s
    rfl
  | cons x l ih =>
    rw [List.map_cons, List.foldl_cons, List.foldl_cons]
    exact ih _

namespace Net.Trials
variable {net : Net} {output : NodeId} {externals : Legs} {trials : List Trial}
  (h : net.Trials output externals trials) {t p : Trial}
include h

theorem sublist_or (hp : p ∈ trials) (ht : t ∈ trials) (hne : p.source ≠ t.source) :
    [p, t].Sublist trials ∨ [t, p].Sublist trials := by
  obtain ⟨l₁, l₂, rfl⟩ := List.append_of_mem ht
  rcases List.mem_append.1 hp with hp | hp
  · exact .inl ((List.singleton_sublist.2 hp).append (List.singleton_sublist.2 List.mem_cons_self))
  · have hp := (List.mem_cons.1 hp).resolve_left fun he => hne (congrArg (·.source) he)
    refine .inr (List.Sublist.trans ?_ (List.sublist_append_right l₁ _))
    exact (List.singleton_sublist.2 hp).cons_cons t

theorem apart_live (hp : p ∈ trials) (ht : t ∈ trials) (hne : p.source ≠ t.source) {k k' : Place}
    (hk : k ∈ (p.livePlaces trials).map (·.place))
    (hk' : k' ∈ (t.livePlaces trials).map (·.place)) :
    (regionOf (placement trials) k).Apart (regionOf (placement trials) k') := by
  rcases h.sublist_or hp ht hne with hs | hs
  · exact .inl (regionOf_before h.nodup (sublist_live hs hk hk'))
  · exact .inr (regionOf_before h.nodup (sublist_live hs hk' hk))

theorem static_before {k : Place} (hk : k ∈ staticPlaces trials) {step : Step}
    (hs : step ∈ (Plan.ofTrials output trials).steps) :
    (regionOf (placement trials) k).stop ≤ step.dest.offset := by
  obtain ⟨t, ht, hs⟩ := Plan.mem_steps_ofTrials.1 hs
  have dest := List.mem_map_of_mem (f := Step.dest) hs
  rw [Plan.map_dest] at dest
  obtain ⟨a, ha, he⟩ := List.mem_map.1 dest
  rw [← he]
  exact regionOf_before h.nodup
    (sublist_static ht hk (List.mem_map_of_mem (f := Allotment.place) ha))

theorem stop_le {k : Place} (ht : t ∈ trials) (hk : k ∈ (t.livePlaces trials).map (·.place)) :
    (regionOf (placement trials) k).stop ≤ ((allotments trials).flatMap (·.cells)).length := by
  obtain ⟨a, ha, rfl⟩ := List.mem_map.1 hk
  exact (regionOf_allotment h.nodup (mem_allotments_live ht ha)).2.2.1

/-! ### Converted legs -/

theorem converted_regions (ht : t ∈ trials) (hl : t.live = true) (hi : t.isInput = false)
    {x : Trial.Socket × Trial} (hx : x ∈ t.convertedSockets trials) :
    .leg t.source x.1.number ∈ (t.livePlaces trials).map (·.place) ∧
      (regionOf (placement trials) (.leg t.source x.1.number)).length = x.2.cells.length ∧
      ∀ k ∈ (t.livePlaces trials).map (·.place),
        (regionOf (placement trials) (.output x.2.source)).Apart
          (regionOf (placement trials) k) := by
  obtain ⟨hs, hp, hc⟩ := Plan.mem_convertedSockets.1 hx
  have place := Trial.place_converted hl hi hs hp hc
  refine ⟨List.mem_map_of_mem (f := Allotment.place) place, ?_, fun k hk => ?_⟩
  · rw [(regionOf_allotment h.nodup (mem_allotments_live ht place)).2.1, List.length_replicate]
  · exact .inl (h.output_before ht hl hs hp hk)

theorem converted_apart (ht : t ∈ trials) (hl : t.live = true) (hi : t.isInput = false) :
    (t.convertedSockets trials).Pairwise fun x y =>
      (regionOf (placement trials) (.leg t.source x.1.number)).Apart
        (regionOf (placement trials) (.leg t.source y.1.number)) := by
  have order := List.pairwise_iff_forall_sublist.2 fun {k k' : Place}
    (hs : [k, k'].Sublist ((allotments trials).map (·.place))) => regionOf_before h.nodup hs
  have own : ((t.convertedSockets trials).map fun x => Place.leg t.source x.1.number).Sublist
      ((allotments trials).map (·.place)) := by
    rw [Trial.map_convertedSockets trials t fun s => Place.leg t.source s.number, map_allotments]
    refine List.Sublist.trans ?_ (List.sublist_append_right _ _)
    refine List.Sublist.trans ?_ ((List.singleton_sublist.2 ht).flatMap _)
    rw [List.flatMap_cons, List.flatMap_nil, List.append_nil, Trial.map_livePlaces,
      if_neg (by simp [hl]), if_neg (by simp [hi])]
    exact List.sublist_append_left _ _
  exact (List.pairwise_map.1 (order.sublist own)).imp fun hle => .inl hle

/-- The conversions of a node fill its converted legs from its producers and change nothing else. -/
theorem run_converts (inner : NodeId → State → Host → Legs → Option Block) (plan : Plan)
    (legs : Legs) (host : Host) {s : State} (ht : t ∈ trials) (hl : t.live = true)
    (hi : t.isInput = false)
    (hf : s.field.length = ((allotments trials).flatMap (·.cells)).length) :
    ∃ field : Cells,
      ((t.convertedSockets trials).map fun (x, p) =>
        Step.convert (regionOf (placement trials) (.output p.source))
          (regionOf (placement trials) (.leg t.source x.number)) p.kind (t.reads x.slot)).foldl
        (plan.stepWith inner legs) (s, host) = ({ s with field }, host) ∧
      Frame trials t s { s with field } ∧
      (∀ x ∈ t.convertedSockets trials,
        (regionOf (placement trials) (.leg t.source x.1.number)).read field =
          ((regionOf (placement trials) (.output x.2.source)).read s.field).map fun c =>
            c.convert x.2.kind (t.reads x.1.slot)) ∧
      (regionOf (placement trials) (.output t.source)).read field =
        (regionOf (placement trials) (.output t.source)).read s.field := by
  have regions (x) (hx : x ∈ t.convertedSockets trials) := h.converted_regions ht hl hi hx
  have produced (x) (hx : x ∈ t.convertedSockets trials) : x.2 ∈ trials := by
    obtain ⟨hs, hp, _⟩ := Plan.mem_convertedSockets.1 hx
    exact (h.producer_eq ht hs).2 x.2 hp
  have inside (x) (hx : x ∈ t.convertedSockets trials) :
      (regionOf (placement trials) (.leg t.source x.1.number)).stop ≤ s.field.length ∧
      (regionOf (placement trials) (.output x.2.source)).stop ≤ s.field.length ∧
      (regionOf (placement trials) (.output x.2.source)).length =
        (regionOf (placement trials) (.leg t.source x.1.number)).length := by
    rw [hf]
    exact ⟨h.stop_le ht (regions x hx).1, (h.regionOf_output (produced x hx)).2,
      (h.regionOf_output (produced x hx)).1.trans (regions x hx).2.1.symm⟩
  obtain ⟨length, frame, reads⟩ := foldl_convertInto _ _
    (fun x c => c.convert x.2.kind (t.reads x.1.slot)) inside (h.converted_apart ht hl hi)
    fun x hx y hy => (regions x hx).2.2 _ (regions y hy).1
  refine ⟨_, foldl_convert _ s, ⟨length, fun r hr => frame r fun x hx => hr _ (regions x hx).1,
    fun _ _ => rfl⟩, reads, frame _ fun x hx => .inr ?_⟩
  obtain ⟨hs, _, hc⟩ := Plan.mem_convertedSockets.1 hx
  exact regionOf_before h.nodup (sublist_own ht hl hi hs hc)

/-- Where its producers left their vectors and its constants are in place, a node reads the legs
that these vectors make. -/
theorem read_legs (ht : t ∈ trials) (hl : t.live = true) (hi : t.isInput = false) {field : Cells}
    {value : Trial → Cells}
    (fixed : ∀ k ∈ staticPlaces trials, (regionOf (placement trials) k).read field =
      (regionOf (placement trials) k).read ((allotments trials).flatMap (·.cells)))
    (outputs : ∀ p ∈ trials, p.live = true → net.Feeds p.source t.source →
      (regionOf (placement trials) (.output p.source)).read field = value p)
    (settled : ∀ p ∈ trials, p.live = false → value p = p.cells)
    (converted : ∀ x ∈ t.convertedSockets trials,
      (regionOf (placement trials) (.leg t.source x.1.number)).read field =
        (value x.2).map fun c => c.convert x.2.kind (t.reads x.1.slot)) :
    ((t.sockets trials).map (t.legRegion (placement trials))).map (fun r => r.read field) =
      t.legsOf trials value := by
  rw [List.map_map, Trial.legsOf]
  apply List.map_congr_left
  intro s hs
  rw [Function.comp_apply]
  rcases t.socket_cases s with hc | hc | ⟨hk, hc, p, hp, hn⟩
  · obtain ⟨region, _, read⟩ := h.legRegion_constant ht hl hi hs hc
    rw [region] at read ⊢
    rw [fixed _ (static_constant ht hl hi hs hc), read]
    cases hp : s.producer with
    | none => rw [Trial.vector, Trial.vector, hp]
    | some p =>
      have hd : p.folded = true := by
        rw [Trial.holdsConstant, hp, Option.all_some, Bool.and_eq_true] at hc
        exact hc.1
      rw [Trial.vector, Trial.vector, hp]
      dsimp only
      rw [settled p ((h.producer_eq ht hs).2 p hp) (Trial.not_live_of_folded hd)]
  · obtain ⟨p, hp, _⟩ := Trial.producer_of_convertsLive hc
    rw [(h.legRegion_converted ht hl hi hs hp hc).1,
      converted (s, p) (Plan.mem_convertedSockets.2 ⟨hs, hp, hc⟩), Trial.vector, hp]
  · rw [h.legRegion_direct ht hs hp hk hc, Trial.vector_of_not_converts hp hn]
    have hpm := (h.producer_eq ht hs).2 p hp
    have hf := h.fault_of_producer ht hl hs hp
    rcases Trial.folded_or_live hf with hd | hpl
    · have place := regionOf_allotment h.nodup (mem_allotments_folded hpm (Trial.place_folded hd))
      rw [fixed _ (static_folded hpm hd), place.2.2.2, settled p hpm (Trial.not_live_of_folded hd)]
    · exact outputs p hpm hpl (h.feeds_of_producer ht hs hp)

end Net.Trials
end Patchbay
