import Patchbay.Proofs.Plan.Placement

/-! # What a node reads and where

A live node reads a slot from cells laid down for it, from cells converted for it, or from the
output of its producer. In each case the region has the length of the vector that the slot was tried
on, and it ends before the output of the node starts.
-/

namespace Patchbay

variable [Platform]

namespace Trial
variable {trials : List Trial} {t p : Trial} {s : Socket}

theorem cells_of_fault (h : t.fault ≠ none) : t.cells = [] := by
  rw [cells]
  rw [fault] at h
  cases ho : t.outcome with
  | ok y => simp [ho] at h
  | error f => rfl

theorem fault_of_live (h : t.live = true) : t.fault = none ∧ t.known = false := by
  simp_all [live]

theorem fault_of_folded (h : t.folded = true) : t.fault = none ∧ t.known = true := by
  simp_all [folded]

theorem folded_or_live (h : t.fault = none) : t.folded = true ∨ t.live = true := by
  rw [folded, live, h]
  cases t.known <;> simp

theorem live_iff : t.live = true ↔ t.folded = false ∧ t.fault = none := by
  rw [live, folded]
  cases t.known <;> cases t.fault <;> simp

theorem not_folded_of_live (h : t.live = true) : t.folded = false := by
  simp_all [live, folded]

theorem not_live_of_folded (h : t.folded = true) : t.live = false := by
  simp_all [live, folded]

/-- A slot reads constants, converted cells, or its producer as it is. -/
theorem socket_cases (t : Trial) (s : Socket) :
    t.holdsConstant s = true ∨ t.convertsLive s = true ∨
      t.holdsConstant s = false ∧ t.convertsLive s = false ∧
        ∃ p, s.producer = some p ∧ t.converts p s.slot = false := by
  rw [holdsConstant, convertsLive]
  cases s.producer with
  | none => exact .inl rfl
  | some p =>
    cases hc : t.converts p s.slot <;> cases hf : p.folded <;> simp [hc, hf]

theorem producer_of_convertsLive (h : t.convertsLive s = true) :
    ∃ p, s.producer = some p ∧ p.folded = false ∧ t.converts p s.slot = true := by
  rw [convertsLive] at h
  cases hp : s.producer with
  | none => simp [hp] at h
  | some p =>
    rw [hp, Option.any_some, Bool.and_eq_true, Bool.not_eq_true'] at h
    exact ⟨p, rfl, h⟩

omit [Platform] in
theorem convert_of_not_converts (c : Cell) {k reader : Kind} (h : k.converts reader = false) :
    c.convert k reader = c := by
  cases k <;> cases reader <;> first | rfl | cases h

theorem vector_of_not_converts {value : Trial → Cells} (hp : s.producer = some p)
    (hc : t.converts p s.slot = false) : t.vector value s = value p := by
  rw [vector, hp]
  exact (List.map_congr_left fun c _ => convert_of_not_converts c hc).trans (List.map_id _)

theorem length_vector {value : Trial → Cells} (hp : s.producer = some p) :
    (t.vector value s).length = (value p).length := by
  rw [vector, hp]
  exact List.length_map _

theorem place_folded (h : t.folded = true) : ⟨.output t.source, t.cells⟩ ∈ t.foldedPlace := by
  rw [foldedPlace, if_pos h]
  exact List.mem_singleton_self _

theorem place_constant (hl : t.live = true) (hi : t.isInput = false)
    (hs : s ∈ t.sockets trials) (hc : t.holdsConstant s = true) :
    ⟨.leg t.source s.number, t.vector Trial.cells s⟩ ∈ t.constantPlaces trials := by
  rw [constantPlaces_eq, if_pos (by simp [hl, hi])]
  exact List.mem_map_of_mem (List.mem_filter.2 ⟨hs, hc⟩)

theorem place_converted (hl : t.live = true) (hi : t.isInput = false)
    (hs : s ∈ t.sockets trials) (hp : s.producer = some p) (hc : t.convertsLive s = true) :
    ⟨.leg t.source s.number, List.replicate p.cells.length .zero⟩ ∈ t.livePlaces trials := by
  rw [livePlaces, if_neg (by simp [hl]), if_neg (by simp [hi])]
  refine List.mem_append_left _ (List.mem_map.2 ⟨(s, p), ?_, rfl⟩)
  rw [convertsLive, hp, Option.any_some] at hc
  refine List.mem_filterMap.2 ⟨s, hs, ?_⟩
  rw [hp, Option.bind_some, if_pos hc]

theorem place_live (hl : t.live = true) :
    ∃ cells : Cells, cells.length = t.cells.length ∧
      ⟨.output t.source, cells⟩ ∈ t.livePlaces trials ∧
      (t.isInput = false → cells = List.replicate t.cells.length .zero) := by
  rw [livePlaces, if_neg (by simp [hl])]
  split
  · rename_i hi
    exact ⟨t.cells, rfl, List.mem_singleton_self _, fun hn => absurd hi (by simp [hn])⟩
  · exact ⟨_, List.length_replicate, List.mem_append_right _ (List.mem_singleton_self _),
      fun _ => rfl⟩

theorem mem_livePlaces_output (trials : List Trial) (hl : t.live = true) :
    .output t.source ∈ (t.livePlaces trials).map (·.place) := by
  obtain ⟨_, _, mem, _⟩ := place_live hl
  exact List.mem_map_of_mem (f := Allotment.place) mem

end Trial

section Order
variable {trials : List Trial} {t p : Trial} {k k' : Place}

theorem mem_allotments_folded {a : Allotment} (ht : t ∈ trials) (ha : a ∈ t.foldedPlace) :
    a ∈ allotments trials :=
  List.mem_append_left _ (List.mem_append_left _ (List.mem_flatMap.2 ⟨t, ht, ha⟩))

theorem mem_allotments_constant {a : Allotment} (ht : t ∈ trials)
    (ha : a ∈ t.constantPlaces trials) : a ∈ allotments trials :=
  List.mem_append_left _ (List.mem_append_right _ (List.mem_flatMap.2 ⟨t, ht, ha⟩))

theorem mem_allotments_live {a : Allotment} (ht : t ∈ trials) (ha : a ∈ t.livePlaces trials) :
    a ∈ allotments trials :=
  List.mem_append_right _ (List.mem_flatMap.2 ⟨t, ht, ha⟩)

def staticPlaces (trials : List Trial) : List Place :=
  trials.flatMap (fun t => t.foldedPlace.map (·.place)) ++
    trials.flatMap fun t => (t.constantPlaces trials).map (·.place)

theorem static_folded (ht : t ∈ trials) (hf : t.folded = true) :
    .output t.source ∈ staticPlaces trials :=
  List.mem_append_left _ (List.mem_flatMap.2
    ⟨t, ht, List.mem_map_of_mem (f := Allotment.place) (Trial.place_folded hf)⟩)

theorem static_constant {s : Trial.Socket} (ht : t ∈ trials) (hl : t.live = true)
    (hi : t.isInput = false) (hs : s ∈ t.sockets trials) (hc : t.holdsConstant s = true) :
    .leg t.source s.number ∈ staticPlaces trials :=
  List.mem_append_right _ (List.mem_flatMap.2
    ⟨t, ht, List.mem_map_of_mem (f := Allotment.place) (Trial.place_constant hl hi hs hc)⟩)

theorem sublist_static (ht : t ∈ trials) (hk : k ∈ staticPlaces trials)
    (hk' : k' ∈ (t.livePlaces trials).map (·.place)) :
    [k, k'].Sublist ((allotments trials).map (·.place)) := by
  rw [map_allotments]
  exact (List.singleton_sublist.2 hk).append
    (List.singleton_sublist.2 (List.mem_flatMap.2 ⟨t, ht, hk'⟩))

theorem sublist_live (hpt : [p, t].Sublist trials) (hk : k ∈ (p.livePlaces trials).map (·.place))
    (hk' : k' ∈ (t.livePlaces trials).map (·.place)) :
    [k, k'].Sublist ((allotments trials).map (·.place)) := by
  rw [map_allotments]
  refine List.Sublist.trans ?_ (List.sublist_append_right _ _)
  refine List.Sublist.trans ?_ (hpt.flatMap _)
  rw [List.flatMap_cons, List.flatMap_cons, List.flatMap_nil, List.append_nil]
  exact (List.singleton_sublist.2 hk).append (List.singleton_sublist.2 hk')

theorem sublist_own {s : Trial.Socket} (ht : t ∈ trials) (hl : t.live = true)
    (hi : t.isInput = false) (hs : s ∈ t.sockets trials) (hc : t.convertsLive s = true) :
    [.leg t.source s.number, .output t.source].Sublist ((allotments trials).map (·.place)) := by
  rw [map_allotments]
  refine List.Sublist.trans ?_ (List.sublist_append_right _ _)
  refine List.Sublist.trans ?_ ((List.singleton_sublist.2 ht).flatMap _)
  rw [List.flatMap_cons, List.flatMap_nil, List.append_nil, Trial.map_livePlaces,
    if_neg (by simp [hl]), if_neg (by simp [hi])]
  refine List.Sublist.append (List.singleton_sublist.2 ?_) (List.Sublist.refl _)
  exact List.mem_map_of_mem (List.mem_filter.2 ⟨hs, hc⟩)

end Order

namespace Net.Trials
variable {net : Net} {output : NodeId} {externals : Legs} {trials : List Trial}
  (h : net.Trials output externals trials) {t p : Trial} {s : Trial.Socket}
include h

theorem eq_of_source (ht : t ∈ trials) (hp : p ∈ trials) (he : t.source = p.source) : t = p := by
  have found := trial?_of_mem h.nodup ht
  rw [he, trial?_of_mem h.nodup hp] at found
  exact (Option.some.inj found).symm

theorem mem_places_of_lookup {k : Place} {r : Region} (ht : t ∈ trials) (hk : k.node = t.source)
    (hr : (placement trials).lookup k = some r) : k ∈ t.places trials := by
  have key : k ∈ (allotments trials).map (·.place) := by
    rw [← Allotment.map_fst_place? 0]
    exact List.mem_map_of_mem (mem_of_lookup hr)
  have own : ∃ u ∈ trials, k ∈ u.places trials := by
    rw [map_allotments, List.mem_append, List.mem_append] at key
    rcases key with (hk | hk) | hk <;> obtain ⟨u, hu, hk⟩ := List.mem_flatMap.1 hk <;>
      refine ⟨u, hu, ?_⟩ <;> simp [Trial.places, hk]
  obtain ⟨u, hu, hk'⟩ := own
  rw [h.eq_of_source ht hu (hk.symm.trans (Trial.node_of_mem_places hk'))]
  exact hk'

/-- A slot that is neither laid down nor converted has no place of its own. -/
theorem lookup_leg (ht : t ∈ trials) (hs : s ∈ t.sockets trials)
    (hk : t.holdsConstant s = false) (hc : t.convertsLive s = false) :
    (placement trials).lookup (.leg t.source s.number) = none := by
  by_contra hne
  obtain ⟨r, hr⟩ := Option.ne_none_iff_exists'.1 hne
  have mem := h.mem_places_of_lookup ht rfl hr
  have unique (s' : Trial.Socket) (hs' : s' ∈ t.sockets trials)
      (he : Place.leg t.source s'.number = .leg t.source s.number) : s' = s := by
    have found := Trial.mem_sockets hs'
    rw [(Place.leg.inj he).2, Trial.mem_sockets hs] at found
    exact (Option.some.inj found).symm
  rw [Trial.places, Trial.constantPlaces_eq, Trial.map_livePlaces, Trial.foldedPlace] at mem
  simp only [List.mem_append] at mem
  rcases mem with (mem | mem) | mem
  · split at mem <;> simp at mem
  · split at mem
    · obtain ⟨a, ha, he⟩ := List.mem_map.1 mem
      obtain ⟨s', hs', rfl⟩ := List.mem_map.1 ha
      rw [List.mem_filter] at hs'
      rw [unique s' hs'.1 he, hk] at hs'
      cases hs'.2
    · cases mem
  · split at mem
    · cases mem
    split at mem
    · simp at mem
    · rcases List.mem_append.1 mem with mem | mem
      · obtain ⟨s', hs', he⟩ := List.mem_map.1 mem
        rw [List.mem_filter] at hs'
        rw [unique s' hs'.1 he, hc] at hs'
        cases hs'.2
      · simp at mem

theorem regionOf_fault (ht : t ∈ trials) (hf : t.fault ≠ none) :
    regionOf (placement trials) (.output t.source) = .empty := by
  have none : (placement trials).lookup (.output t.source) = none := by
    by_contra hne
    obtain ⟨r, hr⟩ := Option.ne_none_iff_exists'.1 hne
    have mem := h.mem_places_of_lookup ht rfl hr
    have hd : t.folded = false := Bool.eq_false_iff.2 fun hd => hf (Trial.fault_of_folded hd).1
    have hl : t.live = false := Bool.eq_false_iff.2 fun hl => hf (Trial.fault_of_live hl).1
    rw [Trial.places, Trial.constantPlaces_eq, Trial.map_livePlaces, Trial.foldedPlace] at mem
    simp [hd, hl] at mem
  rw [regionOf, none]
  rfl

theorem regionOf_output (ht : t ∈ trials) :
    (regionOf (placement trials) (.output t.source)).length = t.cells.length ∧
      (regionOf (placement trials) (.output t.source)).stop ≤
        ((allotments trials).flatMap (·.cells)).length := by
  by_cases hf : t.fault = none
  · rcases Trial.folded_or_live hf with hd | hl
    · have place := regionOf_allotment h.nodup (mem_allotments_folded ht (Trial.place_folded hd))
      exact ⟨place.2.1, place.2.2.1⟩
    · obtain ⟨cells, length, mem, _⟩ := Trial.place_live hl
      have place := regionOf_allotment h.nodup (mem_allotments_live ht mem)
      exact ⟨place.2.1.trans length, place.2.2.1⟩
  · rw [h.regionOf_fault ht hf, Trial.cells_of_fault hf]
    exact ⟨rfl, Nat.zero_le _⟩

/-- A constant leg has a place of its own that holds it from the start. -/
theorem legRegion_constant (ht : t ∈ trials) (hl : t.live = true) (hi : t.isInput = false)
    (hs : s ∈ t.sockets trials) (hc : t.holdsConstant s = true) :
    t.legRegion (placement trials) s = regionOf (placement trials) (.leg t.source s.number) ∧
      (t.legRegion (placement trials) s).length = (t.vector Trial.cells s).length ∧
      (t.legRegion (placement trials) s).read ((allotments trials).flatMap (·.cells)) =
        t.vector Trial.cells s := by
  obtain ⟨found, length, _, read⟩ := regionOf_allotment h.nodup
    (mem_allotments_constant ht (Trial.place_constant hl hi hs hc))
  rw [Trial.legRegion, found]
  exact ⟨rfl, length, read⟩

theorem legRegion_converted (ht : t ∈ trials) (hl : t.live = true) (hi : t.isInput = false)
    (hs : s ∈ t.sockets trials) (hp : s.producer = some p) (hc : t.convertsLive s = true) :
    t.legRegion (placement trials) s = regionOf (placement trials) (.leg t.source s.number) ∧
      (t.legRegion (placement trials) s).length = p.cells.length ∧
      (t.legRegion (placement trials) s).stop ≤
        ((allotments trials).flatMap (·.cells)).length := by
  obtain ⟨found, length, stop, _⟩ := regionOf_allotment h.nodup
    (mem_allotments_live ht (Trial.place_converted hl hi hs hp hc))
  rw [Trial.legRegion, found]
  exact ⟨rfl, length.trans List.length_replicate, stop⟩

theorem legRegion_direct (ht : t ∈ trials) (hs : s ∈ t.sockets trials) (hp : s.producer = some p)
    (hk : t.holdsConstant s = false) (hc : t.convertsLive s = false) :
    t.legRegion (placement trials) s = regionOf (placement trials) (.output p.source) := by
  rw [Trial.legRegion, h.lookup_leg ht hs hk hc, hp]
  rfl

/-- What a live node reads for a slot is as long as the vector that the slot was tried on. -/
theorem length_legRegion (ht : t ∈ trials) (hl : t.live = true) (hi : t.isInput = false)
    (hs : s ∈ t.sockets trials) :
    (t.legRegion (placement trials) s).length = (t.vector Trial.cells s).length := by
  rcases t.socket_cases s with hc | hc | ⟨hk, hc, p, hp, _⟩
  · exact (h.legRegion_constant ht hl hi hs hc).2.1
  · obtain ⟨p, hp, _⟩ := Trial.producer_of_convertsLive hc
    rw [(h.legRegion_converted ht hl hi hs hp hc).2.1, Trial.length_vector hp]
  · rw [h.legRegion_direct ht hs hp hk hc, Trial.length_vector hp]
    exact (h.regionOf_output ((h.producer_eq ht hs).2 p hp)).1

theorem fault_of_producer (ht : t ∈ trials) (hl : t.live = true) (hs : s ∈ t.sockets trials)
    (hp : s.producer = some p) : p.fault = none :=
  (h.sound_of_fault ht (Trial.fault_of_live hl).1).1 s hs p hp

/-- The output of a producer without a fault lies before everything that its consumer writes. -/
theorem output_before (ht : t ∈ trials) (hl : t.live = true) (hs : s ∈ t.sockets trials)
    (hp : s.producer = some p) {k : Place} (hk : k ∈ (t.livePlaces trials).map (·.place)) :
    (regionOf (placement trials) (.output p.source)).stop ≤
      (regionOf (placement trials) k).offset := by
  have hpm := (h.producer_eq ht hs).2 p hp
  have hf := h.fault_of_producer ht hl hs hp
  apply regionOf_before h.nodup
  rcases Trial.folded_or_live hf with hd | hpl
  · exact sublist_static ht (static_folded hpm hd) hk
  · refine sublist_live (h.sublist_of_feeds hpm ht (h.feeds_of_producer ht hs hp)) ?_ hk
    exact Trial.mem_livePlaces_output trials hpl

theorem legRegion_before (ht : t ∈ trials) (hl : t.live = true) (hi : t.isInput = false)
    (hs : s ∈ t.sockets trials) :
    (t.legRegion (placement trials) s).stop ≤
      (regionOf (placement trials) (.output t.source)).offset := by
  have own := Trial.mem_livePlaces_output trials hl
  rcases t.socket_cases s with hc | hc | ⟨hk, hc, p, hp, _⟩
  · rw [(h.legRegion_constant ht hl hi hs hc).1]
    exact regionOf_before h.nodup (sublist_static ht (static_constant ht hl hi hs hc) own)
  · obtain ⟨p, hp, _⟩ := Trial.producer_of_convertsLive hc
    rw [(h.legRegion_converted ht hl hi hs hp hc).1]
    exact regionOf_before h.nodup (sublist_own ht hl hi hs hc)
  · rw [h.legRegion_direct ht hs hp hk hc]
    exact h.output_before ht hl hs hp own

end Net.Trials
end Patchbay
