import Mathlib.Data.List.Flatten
import Patchbay.Proofs.Plan.Buffer
import Patchbay.Proofs.Plan.Trials

/-! # Where everything lies

The places of one trial are distinct and belong to its node, so all places of a compile are
distinct. The region of a place is then the one that was laid for it, and regions lie in the order
of their places: what a node reads lies before what it writes.
-/

namespace Patchbay

def Place.node : Place → NodeId
  | output n => n
  | leg n _ => n

theorem filterMap_ite {α β : Type*} (p : α → Bool) (f : α → β) (l : List α) :
    l.filterMap (fun a => if p a then some (f a) else none) = (l.filter p).map f := by
  induction l with
  | nil => rfl
  | cons a l ih => by_cases h : p a <;> simp [h, ih]

theorem map_filter_eq_flatMap {α β : Type*} (p : α → Bool) (f : α → β) (l : List α) :
    (l.filter p).map f = l.flatMap fun a => if p a then [f a] else [] := by
  induction l with
  | nil => rfl
  | cons a l ih => by_cases h : p a <;> simp [h, ih]

variable [Platform]

namespace Trial
variable {trials : List Trial} {t : Trial} {s : Socket} {k : Place}

/-- Whether a live node reads a slot from cells that never change and belong to that slot. -/
def holdsConstant (t : Trial) (s : Socket) : Bool :=
  s.producer.all fun p => p.folded && t.converts p s.slot

/-- Whether a live node reads a slot from cells that are converted in every block. -/
def convertsLive (t : Trial) (s : Socket) : Bool :=
  s.producer.any fun p => !p.folded && t.converts p s.slot

theorem constantPlaces_eq (trials : List Trial) (t : Trial) :
    t.constantPlaces trials =
      if t.live && !t.isInput then ((t.sockets trials).filter t.holdsConstant).map fun s =>
        ⟨.leg t.source s.number, t.vector Trial.cells s⟩
      else [] := by
  rw [constantPlaces]
  refine if_congr Iff.rfl ?_ rfl
  rw [← filterMap_ite]
  apply List.filterMap_congr
  intro s _
  rw [holdsConstant, vector]
  cases s.producer with
  | none => rfl
  | some p => rfl

theorem map_convertedSockets {α : Type*} (trials : List Trial) (t : Trial) (f : Socket → α) :
    (t.convertedSockets trials).map (fun x => f x.1) =
      ((t.sockets trials).filter t.convertsLive).map f := by
  rw [convertedSockets, List.map_filterMap, ← filterMap_ite]
  apply List.filterMap_congr
  intro s _
  rw [convertsLive]
  cases s.producer with
  | none => rfl
  | some p =>
    rw [Option.bind_some, Option.any_some]
    split <;> simp_all

/-- The places that a live node writes: its converted legs and its output. -/
theorem map_livePlaces (trials : List Trial) (t : Trial) :
    (t.livePlaces trials).map (·.place) =
      if !t.live then []
      else if t.isInput then [.output t.source]
      else (((t.sockets trials).filter t.convertsLive).map fun s => .leg t.source s.number) ++
        [.output t.source] := by
  rw [livePlaces]
  split
  · rfl
  split
  · rfl
  · rw [List.map_append, List.map_map, ← map_convertedSockets]
    rfl

theorem map_number_sockets (trials : List Trial) (t : Trial) :
    (t.sockets trials).map (·.number) = List.range (t.sockets trials).length := by
  apply List.ext_getElem?
  intro i
  rw [List.getElem?_map]
  cases hi : (t.sockets trials)[i]? with
  | none =>
    rw [Option.map_none, List.getElem?_eq_none]
    rw [List.length_range]
    exact List.getElem?_eq_none_iff.1 hi
  | some s =>
    rw [Option.map_some, (getElem?_sockets.1 hi).2.2.1, List.getElem?_range]
    exact (List.getElem?_eq_some_iff.1 hi).choose

theorem nodup_legs (trials : List Trial) (t : Trial) :
    ((t.sockets trials).map fun s => Place.leg t.source s.number).Nodup := by
  have numbers : ((t.sockets trials).map (·.number)).Nodup := by
    rw [map_number_sockets]
    exact List.nodup_range
  have legs := numbers.map fun i j (h : Place.leg t.source i = .leg t.source j) =>
    (Place.leg.inj h).2
  rwa [List.map_map] at legs

def places (trials : List Trial) (t : Trial) : List Place :=
  t.foldedPlace.map (·.place) ++ (t.constantPlaces trials).map (·.place) ++
    (t.livePlaces trials).map (·.place)

theorem not_convertsLive_of_holdsConstant (h : t.holdsConstant s = true) :
    t.convertsLive s = false := by
  rw [holdsConstant] at h
  rw [convertsLive]
  cases hp : s.producer with
  | none => rfl
  | some p => simp_all

theorem nodup_places (trials : List Trial) (t : Trial) : (t.places trials).Nodup := by
  rw [places, constantPlaces_eq, map_livePlaces, foldedPlace]
  by_cases hf : t.folded = true
  · have hl : t.live = false := by simp_all [folded, live]
    simp [hf, hl]
  by_cases hl : t.live = true
  · by_cases hi : t.isInput = true
    · simp [hf, hl, hi]
    · have legs := nodup_legs trials t
      have split (s : Socket) (hs : t.holdsConstant s = true) (s' : Socket)
          (hs' : t.convertsLive s' = true) (hm : s ∈ t.sockets trials)
          (hm' : s' ∈ t.sockets trials) : s.number ≠ s'.number := by
        intro he
        have same := mem_sockets hm
        rw [he, mem_sockets hm'] at same
        rw [Option.some.inj same, not_convertsLive_of_holdsConstant hs] at hs'
        cases hs'
      simp only [hf, hl, hi, Bool.false_eq_true, if_false, List.map_nil, List.nil_append,
        Bool.not_true, Bool.not_false, Bool.and_self, if_true, List.map_map]
      rw [← List.append_assoc, List.nodup_append, List.nodup_append]
      refine ⟨⟨?_, ?_, ?_⟩, List.nodup_singleton _, ?_⟩
      · exact legs.sublist (List.filter_sublist.map _)
      · exact legs.sublist (List.filter_sublist.map _)
      · intro k hk k' hk' he
        obtain ⟨s, hs, rfl⟩ := List.mem_map.1 hk
        obtain ⟨s', hs', rfl⟩ := List.mem_map.1 hk'
        rw [List.mem_filter] at hs hs'
        exact split s hs.2 s' hs'.2 hs.1 hs'.1 (Place.leg.inj he).2
      · intro k hk k' hk' he
        rw [List.mem_singleton] at hk'
        subst he hk'
        simp at hk
  · simp [hf, hl]

theorem node_of_mem_places (h : k ∈ t.places trials) : k.node = t.source := by
  rw [places, constantPlaces_eq, map_livePlaces, foldedPlace] at h
  simp only [List.mem_append] at h
  rcases h with (h | h) | h
  · split at h
    · cases List.mem_singleton.1 h
      rfl
    · cases h
  · split at h
    · obtain ⟨a, ha, rfl⟩ := List.mem_map.1 h
      obtain ⟨s, _, rfl⟩ := List.mem_map.1 ha
      rfl
    · cases h
  · split at h
    · cases h
    split at h
    · cases List.mem_singleton.1 h
      rfl
    · rcases List.mem_append.1 h with h | h
      · obtain ⟨s, _, rfl⟩ := List.mem_map.1 h
        rfl
      · cases List.mem_singleton.1 h
        rfl

end Trial

section Nodup
variable {trials : List Trial} {f g : Trial → List Place}

theorem nodup_flatMap_places (hn : (trials.map (·.source)).Nodup)
    (hf : ∀ t, (f t).Nodup ∧ ∀ k ∈ f t, k.node = t.source) : (trials.flatMap f).Nodup := by
  refine List.nodup_flatMap.2 ⟨fun t _ => (hf t).1, ?_⟩
  apply (List.pairwise_map.1 hn).imp
  intro a b hne k hk hk'
  exact hne (((hf _).2 k hk).symm.trans ((hf _).2 k hk'))

/-- Lists of places that belong to their nodes share nothing if they do not for any one node. -/
theorem disjoint_flatMap_places (hn : (trials.map (·.source)).Nodup)
    (hf : ∀ t, ∀ k ∈ f t, k.node = t.source) (hg : ∀ t, ∀ k ∈ g t, k.node = t.source)
    (hd : ∀ t, (f t).Disjoint (g t)) : (trials.flatMap f).Disjoint (trials.flatMap g) := by
  intro k hk hk'
  obtain ⟨t, ht, hk⟩ := List.mem_flatMap.1 hk
  obtain ⟨t', ht', hk'⟩ := List.mem_flatMap.1 hk'
  have he : t.source = t'.source := (hf t k hk).symm.trans (hg t' k hk')
  have same : t = t' := by
    have := trial?_of_mem hn ht
    rw [he, trial?_of_mem hn ht'] at this
    exact (Option.some.inj this).symm
  subst same
  exact hd t hk hk'

theorem map_allotments (trials : List Trial) :
    (allotments trials).map (·.place) =
      trials.flatMap (fun t => t.foldedPlace.map (·.place)) ++
        trials.flatMap (fun t => (t.constantPlaces trials).map (·.place)) ++
          trials.flatMap (fun t => (t.livePlaces trials).map (·.place)) := by
  simp only [allotments, List.map_append, List.map_flatMap]

theorem nodup_allotments (hn : (trials.map (·.source)).Nodup) :
    ((allotments trials).map (·.place)).Nodup := by
  have nodup (t : Trial) := Trial.nodup_places trials t
  have own (t : Trial) (k : Place) := @Trial.node_of_mem_places _ trials t k
  simp only [Trial.places, List.nodup_append', List.mem_append] at nodup own
  rw [map_allotments, List.nodup_append', List.nodup_append']
  refine ⟨⟨?_, ?_, ?_⟩, ?_, ?_⟩
  · exact nodup_flatMap_places hn fun t => ⟨(nodup t).1.1, fun k hk => own t k (.inl (.inl hk))⟩
  · exact nodup_flatMap_places hn fun t => ⟨(nodup t).1.2.1, fun k hk => own t k (.inl (.inr hk))⟩
  · exact disjoint_flatMap_places hn (fun t k hk => own t k (.inl (.inl hk)))
      (fun t k hk => own t k (.inl (.inr hk))) fun t => (nodup t).1.2.2
  · exact nodup_flatMap_places hn fun t => ⟨(nodup t).2.1, fun k hk => own t k (.inr hk)⟩
  · have split := fun t => List.disjoint_append_left.1 (nodup t).2.2
    refine List.disjoint_append_left.2 ⟨?_, ?_⟩
    · exact disjoint_flatMap_places hn (fun t k hk => own t k (.inl (.inl hk)))
        (fun t k hk => own t k (.inr hk)) fun t => (split t).1
    · exact disjoint_flatMap_places hn (fun t k hk => own t k (.inl (.inr hk)))
        (fun t k hk => own t k (.inr hk)) fun t => (split t).2

end Nodup

/-! ### The region of a place -/

section Region
variable {trials : List Trial} (hn : (trials.map (·.source)).Nodup) {t : Trial} {a : Allotment}
include hn

theorem nodup_placement : ((placement trials).map (·.1)).Nodup := by
  rw [placement, Allotment.map_fst_place?]
  exact nodup_allotments hn

theorem map_regionOf :
    (allotments trials).map (fun a => regionOf (placement trials) a.place) =
      (placement trials).map (·.2) := by
  have keys : (placement trials).map (·.1) = (allotments trials).map (·.place) :=
    Allotment.map_fst_place? 0 _
  have regions : (placement trials).map (fun x => regionOf (placement trials) x.1) =
      (placement trials).map (·.2) := by
    apply List.map_congr_left
    intro x hx
    have found : (placement trials).lookup x.1 = some x.2 := lookup_of_mem (nodup_placement hn) hx
    rw [regionOf, found, Option.getD_some]
  have outer := congrArg (List.map (regionOf (placement trials))) keys
  rw [List.map_map, List.map_map] at outer
  exact outer.symm.trans regions

theorem regionOf_allotment (ha : a ∈ allotments trials) :
    (placement trials).lookup a.place = some (regionOf (placement trials) a.place) ∧
      (regionOf (placement trials) a.place).length = a.cells.length ∧
      (regionOf (placement trials) a.place).stop ≤
        ((allotments trials).flatMap (·.cells)).length ∧
      (regionOf (placement trials) a.place).read ((allotments trials).flatMap (·.cells)) =
        a.cells := by
  have key : a.place ∈ (placement trials).map (·.1) := by
    rw [placement, Allotment.map_fst_place?]
    exact List.mem_map_of_mem ha
  obtain ⟨r, hr⟩ := lookup_isSome_of_mem key
  have region : regionOf (placement trials) a.place = r := by rw [regionOf, hr, Option.getD_some]
  have laid : (a.place, r) ∈ Allotment.place? ([] : Cells).length (allotments trials) :=
    mem_of_lookup hr
  obtain ⟨stop, b, hb, place, length, read⟩ := Allotment.read_of_mem_place? [] laid
  have same : b = a := List.inj_on_of_nodup_map (nodup_allotments hn) hb ha place.symm
  subst same
  rw [region]
  exact ⟨hr, length, stop, read⟩

theorem regionOf_before {k k' : Place}
    (h : [k, k'].Sublist ((allotments trials).map (·.place))) :
    (regionOf (placement trials) k).stop ≤ (regionOf (placement trials) k').offset := by
  have order : ((allotments trials).map (·.place)).Pairwise fun k k' =>
      (regionOf (placement trials) k).stop ≤ (regionOf (placement trials) k').offset := by
    have regions : ((placement trials).map (·.2)).Pairwise fun r s => r.stop ≤ s.offset :=
      List.pairwise_map.2 (Allotment.pairwise_place? 0 (allotments trials))
    rw [← map_regionOf hn] at regions
    exact List.pairwise_map.2 (List.pairwise_map.1 regions)
  exact List.pairwise_iff_forall_sublist.1 order h

end Region
end Patchbay
