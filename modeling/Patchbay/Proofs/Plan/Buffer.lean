import Mathlib.Data.List.Forall2
import Patchbay.Plan.Layout

/-! # Places laid end to end

A write changes its own region and no region beside it. Places laid end to end lie one behind the
other and hold their first contents, so what is read at one place is not changed by a write at
another.
-/

namespace Patchbay

theorem pour_of_length_eq {source out : Cells} (h : out.length = source.length) :
    pour source out = source := by
  rw [pour, h, List.take_length, ← h, List.drop_length, List.append_nil]

theorem fit_of_length_eq {cells : Cells} {filler : Cell} {length : Nat}
    (h : cells.length = length) : fit cells filler length = cells := by
  rw [fit, h, Nat.sub_self, List.replicate_zero, List.append_nil,
    List.take_of_length_le (Nat.le_of_eq h)]

namespace Region
variable {r s : Region} {cells field : Cells}

def Apart (r s : Region) : Prop := r.stop ≤ s.offset ∨ s.stop ≤ r.offset

theorem length_read (h : r.stop ≤ field.length) : (r.read field).length = r.length := by
  rw [stop] at h
  simp only [read, List.length_take, List.length_drop]
  omega

theorem length_write (hc : cells.length = r.length) (hr : r.stop ≤ field.length) :
    (r.write cells field).length = field.length := by
  rw [stop] at hr
  simp only [write, stop, List.length_append, List.length_take, List.length_drop]
  omega

theorem read_write_same (hc : cells.length = r.length) (hr : r.stop ≤ field.length) :
    r.read (r.write cells field) = cells := by
  rw [stop] at hr
  have start : (field.take r.offset).length = r.offset := by
    rw [List.length_take]
    omega
  rw [read, write, List.append_assoc, List.drop_left' start, ← hc, List.take_left]

theorem read_write_of_apart (h : s.Apart r) (hc : cells.length = r.length)
    (hr : r.stop ≤ field.length) : s.read (r.write cells field) = s.read field := by
  apply List.ext_getElem?
  intro i
  simp only [Apart, stop] at h hr
  simp only [read, write, stop, List.getElem?_take, List.getElem?_drop, List.append_assoc]
  split
  · rename_i hi
    rcases h with h | h
    · rw [List.getElem?_append_left (by rw [List.length_take]; omega), List.getElem?_take,
        if_pos (by omega)]
    · rw [List.getElem?_append_right (by rw [List.length_take]; omega),
        List.getElem?_append_right (by rw [List.length_take]; omega), List.getElem?_drop]
      congr 1
      rw [List.length_take]
      omega
  · rfl

theorem read_middle (pre mid post : Cells) :
    (⟨pre.length, mid.length⟩ : Region).read (pre ++ mid ++ post) = mid := by
  rw [read, List.append_assoc, List.drop_left, List.take_left]

theorem read_empty (field : Cells) : empty.read field = [] := by
  rw [read, empty, List.take_zero]

end Region

/-! ### Conversions -/

section Convert
variable {α : Type*} (source dest : α → Region) (f : α → Cell → Cell)

def convertInto (field : Cells) (a : α) : Cells :=
  (dest a).write (pour (((source a).read field).map (f a)) ((dest a).read field)) field

variable {source dest f} {l : List α} {field : Cells}

theorem length_convertInto {a : α} (hd : (dest a).stop ≤ field.length) :
    (convertInto source dest f field a).length = field.length := by
  refine Region.length_write ?_ hd
  rw [length_pour, Region.length_read hd]

theorem read_convertInto_same {a : α} (hd : (dest a).stop ≤ field.length)
    (hs : (source a).stop ≤ field.length) (hl : (source a).length = (dest a).length) :
    (dest a).read (convertInto source dest f field a) = ((source a).read field).map (f a) := by
  have written : (pour (((source a).read field).map (f a)) ((dest a).read field)).length =
      (dest a).length := by rw [length_pour, Region.length_read hd]
  rw [convertInto, Region.read_write_same written hd, pour_of_length_eq]
  rw [List.length_map, Region.length_read hd, Region.length_read hs, hl]

theorem read_convertInto_of_apart {a : α} {r : Region} (h : r.Apart (dest a))
    (hd : (dest a).stop ≤ field.length) :
    r.read (convertInto source dest f field a) = r.read field := by
  refine Region.read_write_of_apart h ?_ hd
  rw [length_pour, Region.length_read hd]

/-- Conversions one after the other, whose sources are apart from what they write. -/
theorem foldl_convertInto (source dest : α → Region) (f : α → Cell → Cell)
    (inside : ∀ a ∈ l, (dest a).stop ≤ field.length ∧ (source a).stop ≤ field.length ∧
      (source a).length = (dest a).length)
    (distinct : l.Pairwise fun a b => (dest a).Apart (dest b))
    (before : ∀ a ∈ l, ∀ b ∈ l, (source a).Apart (dest b)) :
    (l.foldl (convertInto source dest f) field).length = field.length ∧
    (∀ r : Region, (∀ a ∈ l, r.Apart (dest a)) →
      r.read (l.foldl (convertInto source dest f) field) = r.read field) ∧
    ∀ a ∈ l, (dest a).read (l.foldl (convertInto source dest f) field) =
      ((source a).read field).map (f a) := by
  induction l generalizing field with
  | nil => exact ⟨rfl, fun _ _ => rfl, fun _ ha => nomatch ha⟩
  | cons a l ih =>
    rw [List.forall_mem_cons] at inside
    rw [List.pairwise_cons] at distinct
    have length : (convertInto source dest f field a).length = field.length :=
      length_convertInto inside.1.1
    obtain ⟨lengths, frame, reads⟩ := @ih (convertInto source dest f field a)
      (by rw [length]; exact inside.2) distinct.2
      fun b hb c hc => before b (List.mem_cons_of_mem a hb) c (List.mem_cons_of_mem a hc)
    rw [List.foldl_cons]
    refine ⟨lengths.trans length, fun r hr => ?_, fun b hb => ?_⟩
    · rw [List.forall_mem_cons] at hr
      rw [frame r hr.2, read_convertInto_of_apart hr.1 inside.1.1]
    · rcases List.mem_cons.1 hb with rfl | hb
      · rw [frame (dest b) distinct.1, read_convertInto_same inside.1.1 inside.1.2.1 inside.1.2.2]
      · rw [reads b hb, read_convertInto_of_apart _ inside.1.1]
        exact before b (List.mem_cons_of_mem a hb) a List.mem_cons_self

end Convert

/-! ### Look-up under distinct keys -/

section Lookup
variable {α β : Type*} [DecidableEq α] {l : List (α × β)} {k : α} {v : β}

theorem mem_of_lookup (h : l.lookup k = some v) : (k, v) ∈ l := by
  obtain ⟨l₁, l₂, rfl, _⟩ := List.lookup_eq_some_iff.1 h
  exact List.mem_append_right _ List.mem_cons_self

theorem lookup_of_mem (hl : (l.map (·.1)).Nodup) (h : (k, v) ∈ l) : l.lookup k = some v := by
  obtain ⟨l₁, l₂, rfl⟩ := List.append_of_mem h
  refine List.lookup_eq_some_iff.2 ⟨l₁, l₂, rfl, fun p hp => ?_⟩
  rw [List.map_append, List.map_cons, List.nodup_append] at hl
  have := hl.2.2 p.1 (List.mem_map_of_mem hp) k List.mem_cons_self
  simpa using Ne.symm this

theorem lookup_isSome_of_mem (h : k ∈ l.map (·.1)) : ∃ v, l.lookup k = some v := by
  obtain ⟨⟨k', v⟩, hm, rfl⟩ := List.mem_map.1 h
  refine Option.isSome_iff_exists.1 (List.lookup_isSome_iff.2 ⟨_, hm, ?_⟩)
  simp

theorem lookup_map_of_inj {γ : Type*} [DecidableEq γ] {f : α → γ}
    (h : ∀ x ∈ l, f x.1 = f k → x.1 = k) :
    (l.map fun x => (f x.1, x.2)).lookup (f k) = l.lookup k := by
  induction l with
  | nil => rfl
  | cons x l ih =>
    rw [List.forall_mem_cons] at h
    rw [List.map_cons, List.lookup_cons, List.lookup_cons, ih h.2]
    by_cases he : k = x.1
    · rw [he, beq_self_eq_true, beq_self_eq_true]
    · rw [beq_false_of_ne he, beq_false_of_ne fun hf => he (h.1 hf.symm).symm]

end Lookup

namespace Allotment
variable {offset : Nat} {allotments : List Allotment}

theorem map_fst_place? (offset : Nat) (allotments : List Allotment) :
    (place? offset allotments).map (·.1) = allotments.map (·.place) := by
  induction allotments generalizing offset with
  | nil => rfl
  | cons a rest ih => rw [place?, List.map_cons, ih, List.map_cons]

theorem le_of_mem_place? {x : Place × Region} (h : x ∈ place? offset allotments) :
    offset ≤ x.2.offset := by
  induction allotments generalizing offset with
  | nil => cases h
  | cons a rest ih =>
    rcases List.mem_cons.1 h with rfl | h
    · exact Nat.le_refl _
    · exact Nat.le_trans (Nat.le_add_right _ _) (ih h)

theorem pairwise_place? (offset : Nat) (allotments : List Allotment) :
    (place? offset allotments).Pairwise fun x y => x.2.stop ≤ y.2.offset := by
  induction allotments generalizing offset with
  | nil => exact .nil
  | cons a rest ih => exact List.pairwise_cons.2 ⟨fun x hx => le_of_mem_place? hx, ih _⟩

theorem read_of_mem_place? {x : Place × Region} (front : Cells)
    (h : x ∈ place? front.length allotments) :
    x.2.stop ≤ (front ++ allotments.flatMap (·.cells)).length ∧
      ∃ a ∈ allotments, x.1 = a.place ∧ x.2.length = a.cells.length ∧
        x.2.read (front ++ allotments.flatMap (·.cells)) = a.cells := by
  induction allotments generalizing front with
  | nil => cases h
  | cons a rest ih =>
    rw [List.flatMap_cons, ← List.append_assoc]
    rw [place?] at h
    rcases List.mem_cons.1 h with rfl | h
    · refine ⟨?_, a, List.mem_cons_self, rfl, rfl, Region.read_middle _ _ _⟩
      simp only [Region.stop, List.length_append]
      omega
    · rw [← List.length_append] at h
      obtain ⟨stop, b, hb, same⟩ := ih (front ++ a.cells) h
      exact ⟨stop, b, List.mem_cons_of_mem a hb, same⟩

end Allotment
end Patchbay
