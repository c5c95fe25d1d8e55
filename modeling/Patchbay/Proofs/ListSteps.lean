import Mathlib.Data.List.Find
import Mathlib.Data.List.Forall2

/-! # Steps along a list

A step that can fail, taken along a list, succeeds when it succeeds on every element, and then the
results stand at the positions of the elements. What every step keeps holds at the end of a fold.
-/

namespace Patchbay

universe u

variable {ε α β : Type*} {f : α → Except ε β} {l : List α} {l' : List β}

theorem mapM_eq_ok_iff : l.mapM f = .ok l' ↔ List.Forall₂ (fun a b => f a = .ok b) l l' := by
  induction l generalizing l' with
  | nil =>
    rw [List.mapM_nil, List.forall₂_nil_left_iff]
    exact ⟨fun h => by cases h; rfl, fun h => by rw [h]; rfl⟩
  | cons a l ih =>
    rw [List.mapM_cons, List.forall₂_cons_left_iff]
    cases ha : f a with
    | error e => simp [bind, Except.bind]
    | ok b =>
      cases hl : l.mapM f with
      | error e =>
        simp only [bind, Except.bind, ← ih, hl]
        simp
      | ok r =>
        simp only [bind, Except.bind, pure, Except.pure, Except.ok.injEq, ← ih, hl]
        constructor
        · rintro rfl
          exact ⟨b, r, rfl, rfl, rfl⟩
        · rintro ⟨_, _, rfl, rfl, rfl⟩
          rfl

theorem mapM_eq_error_iff {cause : ε} : l.mapM f = .error cause ↔
    ∃ (i : Nat) (a : α), l[i]? = some a ∧ f a = .error cause ∧
      ∀ j < i, ∀ b, l[j]? = some b → ∃ c, f b = .ok c := by
  induction l with
  | nil => simp [List.mapM_nil, pure, Except.pure]
  | cons a l ih =>
    rw [List.mapM_cons]
    cases ha : f a with
    | error e =>
      simp only [bind, Except.bind, Except.error.injEq]
      constructor
      · rintro rfl
        exact ⟨0, a, rfl, ha, fun j hj => absurd hj (Nat.not_lt_zero j)⟩
      · rintro ⟨i, b, hb, hf, before⟩
        cases i with
        | zero =>
          cases hb
          exact Except.error.inj (ha.symm.trans hf)
        | succ i =>
          obtain ⟨c, hc⟩ := before 0 i.succ_pos a rfl
          simp [ha] at hc
    | ok c =>
      have rest : (do let cs ← l.mapM f; pure (c :: cs) : Except ε (List β)) = .error cause ↔
          l.mapM f = .error cause := by
        cases l.mapM f <;> simp [bind, Except.bind, pure, Except.pure]
      refine rest.trans (ih.trans ⟨?_, ?_⟩)
      · rintro ⟨i, b, hb, hf, before⟩
        refine ⟨i + 1, b, hb, hf, fun j hj => ?_⟩
        cases j with
        | zero => exact fun b hb => ⟨c, Option.some.inj hb ▸ ha⟩
        | succ j => exact before j (Nat.lt_of_succ_lt_succ hj)
      · rintro ⟨i, b, hb, hf, before⟩
        cases i with
        | zero =>
          cases hb
          simp [ha] at hf
        | succ i => exact ⟨i, b, hb, hf, fun j hj => before (j + 1) (Nat.succ_lt_succ hj)⟩

theorem bind_eq_error_iff {α β : Type u} {x : Except ε α} {f : α → Except ε β} {cause : ε} :
    x >>= f = .error cause ↔ x = .error cause ∨ ∃ a, x = .ok a ∧ f a = .error cause := by
  cases x with
  | error e => simp [bind, Except.bind]
  | ok a => simp [bind, Except.bind]

theorem toOption_eq_some {x : Except ε α} {a : α} : x.toOption = some a ↔ x = .ok a := by
  cases x <;> simp [Except.toOption]

def failure? (x : Except ε α) : Option ε :=
  match x with
  | .ok _ => none
  | .error e => some e

theorem failure?_eq_some {x : Except ε α} {e : ε} : failure? x = some e ↔ x = .error e := by
  cases x <;> simp [failure?]

theorem failure?_mapM : failure? (l.mapM f) = l.findSome? fun a => failure? (f a) := by
  induction l with
  | nil => rfl
  | cons a l ih =>
    rw [List.mapM_cons, List.findSome?_cons, ← ih]
    cases f a with
    | error e => rfl
    | ok b => cases l.mapM f <;> rfl

theorem findSome?_congr {f g : α → Option β} (h : ∀ a ∈ l, f a = g a) :
    l.findSome? f = l.findSome? g := by
  induction l with
  | nil => rfl
  | cons a l ih =>
    rw [List.findSome?_cons, List.findSome?_cons, h a List.mem_cons_self,
      ih fun b hb => h b (List.mem_cons_of_mem a hb)]

theorem exists_mapM (h : ∀ a ∈ l, ∃ b, f a = .ok b) : ∃ l', l.mapM f = .ok l' := by
  simp only [mapM_eq_ok_iff]
  induction l with
  | nil => exact ⟨[], .nil⟩
  | cons a l ih =>
    rw [List.forall_mem_cons] at h
    obtain ⟨b, hb⟩ := h.1
    obtain ⟨r, hr⟩ := ih h.2
    exact ⟨b :: r, .cons hb hr⟩

theorem length_of_mapM (h : l.mapM f = .ok l') : l'.length = l.length :=
  (mapM_eq_ok_iff.1 h).length_eq.symm

theorem getElem?_of_forall₂ {R : α → β → Prop} (h : List.Forall₂ R l l') {i : Nat} {a : α}
    (ha : l[i]? = some a) : ∃ b, l'[i]? = some b ∧ R a b := by
  induction h generalizing i with
  | nil => cases ha
  | cons hab _ ih =>
    cases i with
    | zero =>
      cases ha
      exact ⟨_, rfl, hab⟩
    | succ i => exact ih ha

theorem mapM_eq_ok_of_map {g : α → β} {good : α → Prop}
    (hf : ∀ a ∈ l, ∀ b, f a = .ok b ↔ good a ∧ b = g a) :
    l.mapM f = .ok l' ↔ (∀ a ∈ l, good a) ∧ l' = l.map g := by
  rw [mapM_eq_ok_iff]
  induction l generalizing l' with
  | nil => simp
  | cons a l ih =>
    rw [List.forall₂_cons_left_iff]
    have step := hf a List.mem_cons_self
    have rest (l' : List β) := @ih l' fun a ha => hf a (List.mem_cons_of_mem _ ha)
    constructor
    · rintro ⟨b, u, hb, hu, rfl⟩
      obtain ⟨hgood, rfl⟩ := (step b).1 hb
      obtain ⟨hall, rfl⟩ := (rest u).1 hu
      exact ⟨List.forall_mem_cons.2 ⟨hgood, hall⟩, rfl⟩
    · rintro ⟨hall, rfl⟩
      rw [List.forall_mem_cons] at hall
      exact ⟨g a, l.map g, (step _).2 ⟨hall.1, rfl⟩, (rest _).2 ⟨hall.2, rfl⟩, rfl⟩

theorem mapM_congr {g : α → Except ε β} (h : ∀ a ∈ l, f a = g a) : l.mapM f = l.mapM g := by
  induction l with
  | nil => rfl
  | cons a l ih =>
    rw [List.mapM_cons, List.mapM_cons, h a List.mem_cons_self,
      ih fun b hb => h b (List.mem_cons_of_mem a hb)]

theorem mapM_eq_filterMap {f : α → Option β} (h : ∀ a ∈ l, (f a).isSome) :
    l.mapM f = some (l.filterMap f) := by
  induction l with
  | nil => rfl
  | cons a l ih =>
    rw [List.forall_mem_cons] at h
    obtain ⟨b, hb⟩ := Option.isSome_iff_exists.1 h.1
    rw [List.mapM_cons, hb, ih h.2, List.filterMap_cons_some hb]
    rfl

theorem mapM_some {f : α → Option β} {g : α → β} (h : ∀ a ∈ l, f a = some (g a)) :
    l.mapM f = some (l.map g) := by
  rw [mapM_eq_filterMap fun a ha => Option.isSome_of_eq_some (h a ha), List.filterMap_congr h,
    List.filterMap_eq_map']

theorem mapM_mapError {δ : Type*} {g : α → Except δ β} {h : ε → δ}
    (hg : ∀ a ∈ l, g a = (f a).mapError h) : l.mapM g = (l.mapM f).mapError h := by
  induction l with
  | nil => rfl
  | cons a l ih =>
    rw [List.mapM_cons, List.mapM_cons, hg a List.mem_cons_self,
      ih fun b hb => hg b (List.mem_cons_of_mem a hb)]
    cases f a with
    | error e => rfl
    | ok b => cases l.mapM f <;> rfl

/-- A look that is always in range finds what the plain look finds. -/
theorem findM?_eq {α : Type} {l : List α} {f : α → Option Bool} {g : α → Bool}
    (h : ∀ a ∈ l, f a = some (g a)) : l.findM? f = some (l.find? g) := by
  induction l with
  | nil => rfl
  | cons a l ih =>
    rw [List.forall_mem_cons] at h
    rw [List.findM?, h.1, List.find?_cons]
    cases g a with
    | false => exact ih h.2
    | true => rfl

theorem find?_of_mem [BEq β] [LawfulBEq β] {key : α → β} (hl : (l.map key).Nodup) {a : α}
    (ha : a ∈ l) : l.find? (fun b => key b == key a) = some a := by
  induction l with
  | nil => cases ha
  | cons b l ih =>
    rw [List.map_cons, List.nodup_cons] at hl
    rw [List.find?_cons]
    rcases List.mem_cons.1 ha with rfl | ha
    · rw [beq_self_eq_true]
    · have hne : key b ≠ key a := fun he => hl.1 (he ▸ List.mem_map_of_mem ha)
      rw [beq_false_of_ne hne]
      exact ih hl.2 ha

theorem getElem?_of_mapM (h : l.mapM f = .ok l') {i : Nat} {b : β} (hb : l'[i]? = some b) :
    ∃ a, l[i]? = some a ∧ f a = .ok b :=
  getElem?_of_forall₂ (mapM_eq_ok_iff.1 h).flip hb

theorem getElem?_of_mapM_zipIdx {f : α × Nat → Except ε β} (h : l.zipIdx.mapM f = .ok l') {i : Nat}
    {b : β} (hb : l'[i]? = some b) : ∃ a, l[i]? = some a ∧ f (a, i) = .ok b := by
  obtain ⟨⟨a, j⟩, ha, hf⟩ := getElem?_of_mapM h hb
  rw [List.getElem?_zipIdx, Option.map_eq_some_iff] at ha
  obtain ⟨a', ha, he⟩ := ha
  simp only [Prod.mk.injEq, Nat.zero_add] at he
  exact ⟨a', ha, by rw [he.1, he.2]; exact hf⟩

theorem forall_mem_zipIdx {P : α → Prop} : (∀ x ∈ l.zipIdx, P x.1) ↔ ∀ a ∈ l, P a := by
  rw [← List.forall_mem_map, List.zipIdx_map_fst]

theorem map_zipIdx {g : α → β} : l.zipIdx.map (fun x => g x.1) = l.map g := by
  rw [← Function.comp_def g, ← List.map_map, List.zipIdx_map_fst]

theorem getElem?_of_idxOf? [BEq α] [LawfulBEq α] {a : α} {i : Nat} (h : l.idxOf? a = some i) :
    l[i]? = some a := by
  obtain ⟨bound, ha, _⟩ := List.findIdx?_eq_some_iff_getElem.1 h
  rw [List.getElem?_eq_getElem bound, eq_of_beq ha]

theorem idxOf?_of_mem [BEq α] [LawfulBEq α] {a : α} (ha : a ∈ l) :
    l.idxOf? a = some (l.idxOf a) := by
  obtain ⟨i, hi⟩ := Option.isSome_iff_exists.1 (List.isSome_idxOf?.2 ha)
  rw [List.idxOf_eq_getD_idxOf?, hi]
  rfl

theorem idxOf?_of_getElem? [BEq α] [LawfulBEq α] (hl : l.Nodup) {a : α} {i : Nat}
    (h : l[i]? = some a) : l.idxOf? a = some i := by
  obtain ⟨bound, rfl⟩ := List.getElem?_eq_some_iff.1 h
  rw [idxOf?_of_mem (List.getElem_mem bound), hl.idxOf_getElem i bound]

theorem idxOf?_map [BEq α] [LawfulBEq α] [BEq β] [LawfulBEq β] {f : α → β} {a : α}
    (h : ∀ b ∈ l, f b = f a → b = a) : (l.map f).idxOf? (f a) = l.idxOf? a := by
  induction l with
  | nil => rfl
  | cons b l ih =>
    rw [List.forall_mem_cons] at h
    rw [List.map_cons, List.idxOf?_cons, List.idxOf?_cons, ih h.2]
    by_cases hb : b = a
    · rw [hb, beq_self_eq_true, beq_self_eq_true]
    · rw [beq_false_of_ne hb, beq_false_of_ne fun hf => hb (h.1 hf)]

theorem getElem?_filterMap {γ : Type*} {f : α → Option γ} (h : ∀ a ∈ l, (f a).isSome) (i : Nat) :
    (l.filterMap f)[i]? = l[i]?.bind f := by
  induction l generalizing i with
  | nil => rfl
  | cons a l ih =>
    obtain ⟨c, hc⟩ := Option.isSome_iff_exists.1 (h a List.mem_cons_self)
    rw [List.filterMap_cons_some hc]
    cases i with
    | zero => exact hc.symm
    | succ i => exact ih (fun a ha => h a (List.mem_cons_of_mem _ ha)) i

theorem head?_filterMap_eq_some {γ : Type*} {f : α → Option γ} {c : γ} :
    (l.filterMap f).head? = some c ↔
      ∃ i : Nat, l[i]?.bind f = some c ∧ ∀ j < i, l[j]?.bind f = none := by
  induction l with
  | nil => simp
  | cons a l ih =>
    cases ha : f a with
    | some b =>
      rw [List.filterMap_cons_some ha, List.head?_cons]
      constructor
      · intro h
        exact ⟨0, ha.trans h, fun j hj => absurd hj (Nat.not_lt_zero j)⟩
      · rintro ⟨i, hi, before⟩
        cases i with
        | zero => exact ha.symm.trans hi
        | succ i => cases ha.symm.trans (before 0 i.succ_pos)
    | none =>
      rw [List.filterMap_cons_none ha, ih]
      constructor
      · rintro ⟨i, hi, before⟩
        refine ⟨i + 1, hi, fun j hj => ?_⟩
        cases j with
        | zero => exact ha
        | succ j => exact before j (Nat.lt_of_succ_lt_succ hj)
      · rintro ⟨i, hi, before⟩
        cases i with
        | zero => cases ha.symm.trans hi
        | succ i => exact ⟨i, hi, fun j hj => before (j + 1) (Nat.succ_lt_succ hj)⟩

/-- Where every step has a counterpart, so has a list of steps, and the results correspond position
by position. -/
theorem mapM_transfer {g : α → Except ε β} {R : α → β → β → Prop} (h : l.mapM f = .ok l')
    (hg : ∀ a ∈ l, ∀ b, f a = .ok b → ∃ b', g a = .ok b' ∧ R a b b') :
    ∃ r, l.mapM g = .ok r ∧ r.length = l'.length ∧ ∀ (i : Nat) (a : α) (b b' : β),
      l[i]? = some a → l'[i]? = some b → r[i]? = some b' → R a b b' := by
  rw [mapM_eq_ok_iff] at h
  simp only [mapM_eq_ok_iff]
  induction h with
  | nil => exact ⟨[], .nil, rfl, fun _ _ _ _ ha => nomatch ha⟩
  | @cons a b l l' hab _ ih =>
    obtain ⟨b', hb', related⟩ := hg a List.mem_cons_self b hab
    obtain ⟨r, hr, hl, rest⟩ := ih fun a ha => hg a (List.mem_cons_of_mem _ ha)
    refine ⟨b' :: r, .cons hb' hr, by rw [List.length_cons, List.length_cons, hl], ?_⟩
    intro i x y y' hx hy hy'
    cases i with
    | zero =>
      cases hx
      cases hy
      cases hy'
      exact related
    | succ i => exact rest i x y y' hx hy hy'

theorem forM_eq_ok {f : α → Except ε PUnit} : l.forM f = .ok () ↔ ∀ a ∈ l, f a = .ok () := by
  induction l with
  | nil => exact iff_of_true rfl fun _ ha => nomatch ha
  | cons a l ih =>
    rw [List.forall_mem_cons, ← ih]
    change (f a >>= fun _ => l.forM f) = .ok () ↔ _
    cases f a <;> simp [bind, Except.bind]

theorem exists_of_forM_eq_error {f : α → Except ε PUnit} {cause : ε} (h : l.forM f = .error cause) :
    ∃ a ∈ l, f a = .error cause := by
  induction l with
  | nil => cases h
  | cons a l ih =>
    change (f a >>= fun _ => l.forM f) = .error cause at h
    cases ha : f a with
    | error e =>
      rw [ha] at h
      exact ⟨a, List.mem_cons_self, ha.trans h⟩
    | ok _ =>
      rw [ha] at h
      obtain ⟨b, hb, refused⟩ := ih h
      exact ⟨b, List.mem_cons_of_mem a hb, refused⟩

/-- What every step that succeeds keeps holds at the end of a fold that succeeds. -/
theorem foldlM_invariant {P : β → Prop} {f : β → α → Option β} {b b' : β}
    (step : ∀ b a b', P b → f b a = some b' → P b') (h : l.foldlM f b = some b') (start : P b) :
    P b' := by
  induction l generalizing b with
  | nil =>
    cases h
    exact start
  | cons a l ih =>
    rw [List.foldlM_cons, Option.bind_eq_bind, Option.bind_eq_some_iff] at h
    obtain ⟨c, hc, h⟩ := h
    exact ih h (step b a c start hc)

/-- Where no step of a fold fails as long as an invariant holds, the fold does not fail. -/
theorem foldlM_eq_foldl {γ : Type*} {P : β → Prop} {f : β → α → Option β} {g : β → γ → β}
    {key : α → γ} {b : β}
    (step : ∀ b, P b → ∀ a ∈ l, f b a = some (g b (key a)) ∧ P (g b (key a))) (start : P b) :
    l.foldlM f b = some ((l.map key).foldl g b) ∧ P ((l.map key).foldl g b) := by
  induction l generalizing b with
  | nil => exact ⟨rfl, start⟩
  | cons a l ih =>
    obtain ⟨first, next⟩ := step b start a List.mem_cons_self
    have rest := ih (fun b hb c hc => step b hb c (List.mem_cons_of_mem a hc)) next
    rw [List.foldlM_cons, first, Option.bind_eq_bind, Option.bind_some]
    exact rest

theorem foldl_prefix {P : List α → β → Prop} {f : β → α → β} {l : List α} {b : β}
    (start : P [] b)
    (step : ∀ done a rest b, l = done ++ a :: rest → P done b → P (done ++ [a]) (f b a)) :
    P l (l.foldl f b) := by
  have later (rest done : List α) (b : β) (hl : l = done ++ rest) (hb : P done b) :
      P l (rest.foldl f b) := by
    induction rest generalizing done b with
    | nil =>
      rw [List.append_nil] at hl
      exact hl ▸ hb
    | cons a rest ih => exact ih (done ++ [a]) (f b a) (by simp [hl]) (step done a rest b hl hb)
  exact later l [] b rfl start

theorem exists_of_forall₂ {R : α → β → Prop} (h : List.Forall₂ R l l') {a : α} (ha : a ∈ l) :
    ∃ b ∈ l', R a b := by
  obtain ⟨i, hi⟩ := List.getElem?_of_mem ha
  obtain ⟨b, hb, related⟩ := getElem?_of_forall₂ h hi
  exact ⟨b, List.mem_of_getElem? hb, related⟩

theorem map_of_forall₂ {γ : Type*} {R : α → β → Prop} {f : α → γ} {g : β → γ}
    (h : List.Forall₂ R l l') (hg : ∀ a b, R a b → g b = f a) : l'.map g = l.map f := by
  induction h with
  | nil => rfl
  | cons hab _ ih => rw [List.map_cons, List.map_cons, hg _ _ hab, ih]

theorem filterMap_of_forall₂ {γ δ : Type*} {R : α → β → Prop} {f : α → Option γ}
    {g : β → Option δ} {k : γ → δ} (h : List.Forall₂ R l l')
    (hg : ∀ a b, R a b → g b = (f a).map k) : l'.filterMap g = (l.filterMap f).map k := by
  rw [List.map_filterMap]
  have same := congrArg (List.filterMap id) (map_of_forall₂ h hg)
  rwa [List.filterMap_map, List.filterMap_map] at same

theorem foldl_forall₂ {γ δ : Type*} {R : α → β → Prop} {P : List α → γ → δ → Prop}
    {f : γ → α → γ} {g : δ → β → δ} {c : γ} {d : δ} (h : List.Forall₂ R l l') (start : P [] c d)
    (step : ∀ done a rest b c d, l = done ++ a :: rest → R a b → P done c d →
      P (done ++ [a]) (f c a) (g d b)) : P l (l.foldl f c) (l'.foldl g d) := by
  have later (rest : List α) (rest' : List β) (hr : List.Forall₂ R rest rest') (done : List α)
      (c : γ) (d : δ) (hl : l = done ++ rest) (hp : P done c d) :
      P l (rest.foldl f c) (rest'.foldl g d) := by
    induction hr generalizing done c d with
    | nil =>
      rw [List.append_nil] at hl
      exact hl ▸ hp
    | @cons a b rest _ hab _ ih =>
      exact ih (done ++ [a]) (f c a) (g d b) (by simp [hl]) (step done a rest b c d hl hab hp)
  exact later l l' h [] c d rfl start

/-- What stands before something that stands only once stands in front of it. -/
theorem mem_of_sublist {a b : α} {l₁ l₂ : List α} (h : [a, b].Sublist (l₁ ++ b :: l₂))
    (once : b ∉ l₂) : a ∈ l₁ := by
  obtain ⟨front, back, hl, hf, hb⟩ := List.sublist_append_iff.1 h
  cases front with
  | nil =>
    rw [List.nil_append] at hl
    subst hl
    cases hb with
    | cons _ hb => exact absurd (hb.mem (List.mem_cons_of_mem a (List.mem_singleton_self b))) once
    | cons_cons _ hb => exact absurd (hb.mem (List.mem_singleton_self _)) once
  | cons c front =>
    obtain ⟨rfl, -⟩ := List.cons.inj hl
    exact hf.mem List.mem_cons_self

end Patchbay
