import Patchbay.Generator
import Patchbay.Plan.Guarded
import Patchbay.Proofs.Plan.Static

/-! # Guards that never fail

On a buffer of the planned length, every slice and every split of a step is in range: the region
that the step writes starts the part behind the split, and what it reads lies in the part before. So
the guards of a step change nothing, when those in the blocks of promoted nodes do not.
-/

namespace Patchbay

/-! ### Slices -/

section Slices
variable {α : Type} {l : List α}

theorem split?_eq {i : Nat} (h : i ≤ l.length) : split? l i = some (l.take i, l.drop i) := by
  simp [split?, h, List.splitAt_eq]

theorem slice?_eq {start stop : Nat} (h : start ≤ stop) (hl : stop ≤ l.length) :
    slice? l start stop = some ((l.drop start).take (stop - start)) := by
  simp [slice?, h, hl]

variable {field : Cells} {r : Region}

theorem slice?_region (h : r.stop ≤ field.length) :
    slice? field r.offset r.stop = some (r.read field) := by
  have start : r.offset ≤ r.stop := by
    rw [Region.stop]
    omega
  rw [slice?_eq start h, Region.stop, Nat.add_sub_cancel_left, Region.read]

theorem slice?_take {i : Nat} (h : r.stop ≤ i) (hi : i ≤ field.length) :
    slice? (field.take i) r.offset r.stop = some (r.read field) := by
  have inside : r.stop ≤ (field.take i).length := by
    rw [List.length_take]
    omega
  have room : r.length ≤ i - r.offset := by
    rw [Region.stop] at h
    omega
  rw [slice?_region inside, Region.read, Region.read, List.drop_take, List.take_take,
    Nat.min_eq_left room]

/-- A region is the start of the part behind the split at its offset. -/
theorem slice?_drop (h : r.stop ≤ field.length) :
    slice? (field.drop r.offset) 0 r.length = some (r.read field) := by
  have room : r.length ≤ (field.drop r.offset).length := by
    rw [Region.stop] at h
    rw [List.length_drop]
    omega
  rw [slice?_eq (Nat.zero_le _) room, List.drop_zero, Nat.sub_zero, Region.read]

theorem copyStart?_eq (source out : Cells) :
    copyStart? source out = some (source.take out.length, out.drop source.length) := by
  have given : source.take (min source.length out.length) = source.take out.length := by
    rw [List.take_eq_take_iff]
    omega
  have rest : out.drop (min source.length out.length) = out.drop source.length := by
    by_cases h : source.length ≤ out.length
    · rw [Nat.min_eq_left h]
    · rw [Nat.min_eq_right (by omega), List.drop_length, List.drop_of_length_le (by omega)]
  have length : (source.take out.length).length =
      (out.take (min source.length out.length)).length := by
    simp only [List.length_take]
    omega
  rw [copyStart?, slice?_eq (Nat.zero_le _) (Nat.min_le_left _ _), split?_eq (Nat.min_le_right _ _)]
  simp [given, rest, length]

end Slices

namespace Plan

/-! ### The table of legs -/

theorem map_located (start : Nat) (steps : List Step) :
    (located start steps).map (·.2) = steps := by
  induction steps generalizing start with
  | nil => rfl
  | cons step rest ih => simp [located, ih]

theorem mem_of_located {start k : Nat} {steps : List Step} {step : Step}
    (h : (k, step) ∈ located start steps) : step ∈ steps := by
  rw [← map_located start steps]
  exact List.mem_map_of_mem h

/-- Behind any front, every step finds its legs in the table where it looks for them. -/
theorem slice?_located (front : List Region) {steps : List Step} {start : Nat} {step : Step}
    (h : (start, step) ∈ located front.length steps) :
    slice? (front ++ steps.flatMap Step.legs) start (start + step.legs.length) =
      some step.legs := by
  induction steps generalizing front with
  | nil => cases h
  | cons s rest ih =>
    rw [located, List.mem_cons] at h
    rw [List.flatMap_cons]
    rcases h with h | h
    · cases h
      rw [slice?_eq (Nat.le_add_right _ _) (by simp only [List.length_append]; omega)]
      simp
    · rw [← List.append_assoc]
      apply ih
      rwa [List.length_append]

variable [Platform] {plan : Plan}

/-- What the layout of a plan grants the guards. -/
structure Bounded (plan : Plan) : Prop where
  inside : plan.Inside
  reads : ∀ step ∈ plan.steps, ∀ r ∈ step.reads, r.stop ≤ step.dest.offset
  planned : ∀ n legs dest, .evaluate n legs dest ∈ plan.steps → (plan.node? n).isSome
  output : plan.outputRegion.stop ≤ plan.field.length

def innerGuarded (plan : Plan) (n : NodeId) : Option (State → Host → Legs → Option Block) :=
  (plan.inner? n).map runGuarded

theorem runGuarded_eq (plan : Plan) (s : State) (host : Host) (externals : Legs) :
    plan.runGuarded s host externals = plan.runGuardedWith plan.innerGuarded s host externals := by
  rw [runGuarded]
  congr 1
  funext n
  rw [innerGuarded]
  split <;> rename_i hp <;> rw [hp] <;> rfl

section Guards
variable {x : State × Host} {dest : Region} (externals : Legs) (start : Nat)

theorem stepGuarded_read (hd : dest.stop ≤ x.1.field.length) (n : NodeId) (index : Option Nat)
    (fallback : Cell) :
    plan.stepGuarded plan.innerGuarded externals x (start, .read n index fallback dest) =
      some (plan.stepWith plan.runInner externals x (.read n index fallback dest)) := by
  simp [stepGuarded, stepWith, slice?_region hd, copyStart?_eq, fit, Region.length_read hd]

theorem offset_le (hd : dest.stop ≤ x.1.field.length) : dest.offset ≤ x.1.field.length := by
  rw [Region.stop] at hd
  omega

theorem stepGuarded_convert (hd : dest.stop ≤ x.1.field.length) {source : Region}
    (hs : source.stop ≤ dest.offset) (written reader : Kind) :
    plan.stepGuarded plan.innerGuarded externals x (start, .convert source dest written reader) =
      some (plan.stepWith plan.runInner externals x (.convert source dest written reader)) := by
  simp [stepGuarded, stepWith, split?_eq (offset_le hd), slice?_drop hd,
    slice?_take hs (offset_le hd)]

omit [Platform] in
theorem mapM_slice? {legs : List Region} {field : Cells} {i : Nat} (hi : i ≤ field.length)
    (hr : ∀ r ∈ legs, r.stop ≤ i) :
    (legs.mapM fun r => slice? (field.take i) r.offset r.stop) =
      some (legs.map fun r => r.read field) :=
  mapM_some fun r hm => slice?_take (hr r hm) hi

/-- The guards of a body change nothing, when those in the block of a promoted node do not. -/
theorem stepGuarded_evaluate (hd : dest.stop ≤ x.1.field.length) {n : NodeId} {legs : List Region}
    (hr : ∀ r ∈ legs, r.stop ≤ dest.offset)
    (table : slice? plan.legTable start (start + legs.length) = some legs)
    (hn : (plan.node? n).isSome)
    (inner : ∀ p child, plan.inner? n = some p → x.1.inner.lookup n = some child →
      ∀ host legs, p.runGuarded child host legs = some (p.run child host legs)) :
    plan.stepGuarded plan.innerGuarded externals x (start, .evaluate n legs dest) =
      some (plan.stepWith plan.runInner externals x (.evaluate n legs dest)) := by
  obtain ⟨p, hp⟩ := Option.isSome_iff_exists.1 hn
  simp only [stepGuarded, stepWith, split?_eq (offset_le hd), slice?_drop hd, table,
    mapM_slice? (offset_le hd) hr, hp, Option.bind_eq_bind, Option.bind_some]
  cases p.operator.body with
  | kernel k => rfl
  | input => rfl
  | promoted t =>
    dsimp only [innerGuarded, runInner]
    cases hq : plan.inner? n with
    | none => cases x.1.inner.lookup n <;> rfl
    | some q =>
      cases hc : x.1.inner.lookup n with
      | none => rfl
      | some child => simp [inner q child hq hc, copyStart?_eq, pour]

end Guards

/-- The guards of a step change nothing on a buffer of the planned length, when those in the blocks
of promoted nodes do not. -/
theorem stepGuarded_eq (h : plan.Bounded) {x : State × Host}
    (hl : x.1.field.length = plan.field.length)
    (inner : ∀ n p child, plan.inner? n = some p → x.1.inner.lookup n = some child →
      ∀ host legs, p.runGuarded child host legs = some (p.run child host legs))
    (externals : Legs) {start : Nat} {step : Step} (hs : (start, step) ∈ located 0 plan.steps) :
    plan.stepGuarded plan.innerGuarded externals x (start, step) =
      some (plan.stepWith plan.runInner externals x step) := by
  have mem : step ∈ plan.steps := mem_of_located hs
  have inside : step.dest.stop ≤ x.1.field.length := hl ▸ h.inside step mem
  have reads := h.reads step mem
  have table := slice?_located [] hs
  cases step with
  | read n index fallback dest => exact stepGuarded_read externals start inside n index fallback
  | convert source dest written reader =>
    apply stepGuarded_convert externals start inside
    exact reads source (List.mem_singleton_self source)
  | evaluate n legs dest =>
    apply stepGuarded_evaluate externals start inside reads table (h.planned n legs dest mem)
    exact inner n

/-- On a buffer that is shorter than planned a block fails. -/
example : (⟨[], [.read 0 none .zero ⟨0, 1⟩], [.zero], 0⟩ : Plan).runGuarded ⟨[], []⟩ .detached []
    = none := by cbv

end Plan
end Patchbay
