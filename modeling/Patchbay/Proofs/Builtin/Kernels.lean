import Mathlib.Data.List.Nodup
import Patchbay.Builtin
import Patchbay.Promotion
import Patchbay.Proofs.Plan.Rendering

/-! # The bodies of built-in operators

A body is foreseen when its length depends on no cell that can change between blocks: only on the
configuration, on which slots are attached, on the lengths of the legs, and on the values of slots
that must be known early. The built-in bodies are, and none of them leaves a cell in its buffer that
shows in the next block, not even those that write only a part of it.
-/

namespace Patchbay

variable [Platform]

def Kernel.Foreseen (k : Kernel) (slots : List Slot) : Prop :=
  ∀ q q' : Query, q.config = q'.config → q.attached = q'.attached →
    q.legs.map List.length = q'.legs.map List.length →
    (∀ (i : Nat) (s : Slot), slots[i]? = some s → s.compileTime = true → q.legs[i]? = q'.legs[i]?) →
      k.length q = k.length q'

/-- A body that can be planned ahead and run again and again. -/
structure Kernel.Regular (k : Kernel) (slots : List Slot) : Prop where
  foreseen : k.Foreseen slots
  lawful : k.Lawful

omit [Platform] in
theorem Legs.length_leg (legs : Legs) (slot : Nat) :
    (legs.leg slot).length = ((legs.map List.length)[slot]?).getD 0 := by
  rw [leg, List.getElem?_map]
  cases legs[slot]? <;> rfl

omit [Platform] in
theorem pour_pour {a b out : Cells} (h : a.length = b.length) :
    pour a (pour b out) = pour a out := by
  have rest : (pour b out).drop a.length = out.drop a.length := by
    rw [pour, h]
    by_cases hle : b.length ≤ out.length
    · rw [List.take_of_length_le hle, List.drop_left]
    · have short : out.length ≤ b.length := Nat.le_of_not_le hle
      rw [List.drop_of_length_le short, List.append_nil, List.drop_of_length_le]
      exact (List.length_take_le _ _).trans short
  rw [pour, length_pour, rest, pour]

namespace Kernel
variable {k : Kernel}

/-- A body overwrites all of a buffer of its own length, also in later blocks. -/
def Whole (k : Kernel) : Prop :=
  ∀ (q : Query) (n : Nat) (host : Host) (legs : Legs) (out : Cells), k.length q = .ok n →
    legs.map List.length = q.legs.map List.length → out.length = n →
      k.fill q.config host legs out = k.fill q.config host legs (List.replicate n .zero)

theorem Whole.lawful (h : k.Whole) : k.Lawful := by
  intro q n host legs hq _ host' legs' lengths
  have length : (k.fill q.config host legs (List.replicate n .zero)).length = n := by
    rw [k.length_fill, List.length_replicate]
  rw [h q n host' legs' _ hq lengths length, length]

/-- A body that overwrites a part of its buffer that the lengths of the legs decide. -/
theorem lawful_of_pour (f : Legs → Cells)
    (h : ∀ config host legs out, k.fill config host legs out = pour (f legs) out)
    (part : ∀ legs legs' : Legs, legs.map List.length = legs'.map List.length →
      (f legs).length = (f legs').length) : k.Lawful := by
  intro q n host legs _ hl host' legs' hl'
  rw [h, h, h, length_pour, List.length_replicate, pour_pour (part _ _ (hl'.trans hl.symm))]

end Kernel

namespace Builtin

omit [Platform] in
theorem pour_eq_of_length {source out out' : Cells} (h : out.length = source.length)
    (h' : out'.length = source.length) : pour source out = pour source out' := by
  rw [pour_of_length_eq h, pour_of_length_eq h']

section Lengths
variable {q q' : Query} (hc : q.config = q'.config) (ha : q.attached = q'.attached)
  (hl : q.legs.map List.length = q'.legs.map List.length)

include hl in
omit [Platform] in
theorem length_congr (slot : Nat) : q.length slot = q'.length slot := by
  rw [Query.length, Query.length, Legs.length_leg, Legs.length_leg, hl]

include hl in
omit [Platform] in
theorem widest_congr : widest q = widest q' := by
  have max (legs : Legs) (n : Nat) : legs.foldl (fun n leg => max n leg.length) n =
      (legs.map List.length).foldl Nat.max n := by
    rw [List.foldl_map]
  rw [widest, widest, max, max, hl]

omit [Platform] in
theorem countLength_congr {slot : Nat} (h : q.legs[slot]? = q'.legs[slot]?) :
    countLength q slot = countLength q' slot := by
  rw [countLength, countLength, Legs.integer, Legs.integer, Legs.leg, Legs.leg, h]

end Lengths

/-! ### One by one -/

theorem whole_binary (b : Binary) : b.kernel.Whole := by
  intro q n host legs out hq lengths hn
  have sizes (slot : Nat) : (legs.leg slot).length = q.length slot := by
    rw [Legs.length_leg, lengths, Query.length, Legs.length_leg]
  simp only [Binary.kernel] at hq ⊢
  cases hm : Broadcast.ofConfig q.config with
  | error f => simp [hm, Except.map] at hq
  | ok mode =>
    simp only [hm, Except.map, Except.ok.injEq] at hq
    rw [Except.toOption, Option.getD_some]
    cases mode with
    | pad | truncate => simp [Binary.fill, hn]
    | outer =>
      have whole : (b.product (legs.leg 0) (legs.leg 1)).length = n := by
        simp [Binary.product, ← hq, sizes, Broadcast.length]
      exact pour_eq_of_length (hn.trans whole.symm) (by rw [List.length_replicate, whole])

theorem regular_binary (b : Binary) (slots : List Slot) : b.kernel.Regular slots where
  foreseen q q' hc _ hl _ := by
    simp only [Binary.kernel, hc, length_congr hl]
  lawful := (whole_binary b).lawful

theorem whole_map (f : Decimal → Cell) : (mapKernel f).Whole := by
  intro q n host legs out hq lengths hn
  have whole : ((legs.leg 0).map fun c => f c.decimal).length = n := by
    rw [List.length_map, Legs.length_leg, lengths, ← Legs.length_leg]
    exact Except.ok.inj hq
  exact pour_eq_of_length (hn.trans whole.symm) (by rw [List.length_replicate, whole])

theorem regular_map (f : Decimal → Cell) (slots : List Slot) : (mapKernel f).Regular slots where
  foreseen q q' _ _ hl _ := by
    simp only [mapKernel, length_congr hl]
  lawful := (whole_map f).lawful

theorem whole_blend : blendKernel.Whole := fun q n host legs out _ _ hn => by simp [blendKernel, hn]

theorem regular_blend (slots : List Slot) : blendKernel.Regular slots where
  foreseen q q' _ ha hl _ := by
    have attached (slot : Nat) : q.isAttached slot = q'.isAttached slot := by
      rw [Query.isAttached, Query.isAttached, ha]
    simp only [blendKernel, length_congr hl, attached]
  lawful := whole_blend.lawful

omit [Platform] in
theorem length_select (condition a b : Cells) :
    (select condition a b).length = max a.length b.length := by
  simp [select]

theorem regular_select (slots : List Slot) : selectKernel.Regular slots where
  foreseen q q' _ _ hl _ := by
    simp only [selectKernel, widest_congr hl]
  lawful := by
    refine Kernel.lawful_of_pour (fun legs => select (legs.leg 0) (legs.leg 1) (legs.leg 2))
      (fun _ _ _ _ => rfl) fun legs legs' hl => ?_
    simp only [length_select, Legs.length_leg, hl]

theorem whole_compare (holds : Decimal → Decimal → Bool) : (compareKernel holds).Whole :=
  fun q n host legs out _ _ hn => by simp [compareKernel, hn]

theorem regular_compare (holds : Decimal → Decimal → Bool) (slots : List Slot) :
    (compareKernel holds).Regular slots where
  foreseen q q' _ _ hl _ := by
    simp only [compareKernel, widest_congr hl]
  lawful := (whole_compare holds).lawful

theorem whole_pass : passKernel.Whole := by
  intro q n host legs out hq lengths hn
  have whole : (legs.leg 0).length = n := by
    rw [Legs.length_leg, lengths, ← Legs.length_leg]
    exact Except.ok.inj hq
  exact pour_eq_of_length (hn.trans whole.symm) (by rw [List.length_replicate, whole])

theorem regular_pass (slots : List Slot) : passKernel.Regular slots where
  foreseen q q' _ _ hl _ := by
    simp only [passKernel, length_congr hl]
  lawful := whole_pass.lawful

theorem whole_literal (f : Decimal → Cell) : (literalKernel f).Whole :=
  fun q n host legs out _ _ hn => by simp [literalKernel, hn]

theorem regular_literal (f : Decimal → Cell) (slots : List Slot) :
    (literalKernel f).Regular slots where
  foreseen _ _ _ _ _ _ := rfl
  lawful := (whole_literal f).lawful

theorem whole_literals : literalsKernel.Whole := by
  intro q n host legs out hq _ hn
  have whole : (((parseValues q.config).toOption.getD []).map Cell.ofDecimal).length = n := by
    simp only [literalsKernel] at hq
    cases hv : parseValues q.config with
    | error f => simp [hv, Except.map] at hq
    | ok values =>
      simp only [hv, Except.map, Except.ok.injEq] at hq
      simp [Except.toOption, hq]
  exact pour_eq_of_length (hn.trans whole.symm) (by rw [List.length_replicate, whole])

theorem regular_literals (slots : List Slot) : literalsKernel.Regular slots where
  foreseen q q' hc _ _ _ := by
    simp only [literalsKernel, hc]
  lawful := whole_literals.lawful

theorem whole_range : rangeKernel.Whole := fun q n host legs out _ _ hn => by simp [rangeKernel, hn]

theorem regular_range {slots : List Slot} (h : slots[1]? = some (countSlot "step count")) :
    rangeKernel.Regular slots where
  foreseen _ _ _ _ _ early := countLength_congr (early 1 _ h rfl)
  lawful := whole_range.lawful

theorem whole_repeat : repeatKernel.Whole :=
  fun q n host legs out _ _ hn => by simp [repeatKernel, hn]

theorem regular_repeat {slots : List Slot} (h : slots[1]? = some (countSlot "n")) :
    repeatKernel.Regular slots where
  foreseen _ _ _ _ _ early := countLength_congr (early 1 _ h rfl)
  lawful := whole_repeat.lawful

theorem whole_stream (neutral : Cell) (f : Stream → Cell) : (streamKernel neutral f).Whole :=
  fun q n host legs out _ _ hn => by simp [streamKernel, hn]

theorem regular_stream (neutral : Cell) (f : Stream → Cell) (slots : List Slot) :
    (streamKernel neutral f).Regular slots where
  foreseen _ _ _ _ _ _ := rfl
  lawful := (whole_stream neutral f).lawful

theorem whole_noise : noiseKernel.Whole := fun q n host legs out _ _ hn => by simp [noiseKernel, hn]

theorem regular_noise {slots : List Slot} (h : slots[2]? = some (countSlot "n")) :
    noiseKernel.Regular slots where
  foreseen _ _ _ _ _ early := countLength_congr (early 2 _ h rfl)
  lawful := whole_noise.lawful

theorem whole_notes : notesKernel.Whole := by
  intro q n host legs out hq _ hn
  have size : noteCount = n := Except.ok.inj hq
  simp only [notesKernel, hn, List.length_replicate]
  cases host.stream? with
  | none => rfl
  | some s => exact pour_eq_of_length (by simp [hn, ← size]) (by simp [← size])

theorem regular_notes (slots : List Slot) : notesKernel.Regular slots where
  foreseen _ _ _ _ _ _ := rfl
  lawful := whole_notes.lawful

end Builtin

/-- An operator that a graph can be compiled with once and run from then on. -/
structure Operator.Regular (op : Operator) : Prop where
  input : op.isInput = true → op.slots = [] ∧ op.live = false
  kernel : ∀ k, op.body = .kernel k → k.Regular op.slots
  promoted : ∀ u, op.template? = some u → op.slots = u.net.promotedSlots

namespace Operator
variable {op : Operator}

theorem regular_of_kernel {k : Kernel} (hb : op.body = .kernel k) (h : k.Regular op.slots) :
    op.Regular ∧ op.template? = none where
  left :=
    { input hi := by simp [isInput, hb] at hi
      kernel k' hk := by
        cases hb.symm.trans hk
        exact h
      promoted u hu := by simp [template?, hb] at hu }
  right := by simp [template?, hb]

theorem regular_input (id : OperatorId) : (input id).Regular ∧ (input id).template? = none where
  left :=
    { input _ := ⟨rfl, rfl⟩
      kernel _ hk := nomatch hk
      promoted _ hu := nomatch hu }
  right := rfl

end Operator

namespace Catalog
variable {c : Catalog} {ops : List Operator} {op : Operator}

theorem perm_insertInOrder (o : Operator) (l : List Operator) :
    (insertInOrder o l).Perm (o :: l) := by
  induction l with
  | nil => exact .refl _
  | cons a l ih =>
    rw [insertInOrder]
    split
    · exact .refl _
    · exact (ih.cons a).trans (.swap o a l)

theorem mem_of_mem_addMissing (h : op ∈ (c.addMissing ops).operators) :
    op ∈ c.operators ∨ op ∈ ops := by
  induction ops generalizing c with
  | nil => exact .inl h
  | cons o ops ih =>
    rcases ih h with hm | hm
    · dsimp only at hm
      split at hm
      · exact .inl hm
      · rcases List.mem_cons.1 ((perm_insertInOrder o _).mem_iff.1 hm) with rfl | hm
        · exact .inr List.mem_cons_self
        · exact .inl hm
    · exact .inr (List.mem_cons_of_mem _ hm)

/-- Only operators with free identities are added, so no identity is there twice. -/
theorem nodup_addMissing (h : (c.operators.map (·.id)).Nodup) :
    ((c.addMissing ops).operators.map (·.id)).Nodup := by
  induction ops generalizing c with
  | nil => exact h
  | cons o ops ih =>
    apply ih
    dsimp only
    split
    · exact h
    · rename_i free
      rw [((perm_insertInOrder o _).map _).nodup_iff, List.map_cons, List.nodup_cons]
      refine ⟨fun taken => free ?_, h⟩
      obtain ⟨op, hop, he⟩ := List.mem_map.1 taken
      exact List.find?_isSome.2 ⟨op, hop, beq_iff_eq.2 he⟩

end Catalog

namespace Builtin
open Operator

theorem regular_vector : ∀ op ∈ vector, op.Regular ∧ op.template? = none := by
  simp only [vector, List.forall_mem_cons]
  exact ⟨regular_input _, regular_of_kernel rfl (regular_pass _),
    regular_of_kernel rfl (regular_literal _ _), regular_of_kernel rfl (regular_literals _),
    regular_of_kernel rfl (regular_literal _ _), regular_of_kernel rfl (regular_range rfl),
    regular_of_kernel rfl (regular_repeat rfl), fun _ h => nomatch h⟩

theorem regular_arithmetic : ∀ op ∈ arithmetic, op.Regular ∧ op.template? = none := by
  simp only [arithmetic, List.forall_mem_cons]
  exact ⟨regular_of_kernel rfl (regular_binary _ _), regular_of_kernel rfl (regular_binary _ _),
    regular_of_kernel rfl (regular_binary _ _), regular_of_kernel rfl (regular_binary _ _),
    regular_of_kernel rfl (regular_map _ _), regular_of_kernel rfl (regular_map _ _),
    regular_of_kernel rfl (regular_map _ _), regular_of_kernel rfl (regular_blend _),
    fun _ h => nomatch h⟩

theorem regular_logic : ∀ op ∈ logic, op.Regular ∧ op.template? = none := by
  simp only [logic, List.forall_mem_cons]
  exact ⟨regular_of_kernel rfl (regular_select _), regular_of_kernel rfl (regular_compare _ _),
    regular_of_kernel rfl (regular_compare _ _), fun _ h => nomatch h⟩

theorem regular_transport : ∀ op ∈ transport, op.Regular ∧ op.template? = none := by
  simp only [transport, List.forall_mem_cons]
  exact ⟨regular_of_kernel rfl (regular_stream _ _ _), regular_of_kernel rfl (regular_stream _ _ _),
    regular_of_kernel rfl (regular_noise rfl), regular_of_kernel rfl (regular_notes _),
    fun _ h => nomatch h⟩

/-- All built-in operators are regular, and none holds a net. -/
theorem regular_of_mem {op : Operator} (h : op ∈ operators) :
    op.Regular ∧ op.template? = none := by
  simp only [operators, List.mem_append] at h
  rcases h with ((h | h) | h) | h
  · exact regular_vector op h
  · exact regular_arithmetic op h
  · exact regular_logic op h
  · exact regular_transport op h

theorem mem_operators {op : Operator} (h : op ∈ catalog.operators) : op ∈ operators :=
  (Catalog.mem_of_mem_addMissing h).resolve_left fun hm => nomatch hm

theorem nodup_operators : (operators.map (·.id)).Nodup := of_decide_eq_true rfl

theorem eq_of_id {op op' : Operator} (h : op ∈ operators) (h' : op' ∈ operators)
    (he : op.id = op'.id) : op = op' :=
  List.inj_on_of_nodup_map nodup_operators h h' he

/-- The catalog has its operators under distinct identities, so it finds each of them. -/
theorem find?_catalog {op : Operator} (h : op ∈ catalog.operators) :
    catalog.find? op.id = some op := by
  have distinct : (catalog.operators.map (·.id)).Nodup :=
    Catalog.nodup_addMissing (c := .empty) List.nodup_nil
  exact find?_of_mem distinct h

end Builtin
end Patchbay
