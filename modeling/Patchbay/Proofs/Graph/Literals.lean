import Patchbay.Graph.Document
import Patchbay.Proofs.Builtin.Kernels
import Patchbay.Proofs.Decimal.Whole

/-! # Cells that are written as literals

What an open slot reads is saved as a literal of the kind of the slot. A cell comes back when some
literal stands for it: every cell of a decimal or of a wildcard, the two truth values, and the
integers that a decimal holds exactly, with the greatest of all.
-/

namespace Patchbay

namespace Cell
variable {c : Cell} {k : Kind}

/-- The cells of a kind that a literal stands for. -/
def Exact (c : Cell) : Kind → Prop
  | .decimal | .any => True
  | .boolean => c = ofBoolean false ∨ c = ofBoolean true
  | .integer => c.integer = Int64.maxValue ∨ Decimal.Exact c.integer.toInt.natAbs

theorem ofInteger_integer (c : Cell) : ofInteger c.integer = c := rfl

theorem integer_ofInteger (i : Int64) : (ofInteger i).integer = i := rfl

theorem ofInteger_eq_iff {i : Int64} : ofInteger i = c ↔ i = c.integer := by
  constructor
  · rintro rfl
    exact (integer_ofInteger i).symm
  · rintro rfl
    exact ofInteger_integer c

theorem exact_ofLiteral (x : Decimal) (k : Kind) : (ofLiteral x k).Exact k := by
  cases k with
  | decimal | any => trivial
  | boolean =>
    rw [ofLiteral, Exact]
    cases (⟨0x3fe0000000000000⟩ : Decimal).less x with
    | false => exact .inl rfl
    | true => exact .inr rfl
  | integer => exact x.exact_roundToInt64

/-- A cell that is written as a literal and read again is the same exactly when a literal stands for
it. -/
theorem ofLiteral_literal_iff : ofLiteral (c.literal k) k = c ↔ c.Exact k := by
  cases k with
  | decimal | any => exact iff_of_true rfl trivial
  | boolean =>
    constructor
    · intro h
      exact h ▸ exact_ofLiteral (c.literal .boolean) .boolean
    · rintro (rfl | rfl)
      · decide +kernel
      · decide +kernel
  | integer => exact ofInteger_eq_iff.trans (Decimal.roundToInt64_ofInt_iff c.integer)

theorem ofLiteral_literal_ofLiteral (x : Decimal) (k : Kind) :
    ofLiteral ((ofLiteral x k).literal k) k = ofLiteral x k :=
  ofLiteral_literal_iff.2 (exact_ofLiteral x k)

end Cell

variable [Platform]

/-- What the slots of an operator read by themselves are cells that literals stand for. -/
def Operator.Literal (op : Operator) : Prop :=
  ∀ slot ∈ op.slots, ∃ x, slot.default = .ofLiteral x slot.kind

theorem Operator.Literal.ofLiteral_default {op : Operator} (h : op.Literal) {slot : Slot}
    (hs : slot ∈ op.slots) : Cell.ofLiteral (slot.default.literal slot.kind) slot.kind =
      slot.default := by
  obtain ⟨x, hx⟩ := h slot hs
  rw [hx, Cell.ofLiteral_literal_ofLiteral]

theorem Builtin.literal_of_mem {op : Operator} (h : op ∈ Builtin.catalog.operators) :
    op.Literal := by
  have evaluated : Builtin.operators.all (fun op => op.slots.all fun slot =>
      (slot.kind != .integer || slot.default == .ofInteger 1) &&
        (slot.kind != .boolean || slot.default == .zero)) = true := rfl
  intro slot hs
  have checked :=
    List.all_eq_true.1 (List.all_eq_true.1 evaluated op (Builtin.mem_operators h)) slot hs
  rw [Bool.and_eq_true] at checked
  obtain ⟨name, kind, length, compileTime, default⟩ := slot
  cases kind with
  | decimal | any => exact ⟨default.literal .decimal, rfl⟩
  | integer =>
    have one : Cell.ofLiteral 1 .integer = .ofInteger 1 := by decide +kernel
    exact ⟨1, (beq_iff_eq.1 checked.1).trans one.symm⟩
  | boolean =>
    have zero : Cell.ofLiteral 0 .boolean = .zero := by decide +kernel
    exact ⟨0, (beq_iff_eq.1 checked.2).trans zero.symm⟩

/-- The slots of a promoted graph read what its inputs read without a vector. -/
theorem Graph.literal_of_promote {g : Graph} {output : NodeId} {id : OperatorId} {name : String}
    {op : Operator} (h : g.promote output id name = .ok op) : op.Literal := by
  unfold Graph.promote at h
  split at h
  · cases h
    intro slot hs
    obtain ⟨⟨n, position⟩, -, hs⟩ := List.mem_filterMap.1 hs
    obtain ⟨node, -, rfl⟩ := Option.map_eq_some_iff.1 hs
    exact ⟨_, rfl⟩
  · cases h

end Patchbay
