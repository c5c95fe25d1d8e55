import Patchbay.Decimal.Text
import Patchbay.Kind

/-!
# Cells

A cell is an untagged 64-bit word. The kind of the node that wrote it decides whether it is read as
a decimal, as a signed integer or as a truth value.
-/

namespace Patchbay

/-- One word of a buffer. -/
structure Cell where
  bits : UInt64
deriving DecidableEq, Inhabited

abbrev Cells := List Cell

/-- The integer part of a decimal as a signed word; what is not a number gives zero. -/
def Decimal.toInt64 (x : Decimal) : Int64 :=
  if x.isNaN then 0
  else if x.isFinite then Int64.ofIntClamp x.truncate
  else if x.negative then Int64.minValue else Int64.maxValue

/-- The nearest signed word, a half going away from zero; what is not a number gives zero. -/
def Decimal.roundToInt64 (x : Decimal) : Int64 :=
  if x.isFinite then Int64.ofIntClamp x.round else x.toInt64

namespace Cell

def zero : Cell := ⟨0⟩

def ofDecimal (x : Decimal) : Cell := ⟨x.bits⟩

def ofInteger (i : Int64) : Cell := ⟨i.toUInt64⟩

def ofBoolean (b : Bool) : Cell := ⟨if b then 1 else 0⟩

def decimal (c : Cell) : Decimal := ⟨c.bits⟩

def integer (c : Cell) : Int64 := c.bits.toInt64

/-- Every word but zero is true. -/
def boolean (c : Cell) : Bool := c.bits != 0

/-- The cell of kind `k` that a decimal literal stands for: integers round to nearest, truth values
start above one half. -/
def ofLiteral (x : Decimal) : Kind → Cell
  | .decimal | .any => ofDecimal x
  | .integer => ofInteger x.roundToInt64
  | .boolean => ofBoolean ((⟨0x3fe0000000000000⟩ : Decimal).less x)

/-- Rereads a cell written as one kind for a reader of another; the wildcard passes words on. -/
def convert (c : Cell) : (source reader : Kind) → Cell
  | .decimal, .integer => ofInteger c.decimal.toInt64
  | .decimal, .boolean => ofBoolean (!c.decimal.isZero)
  | .integer, .decimal | .boolean, .decimal => ofDecimal (Decimal.ofInt c.integer.toInt)
  | .integer, .boolean | .boolean, .integer => ofBoolean c.boolean
  | _, _ => c

/-- The word as a decimal and in hexadecimal, for diagnosis. -/
def inspect (c : Cell) : String :=
  let word := String.ofList (Nat.toDigits 16 c.bits.toNat)
  "Value(" ++ c.decimal.render .plain ++ " | 0x" ++ word ++ ")"

end Cell
end Patchbay
