/-!
# Decimals

A decimal is a 64-bit word read as a binary64 number. Arithmetic rounds once, to nearest with ties
to even. A result that is not a number keeps the payload of the first operand that is none, so a
word travels through arithmetic and through plain copies alike.
-/

namespace Patchbay

/-- A binary64 number, kept as its word so that every payload and every zero stays distinct. -/
structure Decimal where
  bits : UInt64
deriving DecidableEq, Inhabited

namespace Decimal

def ofFloat (x : Float) : Decimal := ⟨x.toBits⟩

def toFloat (x : Decimal) : Float := Float.ofBits x.bits

def infinity : Decimal := ⟨0x7ff0000000000000⟩

def notANumber : Decimal := ⟨0x7ff8000000000000⟩

/-! ### The fields of the word -/

def negative (x : Decimal) : Bool := 0x8000000000000000 ≤ x.bits

def magnitude (x : Decimal) : UInt64 := x.bits &&& 0x7fffffffffffffff

def isNaN (x : Decimal) : Bool := infinity.bits < x.magnitude

def isFinite (x : Decimal) : Bool := x.magnitude < infinity.bits

def isZero (x : Decimal) : Bool := x.magnitude == 0

def exponentField (x : Decimal) : Nat := (x.magnitude >>> 52).toNat

def fraction (x : Decimal) : Nat := (x.bits &&& 0xfffffffffffff).toNat

/-- A finite decimal is `significand * 2 ^ exponent` up to its sign. -/
def significand (x : Decimal) : Nat :=
  if x.exponentField = 0 then x.fraction else x.fraction + 1 <<< 52

def exponent (x : Decimal) : Int := (max x.exponentField 1 : Nat) - 1075

def neg (x : Decimal) : Decimal := ⟨x.bits ^^^ 0x8000000000000000⟩

def withSign (negative : Bool) (x : Decimal) : Decimal := if negative then x.neg else x

/-! ### Rounding an exact number -/

/-- The quotient rounded to the nearest integer, a tie to the even one. -/
def roundQuotient (num den : Nat) : Nat :=
  let q := num / den
  let r := num % den
  if 2 * r > den || (2 * r == den && q % 2 == 1) then q + 1 else q

def leading (num den : Nat) : Int :=
  let e : Int := (num.log2 : Int) - den.log2
  let below := if 0 ≤ e then num < den <<< e.toNat else num <<< (-e).toNat < den
  if below then e - 1 else e

/-- The decimal nearest to `num / den`. Its word is the number of grid steps from the start of the
binade plus the words of all smaller binades, so a carry moves into the exponent by itself. -/
def nearest (num den : Nat) : Decimal :=
  if num = 0 then ⟨0⟩ else
    let e := max (leading num den - 52) (-1074)
    let q := if 0 ≤ e then roundQuotient num (den <<< e.toNat)
      else roundQuotient (num <<< (-e).toNat) den
    ⟨(min ((e + 1074).toNat <<< 52 + q) infinity.bits.toNat).toUInt64⟩

def ofNat (n : Nat) : Decimal := nearest n 1

instance (n : Nat) : OfNat Decimal n := ⟨ofNat n⟩

def ofInt (i : Int) : Decimal := (ofNat i.natAbs).withSign (i < 0)

/-- Past these powers of ten every nonzero significand overflows or vanishes, so the power itself
is not computed. -/
def ofScientific (significand : Nat) (power : Int) : Decimal :=
  if significand = 0 then 0
  else if power > 400 then infinity
  else if power + significand.log2 < -1200 then 0
  else if 0 ≤ power then nearest (significand * Nat.pow 10 power.toNat) 1
  else nearest significand (Nat.pow 10 (-power).toNat)

/-! ### Integer parts -/

def truncate (x : Decimal) : Int :=
  let size := if 0 ≤ x.exponent then x.significand <<< x.exponent.toNat
    else x.significand >>> (-x.exponent).toNat
  if x.negative then -size else size

/-- The integer nearest to a finite decimal, a half going away from zero. -/
def round (x : Decimal) : Int :=
  let size := if 0 ≤ x.exponent then x.significand <<< x.exponent.toNat
    else (x.significand + 1 <<< ((-x.exponent).toNat - 1)) >>> (-x.exponent).toNat
  if x.negative then -size else size

def floor (x : Decimal) : Decimal :=
  if x.isNaN then ⟨x.bits ||| 0x8000000000000⟩
  else if 0 ≤ x.exponent || x.significand = 0 then x
  else
    let scale := 1 <<< (-x.exponent).toNat
    if x.negative then ofInt (-((x.significand + scale - 1) / scale : Nat))
    else ofNat (x.significand / scale)

/-! ### Arithmetic -/

def quiet (x : Decimal) : Decimal := ⟨x.bits ||| 0x8000000000000⟩

/-- Applies `op` unless an operand is not a number: then that operand, made quiet, is the result. -/
@[inline] def combine (op : Float → Float → Float) (x y : Decimal) : Decimal :=
  if x.isNaN then x.quiet else if y.isNaN then y.quiet else ofFloat (op x.toFloat y.toFloat)

instance : Add Decimal := ⟨combine (· + ·)⟩
instance : Sub Decimal := ⟨combine (· - ·)⟩
instance : Mul Decimal := ⟨combine (· * ·)⟩
instance : Div Decimal := ⟨combine (· / ·)⟩
instance : Neg Decimal := ⟨neg⟩

def sin (x : Decimal) : Decimal := if x.isNaN then x.quiet else ofFloat x.toFloat.sin

/-! ### Comparison by value -/

/-- Nothing compares with what is not a number, and the two zeros are one value. -/
def less (x y : Decimal) : Bool := x.toFloat < y.toFloat

def atMost (x y : Decimal) : Bool := x.toFloat ≤ y.toFloat

def sameValue (x y : Decimal) : Bool := x.toFloat == y.toFloat

/-- Moves `x` into the interval; what is not a number stays. -/
def clamp (x lo hi : Decimal) : Decimal :=
  if x.less lo then lo else if hi.less x then hi else x

end Decimal
end Patchbay
