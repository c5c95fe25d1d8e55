import Patchbay.Decimal

/-!
# The fewest digits that read back

Every decimal is the nearest one to a whole interval of numbers, its ends included when its
significand is even. Among the decimal fractions in that interval the shortest is chosen, and among
those of one length the one nearest to the decimal itself. Where two are equally near, the writer
says which way the tie goes.
-/

namespace Patchbay.Decimal

/-- A decimal fraction `digits * 10 ^ power`. -/
structure Digits where
  digits : Nat
  power : Int
deriving DecidableEq

/-- Which of two fractions stands for a decimal halfway between them. -/
inductive Tie where
  /-- The greater one. -/
  | up
  /-- The one with an even last digit. -/
  | even
deriving DecidableEq

def Tie.goesDown (q : Nat) : Tie → Bool
  | up => false
  | even => q % 2 == 0

/-- A positive finite decimal with the ends of the interval that rounds to it, all three as
numerators over one denominator. -/
structure Interval where
  low : Nat
  value : Nat
  high : Nat
  den : Nat
  closed : Bool

/-- The gap below a power of two is half the gap above it, except at the smallest exponent. -/
def interval (x : Decimal) : Interval :=
  let m := x.significand
  let e := x.exponent - 2
  let below := if x.fraction = 0 && 1 < x.exponentField then 1 else 2
  let scale := if 0 ≤ e then 1 <<< e.toNat else 1
  { low := (4 * m - below) * scale
    value := 4 * m * scale
    high := (4 * m + 2) * scale
    den := if 0 ≤ e then 1 else 1 <<< (-e).toNat
    closed := m % 2 == 0 }

namespace Interval

def contains (i : Interval) (num den : Nat) : Bool :=
  if i.closed then i.low * den ≤ num * i.den && num * i.den ≤ i.high * den
  else i.low * den < num * i.den && num * i.den < i.high * den

/-- The point of the grid `10 ^ power` in the interval that is nearest to the value, of its two
neighbours on that grid. -/
def onGrid (i : Interval) (tie : Tie) (power : Int) : Option Nat :=
  let up := Nat.pow 10 power.toNat
  let down := Nat.pow 10 (-power).toNat
  let q := i.value * down / (i.den * up)
  let inside (d : Nat) := i.contains (d * up) down
  if inside q && inside (q + 1) then
    let twice := 2 * (i.value * down)
    let middle := (2 * q + 1) * (i.den * up)
    if twice < middle || twice == middle && tie.goesDown q then some q else some (q + 1)
  else if inside q then some q
  else if inside (q + 1) then some (q + 1)
  else none

end Interval

/-- Tries one grid after the other, each ten times finer than the one before it. -/
def search (i : Interval) (tie : Tie) : Nat → Int → Digits
  | 0, power => ⟨i.value * Nat.pow 10 (-power).toNat / i.den, power⟩
  | n + 1, power =>
    match i.onGrid tie power with
    | some (d + 1) => ⟨d + 1, power⟩
    | _ => search i tie n (power - 1)

def powerAtMost (power : Int) (num den : Nat) : Bool :=
  Nat.pow 10 power.toNat * den ≤ num * Nat.pow 10 (-power).toNat

/-- The position of the leading decimal digit, from that of the leading binary one. -/
def leadingTen (num den : Nat) : Int :=
  let guess := (leading num den * 1233).fdiv 4096
  if powerAtMost (guess + 1) num den then guess + 1
  else if powerAtMost guess num den then guess
  else guess - 1

def dropZeros : Nat → Digits → Digits
  | 0, d => d
  | n + 1, d => if d.digits % 10 = 0 then dropZeros n ⟨d.digits / 10, d.power + 1⟩ else d

/-- The shortest digits of a finite decimal other than zero. A value just under a power of ten may
round up to it, so the search starts one grid above the leading digit. -/
def shortest (x : Decimal) (tie : Tie) : Digits :=
  let i := x.interval
  dropZeros 400 (search i tie 20 (leadingTen i.value i.den + 1))

end Patchbay.Decimal
