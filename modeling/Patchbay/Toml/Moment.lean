import Patchbay.Decimal.Text
import Patchbay.Text.Scan

/-!
# Dates and times

A moment is a day, a time of day, or both, and both may stand at a distance from universal time.
Days are checked against the calendar and times against the clock. However a moment was written, it
has one text.
-/

namespace Patchbay.Toml

structure Day where
  year : Nat
  month : Nat
  day : Nat
deriving DecidableEq

structure Clock where
  hour : Nat
  minute : Nat
  second : Nat
  /-- The digits after the point, at most nine of them and no zero at the end. -/
  fraction : List Char
deriving DecidableEq

/-- The distance from universal time. -/
inductive Zone where
  | universal
  | ahead (minutes : Int)
deriving DecidableEq

inductive Moment where
  | day (day : Day)
  | clock (clock : Clock)
  | both (day : Day) (clock : Clock) (zone : Option Zone)
deriving DecidableEq

/-! ### Text -/

def padded (width n : Nat) : String :=
  let ds := Nat.toDigits 10 n
  String.ofList (List.replicate (width - ds.length) '0' ++ ds)

def Day.text (d : Day) : String :=
  padded 4 d.year ++ "-" ++ padded 2 d.month ++ "-" ++ padded 2 d.day

def Clock.text (c : Clock) : String :=
  padded 2 c.hour ++ ":" ++ padded 2 c.minute ++ ":" ++ padded 2 c.second ++
    if c.fraction.isEmpty then "" else "." ++ String.ofList c.fraction

def Zone.text : Zone → String
  | universal => "Z"
  | ahead minutes =>
    (if minutes < 0 then "-" else "+") ++ padded 2 (minutes.natAbs / 60) ++ ":" ++
      padded 2 (minutes.natAbs % 60)

def Moment.text : Moment → String
  | day d => d.text
  | clock c => c.text
  | both d c zone => d.text ++ "T" ++ c.text ++ zone.elim "" Zone.text

/-! ### Reading -/

open Scan

def fixedDigits (n low high : Nat) : Scan Nat := do
  let v := Decimal.ofDigits (← exactly n Char.isDigit)
  if low ≤ v ∧ v ≤ high then pure v else fail

def monthLength (year month : Nat) : Nat :=
  let leap := year % 4 == 0 && (year % 100 != 0 || year % 400 == 0)
  if month = 2 then (if leap then 29 else 28)
  else if month = 4 ∨ month = 6 ∨ month = 9 ∨ month = 11 then 30
  else 31

def Day.scan : Scan Day := do
  let year ← fixedDigits 4 0 9999
  char '-'
  let month ← fixedDigits 2 1 12
  char '-'
  return ⟨year, month, ← fixedDigits 2 1 (monthLength year month)⟩

/-- Digits beyond a billionth are dropped, and zeros at the end say nothing. -/
def fractionOf (ds : List Char) : List Char :=
  ((ds.take 9).reverse.dropWhile (· == '0')).reverse

def Clock.scan : Scan Clock := do
  let hour ← fixedDigits 2 0 23
  char ':'
  let minute ← fixedDigits 2 0 59
  char ':'
  let second ← fixedDigits 2 0 60
  let ds ← perhaps (do char '.'; run1 Char.isDigit)
  return ⟨hour, minute, second, fractionOf (ds.getD [])⟩

def Zone.scan : Scan Zone :=
  (do
    let _ ← satisfy fun c => c == 'Z' || c == 'z'
    return .universal) <|> do
    let sign ← satisfy fun c => c == '+' || c == '-'
    let hours ← fixedDigits 2 0 23
    char ':'
    let minutes : Int := 60 * hours + (← fixedDigits 2 0 59)
    return .ahead (if sign = '-' then -minutes else minutes)

def timeOfDay : Scan (Clock × Option Zone) := do
  let time ← Clock.scan
  return (time, ← perhaps Zone.scan)

def Moment.scan : Scan Moment :=
  (do
    let date ← Day.scan
    match ← perhaps (do let _ ← satisfy fun c => c == 'T' || c == 't' || c == ' '; timeOfDay) with
    | some (time, zone) => return .both date time zone
    | none => return .day date) <|>
  Moment.clock <$> Clock.scan

end Patchbay.Toml
