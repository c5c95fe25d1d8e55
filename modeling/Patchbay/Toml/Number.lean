import Patchbay.Toml.Value

/-!
# Numbers

Digits may be set apart by single underscores. A number with a fraction or an exponent is a decimal,
any other an integer of 64 bits.
-/

namespace Patchbay.Toml

open Scan

def wellSpaced : List Char → Bool
  | [] => false
  | [c] => c != '_'
  | c :: d :: r => !(c == '_' && d == '_') && (wellSpaced (d :: r))

def spacedDigits (isDigit : Char → Bool) : Scan (List Char) := do
  let cs ← run fun c => isDigit c || c == '_'
  if cs.head? != some '_' && wellSpaced cs then pure (cs.filter (· != '_')) else fail

def basedInteger (letter : Char) (base : Nat) (digit? : Char → Option Nat) : Scan Int := do
  char '0'
  char letter
  let ds ← spacedDigits fun c => (digit? c).any (· < base)
  let n := ds.foldl (fun n c => base * n + (digit? c).getD 0) 0
  if (n : Int) ≤ maxInteger then pure n else fail

def signText : Scan (List Char) := do
  return (← perhaps (satisfy fun c => c == '+' || c == '-')).toList

/-- The digits of a whole number; only zero itself starts with a zero. -/
def wholeDigits : Scan (List Char) := do
  let ds ← spacedDigits Char.isDigit
  if ds.head? == some '0' && ds.length ≠ 1 then fail else pure ds

def fractionText : Scan (List Char) := do
  char '.'
  return '.' :: (← spacedDigits Char.isDigit)

def exponentText : Scan (List Char) := do
  let _ ← satisfy fun c => c == 'e' || c == 'E'
  let sign ← signText
  return 'e' :: sign ++ (← spacedDigits Char.isDigit)

/-- The words for what is no finite number, with an optional sign. -/
def specialDecimal : Scan Decimal := do
  let sign ← signText
  let x ← (do word ['i', 'n', 'f']; pure Decimal.infinity) <|>
    (do word ['n', 'a', 'n']; pure Decimal.notANumber)
  return x.withSign (sign == ['-'])

/-- A decimal too great to be finite is refused; one too low is minus infinity. -/
def decimalNumber : Scan Decimal := do
  let sign ← signText
  let whole ← wholeDigits
  let fraction := (← perhaps fractionText).getD []
  let exponent := (← perhaps exponentText).getD []
  if fraction.isEmpty && exponent.isEmpty then fail
  else
    match Decimal.read? (String.ofList (sign ++ whole ++ fraction ++ exponent)) with
    | some x => if x = Decimal.infinity then fail else pure x
    | none => fail

def wholeNumber : Scan Int := do
  let sign ← signText
  let n : Int := Decimal.ofDigits (← wholeDigits)
  let n := if sign == ['-'] then -n else n
  if minInteger ≤ n ∧ n ≤ maxInteger then pure n else fail

end Patchbay.Toml
