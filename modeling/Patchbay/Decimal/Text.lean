import Patchbay.Decimal.Shortest

/-!
# Decimals as text

Decimals are written with the fewest digits that read back, in one of three styles that differ in
when they leave positional notation, in where ties go and in how they write whole and special
values. One grammar reads them.
-/

namespace Patchbay.Decimal

/-- How a decimal is written. `positional` receives the number of digits before the point, which is
zero or negative when the fraction starts with zeros. -/
structure Style where
  positional : Int → Bool
  tie : Tie
  wholeEnd : String
  nan : String
  inf : String
  negativeInf : String

def Style.plain : Style := ⟨fun _ => true, .up, "", "NaN", "inf", "-inf"⟩

/-- Block output: an exponent past sixteen whole digits or five leading zeros, and no special
numbers. -/
def Style.json : Style :=
  ⟨fun point => -5 < point && point ≤ 16, .even, ".0", "null", "null", "null"⟩

/-- Patch files: always positional, whole numbers marked as decimals. -/
def Style.toml : Style := ⟨fun _ => true, .up, ".0", "nan", "inf", "-inf"⟩

def zeros (n : Int) : String := String.ofList (List.replicate n.toNat '0')

def positionalText (wholeEnd : String) (d : Digits) : String :=
  let cs := Nat.toDigits 10 d.digits
  let point := (cs.length : Int) + d.power
  if 0 ≤ d.power then String.ofList cs ++ zeros d.power ++ wholeEnd
  else if 0 < point then
    String.ofList (cs.take point.toNat) ++ "." ++ String.ofList (cs.drop point.toNat)
  else "0." ++ zeros (-point) ++ String.ofList cs

/-- Writes one digit before the point and a power of ten that always has its sign. -/
def exponentText (d : Digits) : String :=
  let cs := Nat.toDigits 10 d.digits
  let tail := match cs.drop 1 with
    | [] => ""
    | rest => "." ++ String.ofList rest
  let power := (cs.length : Int) + d.power - 1
  String.ofList (cs.take 1) ++ tail ++ (if 0 ≤ power then "e+" else "e") ++ toString power

def render (style : Style) (x : Decimal) : String :=
  if x.isNaN then style.nan
  else if !x.isFinite then if x.negative then style.negativeInf else style.inf
  else
    let size :=
      if x.isZero then "0" ++ style.wholeEnd
      else
        let d := x.shortest style.tie
        if style.positional ((Nat.toDigits 10 d.digits).length + d.power) then
          positionalText style.wholeEnd d
        else exponentText d
    if x.negative then "-" ++ size else size

/-! ### Reading -/

def digitValue (c : Char) : Nat := c.toNat - '0'.toNat

def ofDigits (cs : List Char) : Nat := cs.foldl (fun n c => 10 * n + digitValue c) 0

def splitSign : List Char → Bool × List Char
  | '-' :: r => (true, r)
  | '+' :: r => (false, r)
  | r => (false, r)

def fractionDigits : List Char → List Char × List Char
  | '.' :: r => (r.takeWhile Char.isDigit, r.dropWhile Char.isDigit)
  | r => ([], r)

/-- The power of ten named by an exponent part, which may be missing but not unfinished. -/
def exponentPart? : List Char → Option Int
  | [] => some 0
  | e :: r =>
    let (minus, ds) := splitSign r
    if (e = 'e' ∨ e = 'E') ∧ ds ≠ [] ∧ ds.all Char.isDigit then
      some (if minus then -(ofDigits ds : Int) else ofDigits ds)
    else none

/-- Digits with an optional point and exponent, at least one digit before the exponent. -/
def readUnsigned? (cs : List Char) : Option Decimal :=
  let whole := cs.takeWhile Char.isDigit
  let (part, rest) := fractionDigits (cs.dropWhile Char.isDigit)
  if whole = [] ∧ part = [] then none
  else (exponentPart? rest).map fun power =>
    ofScientific (ofDigits (whole ++ part)) (power - part.length)

/-- Reads a decimal: an optional sign, then a number, an infinity or the name of what is none, the
words in any case. -/
def read? (s : String) : Option Decimal :=
  let (minus, cs) := splitSign s.toList
  let word := String.ofList (cs.map Char.toLower)
  let size :=
    if word = "inf" ∨ word = "infinity" then some infinity
    else if word = "nan" then some notANumber
    else readUnsigned? cs
  size.map (withSign minus)

end Patchbay.Decimal
