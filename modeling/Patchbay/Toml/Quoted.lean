import Patchbay.Text.Scan
import Patchbay.Toml.Value

/-!
# Quoted text

Text stands in double quotes with escapes or in single quotes without. Either quote tripled spans
lines; up to two quotes may stand directly before the closing three.
-/

namespace Patchbay.Toml

def hexDigit? (c : Char) : Option Nat :=
  if c.isDigit then some (c.toNat - '0'.toNat)
  else if 'a' ≤ c ∧ c ≤ 'f' then some (c.toNat - 'a'.toNat + 10)
  else if 'A' ≤ c ∧ c ≤ 'F' then some (c.toNat - 'A'.toNat + 10)
  else none

/-- The character with a code of exactly `n` hexadecimal digits. -/
def codeChar? (n : Nat) (cs : List Char) : Option Char :=
  if cs.length < n then none
  else do
    let code ← (cs.take n).foldlM (fun code c => (hexDigit? c).map (16 * code + ·)) 0
    if code.isValidChar then some (Char.ofNat code) else none

/-- The character that an escape stands for and the length of the escape after its backslash. -/
def escape? : List Char → Option (Char × Nat)
  | 'b' :: _ => some ('\x08', 1)
  | 't' :: _ => some ('\t', 1)
  | 'n' :: _ => some ('\n', 1)
  | 'f' :: _ => some ('\x0c', 1)
  | 'r' :: _ => some ('\r', 1)
  | '"' :: _ => some ('"', 1)
  | '\\' :: _ => some ('\\', 1)
  | 'u' :: cs => (codeChar? 4 cs).map (·, 5)
  | 'U' :: cs => (codeChar? 8 cs).map (·, 9)
  | _ => none

def prepend (cs : List Char) (r : Option (List Char × List Char)) :
    Option (List Char × List Char) :=
  r.map fun (body, rest) => (cs ++ body, rest)

def dropNewline? : List Char → Option (List Char)
  | '\n' :: r => some r
  | '\r' :: '\n' :: r => some r
  | _ => none

def dropSpace : List Char → List Char
  | '\r' :: '\n' :: r => dropSpace r
  | '\r' :: r => '\r' :: r
  | c :: r => if c = ' ' ∨ c = '\t' ∨ c = '\n' then dropSpace r else c :: r
  | [] => []

/-- The rest after a backslash at the end of a line, if only blanks follow it there. -/
def continuation? (cs : List Char) : Option (List Char) :=
  (dropNewline? (cs.dropWhile fun c => c == ' ' || c == '\t')).map dropSpace

def basicText (cs : List Char) : Option (List Char × List Char) :=
  match cs with
  | [] => none
  | '"' :: r => some ([], r)
  | '\\' :: r =>
    match escape? r with
    | some (c, n) => prepend [c] (basicText (r.drop n))
    | none => none
  | c :: r => if isControl c then none else prepend [c] (basicText r)
termination_by cs.length

def literalText : List Char → Option (List Char × List Char)
  | [] => none
  | c :: r =>
    if c = '\'' then some ([], r)
    else if isControl c then none
    else prepend [c] (literalText r)

/-- How many of the quotes at the front of a text of several lines close it, with those before them;
nothing if there are too few. -/
def closing? (quote : Char) (cs : List Char) : Option Nat :=
  let n := min (cs.takeWhile (· == quote)).length 5
  if n < 3 then none else some n

def linesText (quote : Char) (escapes : Bool) (cs : List Char) : Option (List Char × List Char) :=
  match cs with
  | [] => none
  | c :: r =>
    match closing? quote (c :: r) with
    | some n => some (List.replicate (n - 3) quote, (c :: r).drop n)
    | none =>
      if c = '\\' ∧ escapes then
        match continuation? r with
        | some rest =>
          if rest.length < (c :: r).length then linesText quote escapes rest else none
        | none =>
          match escape? r with
          | some (e, n) => prepend [e] (linesText quote escapes (r.drop n))
          | none => none
      else if c = '\r' then
        match r with
        | '\n' :: r => prepend ['\n'] (linesText quote escapes r)
        | _ => none
      else if isControl c ∧ c ≠ '\n' then none
      else prepend [c] (linesText quote escapes r)
termination_by cs.length
decreasing_by
  all_goals simp_all only [List.length_cons, List.length_drop]
  all_goals omega

def skipNewline (cs : List Char) : List Char := (dropNewline? cs).getD cs

def lineText : Scan String
  | '"' :: r => (basicText r).map fun (cs, r) => (String.ofList cs, r)
  | '\'' :: r => (literalText r).map fun (cs, r) => (String.ofList cs, r)
  | _ => none

def anyText : Scan String
  | '"' :: '"' :: '"' :: r =>
    (linesText '"' true (skipNewline r)).map fun (cs, r) => (String.ofList cs, r)
  | '\'' :: '\'' :: '\'' :: r =>
    (linesText '\'' false (skipNewline r)).map fun (cs, r) => (String.ofList cs, r)
  | cs => lineText cs

end Patchbay.Toml
