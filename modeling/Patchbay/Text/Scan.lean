/-!
# Scanning text

Readers take what they recognise off the front of a text and leave the rest. The text itself bounds
the turns of a repetition, so it ends with every reader.
-/

namespace Patchbay

abbrev Scan := StateT (List Char) Option

namespace Scan

variable {α β : Type}

def fail : Scan α := fun _ => none

def rest : Scan (List Char) := fun cs => some (cs, cs)

def satisfy (p : Char → Bool) : Scan Char
  | c :: cs => if p c then some (c, cs) else none
  | [] => none

def char (c : Char) : Scan Unit := do let _ ← satisfy (· == c)

def run (p : Char → Bool) : Scan (List Char) := fun cs => some (cs.takeWhile p, cs.dropWhile p)

def run1 (p : Char → Bool) : Scan (List Char) := do
  let cs ← run p
  if cs.isEmpty then fail else pure cs

def exactly (n : Nat) (p : Char → Bool) : Scan (List Char) := fun cs =>
  let taken := cs.take n
  if taken.length = n ∧ taken.all p then some (taken, cs.drop n) else none

def word (w : List Char) : Scan Unit := fun cs =>
  if w.isPrefixOf cs then some ((), cs.drop w.length) else none

def perhaps (p : Scan α) : Scan (Option α) := fun cs =>
  match p cs with
  | some (a, r) => some (some a, r)
  | none => some (none, cs)

/-- Reads as often as possible, at most once for each character of `bound`. -/
def manyWithin (p : Scan α) : (bound : List Char) → Scan (List α)
  | [], cs => some ([], cs)
  | _ :: bound, cs =>
    match p cs with
    | none => some ([], cs)
    | some (a, r) => (manyWithin p bound r).map fun (as, r) => (a :: as, r)

/-- Reads as often as possible, when every turn takes at least one character. -/
def many (p : Scan α) : Scan (List α) := fun cs => manyWithin p cs cs

def separated (p : Scan α) (separator : Scan β) : Scan (List α) := do
  let first ← p
  let others ← many (do let _ ← separator; p)
  pure (first :: others)

end Scan
end Patchbay
