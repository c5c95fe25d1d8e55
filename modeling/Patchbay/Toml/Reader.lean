import Patchbay.Toml.Document

/-!
# Reading values by kind

Structures are read from tables by the names of their members. An array gives the members in their
order instead. Members that nothing asks for are passed over.
-/

namespace Patchbay.Toml

namespace Value

def text? : Value → Option String
  | .text t => some t
  | _ => none

def integer? (low high : Int) : Value → Option Int
  | .integer n => if low ≤ n ∧ n ≤ high then some n else none
  | _ => none

def natural? (size : Nat) (v : Value) : Option Nat := (v.integer? 0 (size - 1)).map Int.toNat

def decimal? : Value → Option Decimal
  | .decimal x => some x
  | .integer n => some (.ofInt n)
  | _ => none

def list? {α : Type} (read : Value → Option α) : Value → Option (List α)
  | .array elements => elements.mapM read
  | _ => none

/-- The key of the text of a date or a time, where a table is expected. -/
def momentKey : String := "$__toml_private_datetime"

/-- The entries of a table. A date or a time counts as a table with its text as the only entry. -/
def table? : Value → Option (List (String × Value))
  | .table entries => some entries
  | .moment m => some [(momentKey, .text m.text)]
  | _ => none

def entries? {α : Type} (read : Value → Option α) (v : Value) : Option (List (String × α)) :=
  v.table?.bind (·.mapM fun (k, v) => (read v).map (k, ·))

def members? (names : List String) : Value → Option (List (String × Value))
  | .array elements => some (names.zip elements)
  | v => v.table?

end Value

/-- A member of a structure, which may only be missing if it has a default. -/
def member {α : Type} (members : List (String × Value)) (name : String) (default : Option α)
    (read : Value → Option α) : Option α :=
  match members.lookup name with
  | some v => read v
  | none => default

end Patchbay.Toml
