import Patchbay.Operator

/-!
# Catalogs

A catalog holds operators under distinct identities, in the order of the identities. Entries are
added and never replaced.
-/

namespace Patchbay

variable [Platform]

/-- Operators in the order of their identities. -/
structure Catalog where
  operators : List Operator

/-- Why a catalog did not answer or did not take an operator. -/
inductive CatalogError where
  | duplicate (id : OperatorId)
  | unknown (id : OperatorId)
deriving DecidableEq

def CatalogError.message : CatalogError → String
  | duplicate id => "operator " ++ id.text ++ " is already registered"
  | unknown id => "unknown operator " ++ id.text

namespace Catalog

def empty : Catalog := ⟨[]⟩

def find? (c : Catalog) (id : OperatorId) : Option Operator :=
  c.operators.find? fun op => op.id == id

def contains (c : Catalog) (id : OperatorId) : Bool := (c.find? id).isSome

def lookup (c : Catalog) (id : OperatorId) : Except CatalogError Operator :=
  match c.find? id with
  | some op => .ok op
  | none => .error (.unknown id)

def named? (c : Catalog) (name : String) : Option Operator :=
  c.operators.find? fun op => op.name == name

def insertInOrder (op : Operator) : List Operator → List Operator
  | [] => [op]
  | o :: r => if op.id.before o.id then op :: o :: r else o :: insertInOrder op r

def add (c : Catalog) (op : Operator) : Except CatalogError Catalog :=
  if c.contains op.id then .error (.duplicate op.id) else .ok ⟨insertInOrder op c.operators⟩

def addMissing (c : Catalog) (ops : List Operator) : Catalog :=
  ops.foldl (fun c op => if c.contains op.id then c else ⟨insertInOrder op c.operators⟩) c

def size (c : Catalog) : Nat := c.operators.length

end Catalog
end Patchbay
