import Patchbay.Cell

/-!
# Node configuration

A node carries numbers and texts under free keys, both kept in the order of their keys.
-/

namespace Patchbay

abbrev Table (α : Type) := List (String × α)

namespace Table

variable {α : Type}

/-- Puts a value under a key, replacing one that is already there. -/
def put (key : String) (value : α) : Table α → Table α
  | [] => [(key, value)]
  | (k, v) :: r =>
    if key < k then (key, value) :: (k, v) :: r
    else if key = k then (key, value) :: r
    else (k, v) :: put key value r

def ofList (entries : List (String × α)) : Table α :=
  entries.foldl (fun t e => put e.1 e.2 t) []

end Table

/-- The properties of a node. -/
structure Config where
  numbers : Table Decimal
  texts : Table String
deriving DecidableEq, Inhabited

namespace Config

def empty : Config := ⟨[], []⟩

def number? (c : Config) (key : String) : Option Decimal := c.numbers.lookup key

def numberOr (c : Config) (key : String) (default : Decimal) : Decimal :=
  (c.number? key).getD default

def text? (c : Config) (key : String) : Option String := c.texts.lookup key

def setNumber (c : Config) (key : String) (value : Decimal) : Config :=
  { c with numbers := Table.put key value c.numbers }

def setText (c : Config) (key value : String) : Config :=
  { c with texts := Table.put key value c.texts }

def isEmpty (c : Config) : Bool := c.numbers.isEmpty && c.texts.isEmpty

end Config
end Patchbay
