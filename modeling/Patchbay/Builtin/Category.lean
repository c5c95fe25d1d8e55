import Patchbay.Operator

/-!
# Categories of built-in operators

Listings group the built-in operators by what they are for.
-/

namespace Patchbay

variable [Platform]

/-- What a built-in operator is for. -/
inductive Category where
  | io
  | constants
  | arithmetic
  | vector
  | logic
  | host
deriving DecidableEq

namespace Category

def all : List Category := [io, constants, arithmetic, vector, logic, host]

def name : Category → String
  | io => "io"
  | constants => "constants"
  | arithmetic => "arithmetic"
  | vector => "vector"
  | logic => "logic"
  | host => "host"

def description : Category → String
  | io => "Graph inputs and the output sink"
  | constants => "Decimal and boolean literals"
  | arithmetic => "Add, subtract, multiply, divide, and elementwise math"
  | vector => "Ranges and repeats sized at compile time"
  | logic => "Comparisons and elementwise selection"
  | host => "Sample position, sample rate, noise, and MIDI notes"

def ofName? (name : String) : Option Category := all.find? fun c => c.name == name

end Category

namespace Builtin

def operator (number : Nat) (name : String) (category : Category) (kernel : Kernel)
    (slots : List Slot) : Operator :=
  { id := .builtin number, name, category := category.name, slots, output := .fixed .decimal,
    follow := none, live := false, body := .kernel kernel }

def slot (name : String) (kind : Kind) : Slot := { name, kind }

def scalarSlot (name : String) (kind : Kind) (default : Cell) : Slot :=
  { name, kind, length := 1, default }

def countSlot (name : String) : Slot :=
  { name, kind := .integer, length := 1, compileTime := true, default := .ofInteger 1 }

def countLength (q : Query) (slot : Nat) : Except Fault Nat :=
  let n := max (q.legs.integer slot).toInt 1
  if n ≤ maxLength then .ok n.toNat else .error (.invalidConfig (.countLimit n))

end Builtin
end Patchbay
