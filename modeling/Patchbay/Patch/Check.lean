import Patchbay.Patch

/-!
# Checking a patch

Problems of single records are found all at once and without making a graph. What only the whole
graph can show, such as a cycle, is left to loading.
-/

namespace Patchbay

variable [Platform]

/-- A problem of one record, or of the position of the output. -/
inductive PatchFlaw where
  | unknownOperator (index : Nat) (operator : OperatorId)
  | tooManyInputs (index given arity : Nat)
  | inputOutOfRange (index slot : Nat) (source : Int) (count : Nat)
  | readsItself (index slot : Nat)
  | outputOutOfRange (output count : Nat)
deriving DecidableEq

namespace PatchFlaw

def place (index slot : Nat) : String :=
  "record " ++ toString index ++ " slot " ++ toString slot ++ ": "

def range (count : Nat) : String := " out of range (0.." ++ toString count ++ ")"

def message : PatchFlaw → String
  | unknownOperator index op => "record " ++ toString index ++ ": unknown operator " ++ op.text
  | tooManyInputs index given arity =>
    "record " ++ toString index ++ ": " ++ toString given ++ " inputs for an operator with " ++
      toString arity ++ " slots"
  | inputOutOfRange index slot source count =>
    place index slot ++ "input " ++ toString source ++ range count
  | readsItself index slot => place index slot ++ "reads its own output"
  | outputOutOfRange output count => "output " ++ toString output ++ range count

end PatchFlaw

/-- The flaws for which a patch is rejected, at least one. -/
structure Rejection where
  first : PatchFlaw
  others : List PatchFlaw
deriving DecidableEq

namespace Rejection

def flaws (r : Rejection) : List PatchFlaw := r.first :: r.others

def message (r : Rejection) : String :=
  if r.others.isEmpty then r.first.message
  else "multiple validation errors: " ++ "; ".intercalate (r.flaws.map PatchFlaw.message)

def ofFlaws : List PatchFlaw → Except Rejection Unit
  | [] => .ok ()
  | first :: others => .error ⟨first, others⟩

end Rejection

def Record.operatorFlaws (r : Record) (catalog : Catalog) (index : Nat) : List PatchFlaw :=
  match catalog.find? r.operator with
  | none => [.unknownOperator index r.operator]
  | some op =>
    if op.arity < r.inputs.length then [.tooManyInputs index r.inputs.length op.arity] else []

/-- The flaws of the inputs of a record among `count`. Only minus one leaves a slot open. -/
def Record.inputFlaws (r : Record) (count index : Nat) : List PatchFlaw :=
  r.inputs.zipIdx.filterMap fun (source, slot) =>
    if source = index then some (.readsItself index slot)
    else if source < -1 ∨ count ≤ source then some (.inputOutOfRange index slot source count)
    else none

namespace Document

def flaws (document : Document) (catalog : Catalog) : List PatchFlaw :=
  document.zipIdx.flatMap fun (r, index) =>
    r.operatorFlaws catalog index ++ r.inputFlaws document.length index

def check (document : Document) (catalog : Catalog) : Except Rejection Unit :=
  Rejection.ofFlaws (document.flaws catalog)

end Document

def Patch.check (patch : Patch) (catalog : Catalog) : Except Rejection Unit :=
  let count := patch.document.length
  Rejection.ofFlaws (patch.document.flaws catalog ++
    if count ≤ patch.output then [.outputOutOfRange patch.output count] else [])

end Patchbay
