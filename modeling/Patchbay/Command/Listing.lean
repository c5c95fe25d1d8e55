import Patchbay.Builtin
import Patchbay.Net.Edge
import Patchbay.Plan

/-!
# Listings

What is printed about operators and about plans, line by line.
-/

namespace Patchbay.Command

variable [Platform]

def padRight (width : Nat) (s : String) : String :=
  s ++ String.ofList (List.replicate (width - s.length) ' ')

def padLeft (width : Nat) (s : String) : String :=
  String.ofList (List.replicate (width - s.length) ' ') ++ s

def outputText : OutputKind → String
  | .fixed k => k.name
  | .follows => "follows input"

/-! ### Operators -/

/-- A row of the table of slots; its first cell is filled up already. -/
def slotRow (number name kind length flags : String) : String :=
  "  ".intercalate ["", number, padRight 12 name, padRight 8 kind, padRight 6 length, flags]

def slotLine (number : Nat) (s : Slot) : String :=
  slotRow (padLeft 4 (toString number)) s.name s.kind.name
    (if s.length = 0 then "any" else toString s.length)
    (if s.compileTime then "compile-time" else "")

def operatorLines (op : Operator) : List String :=
  [op.name ++ " (" ++ op.id.text ++ ")", String.ofList (List.replicate op.name.utf8ByteSize '='),
    "", "Category: " ++ op.category, "Output:   " ++ outputText op.output] ++
  (if op.live then ["Runs every block (never folded)"] else []) ++ [""] ++
  if op.slots.isEmpty then ["No input slots."]
  else slotRow "Slot" "Name" "Type" "Length" "Flags" ::
    slotRow "----" "----" "----" "------" "-----" ::
    op.slots.zipIdx.map fun (s, number) => slotLine number s

def operatorLine (op : Operator) : String :=
  "  " ++ padRight 6 op.id.text ++ "  " ++ padRight 24 op.name ++ "  -> " ++ outputText op.output

def categoryLines (catalog : Catalog) (c : Category) : List String :=
  match catalog.operators.filter (·.category == c.name) with
  | [] => []
  | ops => "" :: (c.name ++ " - " ++ c.description) :: ops.map operatorLine

def catalogLines (catalog : Catalog) (categories : List Category) : List String :=
  ["Available Operators", "==================="] ++ categories.flatMap (categoryLines catalog)

/-! ### Plans -/

def headedLines (heading : String) (lines : List String) : List String :=
  "" :: heading :: lines.map ("  " ++ ·)

def planLines (name : String) (description : Option String) (net : Net) (plan : Plan) :
    List String :=
  ["Patch: " ++ name] ++ description.toList.map ("  " ++ ·) ++
  ["Nodes:       " ++ toString net.size, "Graph inputs: " ++ toString net.inputs.length,
    "Compiled:    " ++ toString plan.nodes.length ++ " nodes, " ++ toString plan.steps.length ++
      " steps",
    "Output:      " ++ toString plan.outputRegion.length ++ " x " ++ plan.outputKind.name,
    "Buffer:      " ++ toString plan.field.length ++ " cells"]

def cellText (style : Decimal.Style) (kind : Kind) (c : Cell) : String :=
  match kind with
  | .decimal | .any => c.decimal.render style
  | .integer => toString c.integer.toInt
  | .boolean => if c.boolean then "true" else "false"

/-- A vector in one line, as an array of JSON or with blanks between the cells. -/
def blockLine (json : Bool) (kind : Kind) (cells : Cells) : String :=
  if json then "[" ++ ",".intercalate (cells.map (cellText .json kind)) ++ "]"
  else " ".intercalate (cells.map (cellText .plain kind))

end Patchbay.Command
