import Patchbay.Toml.Number
import Patchbay.Toml.Quoted

/-!
# TOML documents

A document is a list of statements: assignments to dotted keys and headers that name the table of
the assignments after them. Putting the statements together refuses whatever is defined twice.
-/

namespace Patchbay.Toml

open Scan

/-- Arrays and inline tables nest less deep than this, and keys have fewer parts. -/
def depthLimit : Nat := 80

def blanks : Scan Unit := do let _ ← run fun c => c == ' ' || c == '\t'

def newline : Scan Unit := fun cs => (dropNewline? cs).map ((), ·)

def comment : Scan Unit := do
  char '#'
  let _ ← run fun c => !isControl c

def lineEnd : Scan Unit
  | [] => some ((), [])
  | cs => newline cs

def lineTrail : Scan Unit := do
  blanks
  let _ ← perhaps comment
  lineEnd

/-- Blanks, line ends and comments between the elements of an array. -/
def arraySpace : Scan Unit := do
  let _ ← many ((do let _ ← run1 fun c => c == ' ' || c == '\t') <|> newline <|>
    (do comment; newline))

def keyPart : Scan String := do
  blanks
  let part ← lineText <|> (do return String.ofList (← run1 isBareKeyChar))
  blanks
  return part

def key : Scan (List String) := do
  let parts ← separated keyPart (char '.')
  if parts.length < depthLimit then pure parts else fail

/-! ### Inline tables -/

/-- How a table came to be: by its own header or braces, as a parent of another header, or by a
dotted key. -/
inductive Origin where
  | stated
  | implied
  | dotted
deriving DecidableEq

/-- A document under construction. -/
inductive Item where
  | value (value : Value)
  | table (origin : Origin) (entries : List (String × Item))
  | tables (elements : List (List (String × Item)))

abbrev Entries := List (String × Item)

mutual

def Item.toValue : Item → Value
  | .value v => v
  | .table _ entries => .table (entriesToValues entries)
  | .tables elements => .array (elementsToValues elements)

def entriesToValues : List (String × Item) → List (String × Value)
  | [] => []
  | e :: r => entryToValue e :: entriesToValues r

def entryToValue : String × Item → String × Value
  | (k, item) => (k, item.toValue)

def elementsToValues : List (List (String × Item)) → List Value
  | [] => []
  | es :: r => .table (entriesToValues es) :: elementsToValues r

end

def Entries.set (es : Entries) (k : String) (item : Item) : Entries :=
  es.map fun e => if e.1 = k then (k, item) else e

def setLast {α : Type} (xs : List α) (x : α) : List α := xs.dropLast ++ [x]

/-- Goes down a path, making tables that are missing, and changes the entries at its end. A dotted
key does not enter a table that was stated on its own, and nothing enters a value. -/
def Entries.within (dotted : Bool) (f : Origin → Entries → Option Entries) :
    List String → Origin → Entries → Option Entries
  | [], origin, es => f origin es
  | k :: path, _, es =>
    let made : Origin := if dotted then .dotted else .implied
    match es.lookup k with
    | none => (within dotted f path made []).map fun t => es ++ [(k, .table made t)]
    | some (.value _) => none
    | some (.tables elements) =>
      (within dotted f path .stated (elements.getLast?.getD [])).map fun t =>
        es.set k (.tables (setLast elements t))
    | some (.table origin t) =>
      if dotted ∧ origin = .stated then none
      else (within dotted f path origin t).map fun t => es.set k (.table origin t)

/-- Adds a value under a dotted key. Keys that end in one table are dotted all or none. -/
def Entries.assign (es : Entries) (path : List String) (v : Value) : Option Entries :=
  match path.reverse with
  | [] => none
  | k :: parents =>
    es.within true (fun origin t =>
      if (origin == .dotted) == parents.isEmpty || (t.lookup k).isSome then none
      else some (t ++ [(k, .value v)])) parents.reverse .stated

def inlineTable (assignments : List (List String × Value)) : Option Value :=
  (assignments.foldlM (fun (es : Entries) a => es.assign a.1 a.2) []).map fun es =>
    .table (entriesToValues es)

/-! ### Values -/

def scalar : Scan Value :=
  (Value.text <$> anyText) <|>
  ((fun _ => Value.boolean true) <$> word ['t', 'r', 'u', 'e']) <|>
  ((fun _ => Value.boolean false) <$> word ['f', 'a', 'l', 's', 'e']) <|>
  (Value.moment <$> Moment.scan) <|>
  (Value.decimal <$> decimalNumber) <|>
  (Value.decimal <$> specialDecimal) <|>
  (Value.integer <$> basedInteger 'x' 16 hexDigit?) <|>
  (Value.integer <$> basedInteger 'o' 8 hexDigit?) <|>
  (Value.integer <$> basedInteger 'b' 2 hexDigit?) <|>
  (Value.integer <$> wholeNumber)

/-- Elements between brackets; a comma may follow the last one. -/
def arrayOf (element : Scan Value) : Scan Value := do
  char '['
  let elements ← perhaps do
    let elements ← separated (do arraySpace; let v ← element; arraySpace; pure v) (char ',')
    let _ ← perhaps (char ',')
    pure elements
  arraySpace
  char ']'
  return .array (elements.getD [])

/-- Assignments between braces, on one line and without a comma after the last one. -/
def tableOf (entry : Scan Value) : Scan Value := do
  char '\x7b'
  let assignments ← perhaps (separated (do
    let k ← key
    char '='
    blanks
    let v ← entry
    blanks
    pure (k, v)) (char ','))
  blanks
  char '\x7d'
  match inlineTable (assignments.getD []) with
  | some v => pure v
  | none => fail

/-- A value with at most that many arrays and inline tables in each other. -/
def value : Nat → Scan Value
  | 0 => scalar
  | depth + 1 => arrayOf (value depth) <|> tableOf (value depth) <|> scalar

/-! ### Statements -/

/-- A line that is not blank. -/
inductive Statement where
  | assign (path : List String) (value : Value)
  | table (path : List String)
  | tables (path : List String)

/-- One line, its end included. There is none at the end of the text. -/
def line : Scan (Option Statement) := do
  if (← rest).isEmpty then fail
  blanks
  match ← rest with
  | '#' :: _ => comment; lineEnd; return none
  | '[' :: '[' :: _ =>
    char '['; char '['
    let path ← key
    char ']'; char ']'
    lineTrail
    return some (.tables path)
  | '[' :: _ =>
    char '['
    let path ← key
    char ']'
    lineTrail
    return some (.table path)
  | [] | '\n' :: _ | '\r' :: _ => lineEnd; return none
  | _ =>
    let path ← key
    char '='
    blanks
    let v ← value (depthLimit - 1)
    lineTrail
    return some (.assign path v)

/-- All statements of a text, or nothing if a line is not well formed. -/
def statements? (text : String) : Option (List Statement) :=
  let cs := match text.toList with
    | '\ufeff' :: cs => cs
    | cs => cs
  match many line cs with
  | some (found, []) => some (found.filterMap id)
  | _ => none

/-! ### Putting statements together -/

/-- The entries so far, and the header that assignments belong to. -/
structure Draft where
  root : Entries
  header : List String

/-- Changes the table of a header: the last element where a header names an array of tables. -/
def Entries.at (f : Entries → Option Entries) : List String → Entries → Option Entries
  | [], es => f es
  | k :: path, es =>
    match es.lookup k with
    | some (.table origin t) => (Entries.at f path t).map fun t => es.set k (.table origin t)
    | some (.tables elements) =>
      (Entries.at f path (elements.getLast?.getD [])).map fun t =>
        es.set k (.tables (setLast elements t))
    | _ => none

/-- States a table that is new, or known only as the parent of another. -/
def stateTable (k : String) (es : Entries) : Option Entries :=
  match es.lookup k with
  | none => some (es ++ [(k, .table .stated [])])
  | some (.table .implied t) => some (es.set k (.table .stated t))
  | _ => none

def stateElement (k : String) (es : Entries) : Option Entries :=
  match es.lookup k with
  | none => some (es ++ [(k, .tables [[]])])
  | some (.tables elements) => some (es.set k (.tables (elements ++ [[]])))
  | _ => none

def Draft.open (d : Draft) (path : List String) (f : String → Entries → Option Entries) :
    Option Draft :=
  match path.reverse with
  | [] => none
  | k :: parents =>
    (d.root.within false (fun _ es => f k es) parents.reverse .stated).map (⟨·, path⟩)

def Draft.add (d : Draft) : Statement → Option Draft
  | .assign path v => (Entries.at (·.assign path v) d.header d.root).map ({ d with root := · })
  | .table path => d.open path stateTable
  | .tables path => d.open path stateElement

/-- Reads a document; nothing if a line is not well formed or something is defined twice. -/
def read? (text : String) : Option (List (String × Value)) := do
  let found ← statements? text
  let d ← found.foldlM Draft.add ⟨[], []⟩
  some (entriesToValues d.root)

end Patchbay.Toml
