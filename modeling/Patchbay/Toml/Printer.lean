import Patchbay.Decimal.Text
import Patchbay.Toml.Quoted.Printer

/-!
# Writing documents

A table is a section of a document: its header and then one line for each value that is no table.
Tables in tables follow as sections of their own. Sections are set apart by a blank line.
-/

namespace Patchbay.Toml

namespace Value

def isTable (v : Value) : Bool := v matches .table _

/-- Whether a value makes sections: a table, or an array of nothing but tables that is not empty. -/
def isSection : Value → Bool
  | .table _ => true
  | .array elements => !elements.isEmpty && elements.all isTable
  | _ => false

end Value

mutual

/-- Whether a document can hold a value: its integers have 64 bits. -/
def Value.isWritable : Value → Bool
  | .integer n => minInteger ≤ n && n ≤ maxInteger
  | .array elements => elementsWritable elements
  | .table entries => entriesWritable entries
  | _ => true

def elementsWritable : List Value → Bool
  | [] => true
  | v :: r => v.isWritable && elementsWritable r

def entriesWritable : List (String × Value) → Bool
  | [] => true
  | e :: r => entryWritable e && entriesWritable r

def entryWritable : String × Value → Bool
  | (_, v) => v.isWritable

end

/-- An array is written on one line if it has at most one element, and else with one element a
line. -/
def arrayText : List String → String
  | [] => "[]"
  | [element] => "[" ++ element ++ "]"
  | elements => "[\n" ++ String.join (elements.map fun e => "    " ++ e ++ ",\n") ++ "]"

def bracesText : List String → String
  | [] => "\x7b\x7d"
  | entries => "\x7b " ++ ", ".intercalate entries ++ " \x7d"

mutual

def Value.written : Value → String
  | .text t => quoted t
  | .integer n => toString n
  | .decimal x => x.render .toml
  | .boolean b => if b then "true" else "false"
  | .moment m => m.text
  | .array elements => arrayText (elementTexts elements)
  | .table entries => bracesText (entryTexts entries)

def elementTexts : List Value → List String
  | [] => []
  | v :: r => v.written :: elementTexts r

def entryTexts : List (String × Value) → List String
  | [] => []
  | e :: r => entryText e :: entryTexts r

def entryText : String × Value → String
  | (k, v) => quotedKey k ++ " = " ++ v.written

end

def linesOf (entries : List (String × Value)) : String :=
  String.join ((entries.filter fun e => !e.2.isSection).map fun e => entryText e ++ "\n")

def pathText (path : List String) : String := ".".intercalate (path.map quotedKey)

mutual

def sections (path : List String) : List (String × Value) → List String
  | [] => []
  | e :: r => entrySections path e ++ sections path r

def entrySections (path : List String) : String × Value → List String
  | (k, v) => valueSections (path ++ [k]) v

def valueSections (path : List String) : Value → List String
  | .table entries =>
    (if !entries.isEmpty && entries.all (·.2.isSection) then []
      else ["[" ++ pathText path ++ "]\n" ++ linesOf entries]) ++ sections path entries
  | .array elements =>
    if elements.all Value.isTable then elementSections path elements else []
  | _ => []

def elementSections (path : List String) : List Value → List String
  | [] => []
  | .table entries :: r =>
    (("[[" ++ pathText path ++ "]]\n" ++ linesOf entries) :: sections path entries) ++
      elementSections path r
  | _ :: r => elementSections path r

end

def render? (entries : List (String × Value)) : Option String :=
  if entriesWritable entries then
    let top := linesOf entries
    some ("\n".intercalate ((if top = "" then [] else [top]) ++ sections [] entries))
  else none

end Patchbay.Toml
