import Patchbay.Patch
import Patchbay.Toml.Printer
import Patchbay.Toml.Reader

/-!
# Patches as TOML

A patch is written as a document with one section for each record and two for its configuration.
Reading takes any document with the members that are needed; all but the name of a patch and the
operator of a record have defaults.
-/

namespace Patchbay

variable [Platform]

open Toml (Value member)

namespace Config

def toValue (c : Config) : Value :=
  .table [("numbers", .table (c.numbers.map fun (k, x) => (k, .decimal x))),
    ("text", .table (c.texts.map fun (k, t) => (k, .text t)))]

def ofValue? (v : Value) : Option Config := do
  let members ← v.members? ["numbers", "text"]
  let numbers ← member members "numbers" (some []) (·.entries? Value.decimal?)
  let texts ← member members "text" (some []) (·.entries? Value.text?)
  some ⟨Table.ofList numbers, Table.ofList texts⟩

end Config

namespace Record

def toValue (r : Record) : Value :=
  .table [("operator", .integer r.operator.number), ("owner", .integer r.operator.owner),
    ("inputs", .array (r.inputs.map .integer)), ("defaults", .array (r.defaults.map .decimal)),
    ("config", r.config.toValue), ("placement", .integer r.placement)]

def ofValue? (v : Value) : Option Record := do
  let members ← v.members? ["operator", "owner", "inputs", "defaults", "config", "placement"]
  let number ← member members "operator" none (·.natural? UInt32.size)
  let owner ← member members "owner" (some 0) (·.natural? UInt64.size)
  let inputs ← member members "inputs" (some [])
    (·.list? (·.integer? Toml.minInteger Toml.maxInteger))
  let defaults ← member members "defaults" (some []) (·.list? Value.decimal?)
  let config ← member members "config" (some .empty) Config.ofValue?
  let placement ← member members "placement" (some 0)
    (·.integer? Int32.minValue.toInt Int32.maxValue.toInt)
  some ⟨⟨owner, number⟩, inputs, defaults, config, placement⟩

end Record

namespace Document

def toValue (document : Document) : Value :=
  .table [("nodes", .array (document.map Record.toValue))]

def ofValue? (v : Value) : Option Document := do
  member (← v.members? ["nodes"]) "nodes" (some []) (·.list? Record.ofValue?)

end Document

namespace Patch

/-- The entries of the document. A missing description and an empty list of vectors are left out. -/
def toEntries (patch : Patch) : List (String × Value) :=
  [("name", .text patch.name)] ++
    (patch.description.toList.map fun d => ("description", .text d)) ++
    [("output", .integer patch.output)] ++
    (if patch.externals.isEmpty then []
      else [("externals", .array (patch.externals.map fun xs => .array (xs.map .decimal)))]) ++
    [("graph", patch.document.toValue)]

def toToml? (patch : Patch) : Option String := Toml.render? patch.toEntries

def ofToml? (text : String) : Option Patch := do
  let members ← Toml.read? text
  let name ← member members "name" none Value.text?
  let description ← member members "description" (some none) fun v => v.text?.map some
  let output ← member members "output" (some 0) (·.natural? UInt64.size)
  let externals ← member members "externals" (some []) (·.list? (·.list? Value.decimal?))
  let document ← member members "graph" (some []) Document.ofValue?
  some ⟨name, description, output, externals, document⟩

end Patch
end Patchbay
