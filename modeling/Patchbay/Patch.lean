import Patchbay.Graph.Document

/-!
# Patches

A patch is a saved graph with the node to listen to and the vectors for its inputs.
-/

namespace Patchbay

variable [Platform]

structure Patch where
  name : String
  description : Option String
  /-- The position of the node to listen to. -/
  output : Nat
  /-- One vector for each input of the graph, in the order of the inputs. -/
  externals : List (List Decimal)
  document : Document
deriving DecidableEq, Inhabited

namespace Patch

def ofNet (name : String) (net : Net) (output : NodeId) : Except GraphError Patch :=
  match net.position? output with
  | some position => .ok ⟨name, none, position, [], net.document⟩
  | none => .error (.nodeNotFound output)

def same (a b : Patch) : Bool :=
  a.name == b.name && a.description == b.description && a.output == b.output &&
    a.externals.length == b.externals.length &&
    (a.externals.zip b.externals).all (fun (xs, ys) => sameDecimals xs ys) &&
    a.document.same b.document

/-- The vectors as cells, each of the kind of its input. A vector without an input is decimal. -/
def externalCells (patch : Patch) (net : Net) : Legs :=
  patch.externals.zipIdx.map fun (xs, index) =>
    let kind := ((net.inputs[index]?).bind net.kind?).getD .decimal
    xs.map (Cell.ofLiteral · kind)

end Patch
end Patchbay
