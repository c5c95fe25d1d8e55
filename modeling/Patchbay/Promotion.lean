import Patchbay.Graph

/-!
# Promotion

A whole graph becomes an operator. Its inputs become slots in the order of their placements, and the
kind of its output is fixed to what it is now.
-/

namespace Patchbay

variable [Platform]

namespace Net

/-- The slot that an input becomes. It demands an early value when anything behind the input does,
and the greatest length that a reader of the input demands. -/
def promotedSlot (net : Net) (position : Nat) (n : NodeId) (node : Node) : Slot :=
  { name := (node.config.text? "name").getD ("input" ++ toString position)
    kind := node.written
    length := (net.readers n).foldl (fun m e =>
      max m ((net.slot? e.consumer e.slot).elim 0 (·.length))) 0
    compileTime := net.isDemanded n
    default := node.fallback }

def promotedSlots (net : Net) : List Slot :=
  net.inputs.zipIdx.filterMap fun (n, position) =>
    (net.node? n).map (net.promotedSlot position n)

/-- Whether a node or one of its ancestors must run in every block. -/
def isLive (net : Net) (n : NodeId) : Bool :=
  (net.lineage n).any fun m => (net.operator? m).any (·.live)

end Net

/-- Turns a graph into an operator whose output is a node of it. The operator keeps a copy of the
net as it is now. -/
def Graph.promote (g : Graph) (output : NodeId) (id : OperatorId) (name : String) :
    Except GraphError Operator :=
  if g.net.contains output then
    let frozen := g.net.resolve
    .ok
      { id, name, category := "custom", slots := frozen.promotedSlots
        output := .fixed ((frozen.kind? output).getD .any), follow := none
        live := frozen.isLive output, body := .promoted (.ofNet frozen output g.id) }
  else .error (.nodeNotFound output)

end Patchbay
