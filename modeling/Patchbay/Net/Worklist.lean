import Patchbay.Net.Reach

/-!
# Searches turn by turn

Whether a node lies upstream of another one, and whether something downstream of a node demands its
value early, is found out by a loop over a stack. A turn of the loop takes the node on top. It ends
the loop when it finds there what is looked for, passes over what was visited before, and otherwise
puts the nodes that come next on the stack, whether they lie there already or not.
-/

namespace Patchbay

variable [Platform]

/-- A loop between two turns, with the top of the stack and the latest visit first. -/
inductive Worklist where
  | running (stack visited : List NodeId)
  | ended (answer : Bool)
deriving DecidableEq, Repr

/-- What a loop does with the nodes that it takes. -/
structure Search where
  /-- Whether the node itself is looked for. This is asked of visited nodes as well. -/
  sought : NodeId → Bool
  /-- Whether a visit to the node can be marked. -/
  markable : NodeId → Bool
  /-- Puts what comes next on the stack, unless what is looked for turns up among it. -/
  push : NodeId → List NodeId → Option (List NodeId)

namespace Search

def start (n : NodeId) : Worklist := .running [n] []

def turn (s : Search) : Worklist → Worklist
  | .ended answer => .ended answer
  | .running [] _ => .ended false
  | .running (n :: stack) visited =>
    if s.sought n then .ended true
    else if !s.markable n || visited.contains n then .running stack visited
    else match s.push n stack with
      | none => .ended true
      | some stack => .running stack (n :: visited)

def run (s : Search) : Nat → Worklist → Worklist
  | 0, w => w
  | turns + 1, w => s.run turns (s.turn w)

end Search

namespace Net

/-- The search for `old` among a node and its ancestors. There is a mark for every handle that was
given out. -/
def ancestorSearch (net : Net) (old : NodeId) : Search where
  sought n := n == old
  markable n := decide (n < net.nodes.size)
  push n stack := some ((net.sources n).foldl (fun stack p => p :: stack) stack)

/-- The search for a slot downstream that demands its value early. The readers of a node are pushed
one after the other, up to the first that reads with such a slot. -/
def demandSearch (net : Net) : Search where
  sought _ := false
  markable _ := true
  push n stack := (net.readers n).foldlM
    (fun stack e => if net.demands e then none else some (e.consumer :: stack)) stack

end Net
end Patchbay
