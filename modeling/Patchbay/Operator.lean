import Patchbay.Config
import Patchbay.Fault
import Patchbay.Host
import Patchbay.Region

/-!
# Operators and nets

An operator describes one kind of node: its slots, the kind of its output and its body. A body is a
kernel, the input of the graph, or a whole net that was promoted to an operator. Nets hold nodes,
nodes hold operators, and operators may hold nets, so the types are declared together.
-/

namespace Patchbay

/-- The identity of a graph; a promoted net remembers which graph it was taken from. -/
abbrev GraphId := Nat

abbrev ContextId := Nat

/-- The identity of an operator: a scope and a number in it. -/
structure OperatorId where
  owner : Nat
  number : Nat
deriving DecidableEq, Inhabited

namespace OperatorId

def builtin (number : Nat) : OperatorId := ⟨0, number⟩

def before (a b : OperatorId) : Bool :=
  a.owner < b.owner || (a.owner == b.owner && a.number < b.number)

def text (i : OperatorId) : String := toString i.owner ++ ":" ++ toString i.number

end OperatorId

/-- An input of an operator. -/
structure Slot where
  name : String
  kind : Kind
  /-- The length every producer must have, or zero for any. -/
  length : Nat := 0
  /-- Whether the value must be known before the first block. -/
  compileTime : Bool := false
  /-- What the slot reads while nothing is attached. -/
  default : Cell := .zero
deriving DecidableEq, Inhabited

abbrev Legs := List Cells

namespace Legs

def leg (l : Legs) (slot : Nat) : Cells := l[slot]?.getD []

def scalar (l : Legs) (slot : Nat) : Decimal := (l.leg slot).head?.elim 0 Cell.decimal

def integer (l : Legs) (slot : Nat) : Int64 := (l.leg slot).head?.elim 0 Cell.integer

end Legs

/-- What the length of an output may depend on. -/
structure Query where
  config : Config
  legs : Legs
  attached : List Bool

namespace Query

def length (q : Query) (slot : Nat) : Nat := (q.legs.leg slot).length

def isAttached (q : Query) (slot : Nat) : Bool := q.attached[slot]?.getD false

end Query

variable [Platform]

/-- A body in two parts, a length and a filling of that many cells, with its effect on the host. -/
structure Kernel where
  length : Query → Except Fault Nat
  /-- Fills the buffer it is given. -/
  fill : Config → Host → Legs → Cells → Cells
  /-- What filling that many cells does to a stream. -/
  effect : Config → Legs → Nat → Stream → Stream := fun _ _ _ s => s
  /-- What filling that many cells does to a host of another type. -/
  guestEffect : Config → Legs → Nat → Platform.Guest → Platform.Guest := fun _ _ _ g => g
  length_fill : ∀ config host legs out, (fill config host legs out).length = out.length := by
    intros; simp

/-- The host after the body has filled that many cells. No body attaches a host or detaches it. -/
def Kernel.touch (k : Kernel) (config : Config) (legs : Legs) (count : Nat) : Host → Host
  | .detached => .detached
  | .stream s => .stream (k.effect config legs count s)
  | .foreign g => .foreign (k.guestEffect config legs count g)

/-- An input of a node: its producer, and what it reads without one. -/
structure Inlet where
  source : Option NodeId
  default : Cell
deriving DecidableEq, Inhabited

/-- One slot of one node. -/
structure Port where
  node : NodeId
  slot : Nat
deriving DecidableEq, Repr, Inhabited

namespace Port

def before (p q : Port) : Bool := p.node < q.node || (p.node == q.node && p.slot < q.slot)

/-- Puts a port in its place among ports in order, unless it is there. -/
def insert (p : Port) : List Port → List Port
  | [] => [p]
  | q :: r => if p.before q then p :: q :: r else if p = q then q :: r else q :: insert p r

end Port

mutual

/-- One kind of node. -/
structure Operator where
  id : OperatorId
  name : String
  category : String
  slots : List Slot
  output : OutputKind
  /-- The slot whose producer a following output asks first. -/
  follow : Option Nat
  /-- Whether the output must be computed anew in every block. -/
  live : Bool
  body : Body

/-- What a node does. -/
inductive Body where
  | kernel (kernel : Kernel)
  | input
  | promoted (template : Template)

/-- A net frozen for use as an operator, with its output and the graph it was taken from. -/
structure Template where
  net : Net
  output : NodeId
  source : GraphId
  /-- The graphs that the templates inside the net were taken from, at any depth. They are gathered
  once, since a net may hold one template in many places. -/
  inner : List GraphId

/-- Nodes under their handles; a removed node leaves its handle empty. -/
structure Net where
  nodes : Array (Option Node)
  /-- How many nodes are still there. -/
  count : Nat

/-- A placed operator. An edge is kept at both of its ends. -/
structure Node where
  operator : Operator
  inlets : List Inlet
  /-- The ports that read the node, in order and each once. -/
  outlets : List Port
  /-- The kind of the output as it was settled last. -/
  kind : Option Kind
  /-- The length of the output in the compiles that are remembered. -/
  lengths : List (ContextId × Nat)
  config : Config
  /-- Orders the inputs of a graph. -/
  placement : Int

end

namespace Operator

def arity (op : Operator) : Nat := op.slots.length

def isInput (op : Operator) : Bool := op.body matches .input

def template? (op : Operator) : Option Template :=
  match op.body with
  | .promoted t => some t
  | _ => none

/-- The operator that reads a vector from outside; its kind follows its readers. -/
def input (id : OperatorId) : Operator :=
  { id, name := "input", category := "io", slots := [], output := .follows, follow := none,
    live := false, body := .input }

/-- A node of this operator with nothing attached and nothing configured. -/
def node (op : Operator) : Node :=
  { operator := op, inlets := op.slots.map fun s => ⟨none, s.default⟩, outlets := [],
    kind := op.output.fixed?, lengths := [], config := .empty, placement := 0 }

theorem sizeOf_template? {op : Operator} {t : Template} (h : op.template? = some t) :
    sizeOf t < sizeOf op := by
  unfold template? at h
  split at h
  · cases h
    cases op
    simp_all
    omega
  · cases h

end Operator

def Template.origins (t : Template) : List GraphId := t.source :: t.inner

/-- The graphs that the templates of an operator were taken from, at any depth. -/
def Operator.origins (op : Operator) : List GraphId := op.template?.elim [] Template.origins

/-- The graphs that the templates inside a net were taken from, at any depth and each once. -/
def Net.origins (net : Net) : List GraphId :=
  (net.nodes.toList.flatMap fun node => node.elim [] fun n => n.operator.origins).eraseDups

def Template.ofNet (net : Net) (output : NodeId) (source : GraphId) : Template :=
  { net, output, source, inner := net.origins }

namespace Node

def sockets (n : Node) : List (Slot × Inlet) := n.operator.slots.zip n.inlets

def sources (n : Node) : List NodeId := n.inlets.filterMap (·.source)

end Node
end Patchbay
