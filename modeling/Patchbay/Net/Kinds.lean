import Patchbay.Net.Edge

/-!
# The kind of every node

Nodes whose operator declares a kind have it. The others take a concrete kind from around them in
rounds: a round looks only at what was settled before it, so the order of the scan does not matter.
When a round settles nothing, all that is left is the wildcard.
-/

namespace Patchbay

variable [Platform]

abbrev Kinds := List (NodeId × Kind)

abbrev Settled := Array (Option Kind)

namespace Settled

variable (settled : Settled)

def kind? (n : NodeId) : Option Kind := settled[n]?.join

def concrete? (n : NodeId) : Option Kind := (settled.kind? n).filter Kind.concrete

def add (kinds : Kinds) : Settled :=
  kinds.foldl (fun settled (n, k) => settled.setIfInBounds n (some k)) settled

end Settled

/-- Where a node can take its kind from. -/
inductive KindSource where
  | declared (kind : Kind)
  | node (node : NodeId)
deriving DecidableEq

def KindSource.answer? (settled : Settled) : KindSource → Option Kind
  | declared kind => some kind
  | node n => settled.concrete? n

/-- A node without a kind and where it can take one from, in the order of asking. -/
structure Pending where
  node : NodeId
  asks : List KindSource
deriving DecidableEq

def Pending.candidate? (settled : Settled) (p : Pending) : Option Kind :=
  p.asks.findSome? (·.answer? settled)

/-- One round: the open nodes that can be settled from what is settled. -/
def round (settled : Settled) (pending : List Pending) : Kinds :=
  pending.filterMap fun p => (p.candidate? settled).map (p.node, ·)

def unsettled (settled : Settled) (pending : List Pending) : List Pending :=
  pending.filter fun p => (settled.kind? p.node).isNone

/-- Round after round, until one leaves as many open as it found. -/
def settle (settled : Settled) (pending : List Pending) : Settled :=
  let next := settled.add (round settled pending)
  let rest := unsettled next pending
  if rest.length < pending.length then settle next rest
  else settled.add (pending.map fun p => (p.node, .any))
termination_by pending.length

namespace Net

variable (net : Net)

/-- The slots whose producers a node asks, the followed one first. -/
def askedSlots (op : Operator) : List Nat :=
  op.follow.toList ++ (op.slots.zipIdx.filter (·.1.kind == .any)).map (·.2)

/-- Whether an edge ends in the slot by which its consumer, itself without a declared kind, takes
over the kind of a producer. -/
def carries (e : Edge) : Bool :=
  (net.operator? e.consumer).any fun op =>
    op.output == .follows && op.follow.all (· == e.slot) &&
      (op.slots[e.slot]?).any (·.kind == .any)

/-- Where a node can take its kind from: its producers, then the slots that read it, then the
consumers that carry its kind on. -/
def asks (n : NodeId) : List KindSource :=
  (net.node? n).elim [] fun node =>
    let readers := net.readers n
    let producers := (askedSlots node.operator).filterMap fun s =>
      (node.inlets[s]?).bind fun inlet => inlet.source.map .node
    let declared := readers.filterMap fun e =>
      (net.slot? e.consumer e.slot).bind fun s =>
        if s.kind.concrete then some (.declared s.kind) else none
    let carried := readers.filterMap fun e =>
      if net.carries e then some (.node e.consumer) else none
    producers ++ declared ++ carried

def declared : Settled :=
  net.nodes.map fun node => node.bind fun n => n.operator.output.fixed?

/-- The kinds of all nodes, when the live ones are scanned as they are listed. -/
def settledBy (scan : List NodeId) : Settled :=
  let declared := net.declared
  settle declared <| (scan.filter fun n => (declared.kind? n).isNone).map fun n => ⟨n, net.asks n⟩

def settled : Settled := net.settledBy net.ids

def withKinds (settled : Settled) : Net :=
  { net with nodes := net.nodes.mapIdx fun n node =>
      node.map fun node => { node with kind := settled.kind? n } }

def resolve : Net := net.withKinds net.settled

/-- Settles the kind of every node anew, scanning `order` first. -/
def resolveInOrder (order : List NodeId) : Net :=
  net.withKinds (net.settledBy (order.filter net.contains ++ net.ids.filter (· ∉ order)))

def kind? (n : NodeId) : Option Kind := (net.node? n).bind (·.kind)

def kinds : Kinds := net.live.filterMap fun (n, node) => node.kind.map (n, ·)

end Net

namespace Node

/-- The kind in which the output is written; what has none yet counts as the wildcard. -/
def written (node : Node) : Kind := node.kind.getD .any

/-- What an input reads without a vector from outside: its property `default`, in its own kind. -/
def fallback (node : Node) : Cell := .ofLiteral (node.config.numberOr "default" 0) node.written

/-- The kind in which the body reads a slot. A following output has its wildcard slots in its own
kind, so that every leg arrives converted. -/
def reads (node : Node) (slot : Slot) : Kind :=
  if slot.kind = .any ∧ node.operator.output = .follows then node.written else slot.kind

end Node

end Patchbay
