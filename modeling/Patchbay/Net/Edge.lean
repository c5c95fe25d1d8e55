import Patchbay.Operator

/-!
# Nodes and edges of a net

An edge is kept twice: the inlet that reads knows its producer, and the producer knows the ports
that read it. Every change to an inlet changes both ends, so the two directions agree.
-/

namespace Patchbay

variable [Platform]

/-- A producer attached to a slot of a consumer. -/
structure Edge where
  producer : NodeId
  consumer : NodeId
  slot : Nat
deriving DecidableEq, Repr

namespace Net

def empty : Net := ⟨#[], 0⟩

def node? (net : Net) (n : NodeId) : Option Node := net.nodes[n]?.join

def contains (net : Net) (n : NodeId) : Bool := (net.node? n).isSome

/-- The nodes that are still there, with their handles in ascending order. -/
def live (net : Net) : List (NodeId × Node) :=
  net.nodes.toList.zipIdx.filterMap fun (node, n) => node.map (n, ·)

def ids (net : Net) : List NodeId := net.live.map (·.1)

def size (net : Net) : Nat := net.count

def operator? (net : Net) (n : NodeId) : Option Operator := (net.node? n).map (·.operator)

def template? (net : Net) (n : NodeId) : Option Template :=
  (net.operator? n).bind (·.template?)

def slot? (net : Net) (n : NodeId) (slot : Nat) : Option Slot :=
  (net.operator? n).bind (·.slots[slot]?)

def inlet? (net : Net) (n : NodeId) (slot : Nat) : Option Inlet :=
  (net.node? n).bind (·.inlets[slot]?)

def source? (net : Net) (n : NodeId) (slot : Nat) : Option NodeId :=
  (net.inlet? n slot).bind (·.source)

def sources (net : Net) (n : NodeId) : List NodeId := (net.node? n).elim [] Node.sources

def edges (net : Net) : List Edge :=
  net.live.flatMap fun (n, node) =>
    node.inlets.zipIdx.filterMap fun (inlet, slot) => inlet.source.map (⟨·, n, slot⟩)

def outlets (net : Net) (n : NodeId) : List Port := (net.node? n).elim [] Node.outlets

def readers (net : Net) (n : NodeId) : List Edge :=
  (net.outlets n).map fun p => ⟨n, p.node, p.slot⟩

/-- The input nodes in the order of their placements, those of one placement by handle. -/
def inputs (net : Net) : List NodeId :=
  ((net.live.filter (·.2.operator.isInput)).mergeSort
    (fun a b => a.2.placement ≤ b.2.placement)).map (·.1)

theorem sizeOf_node? {net : Net} {n : NodeId} {node : Node} (h : net.node? n = some node) :
    sizeOf node < sizeOf net := by
  obtain ⟨nodes, _⟩ := net
  simp only [node?, Option.join_eq_some_iff] at h
  have := Array.sizeOf_lt_of_mem (Array.mem_of_getElem? h)
  simp only [Option.some.sizeOf_spec, mk.sizeOf_spec] at this ⊢
  omega

/-- Nets inside a net are smaller, so whatever goes into promoted nodes ends. -/
theorem sizeOf_template? {net : Net} {n : NodeId} {t : Template} (h : net.template? n = some t) :
    sizeOf t.net < sizeOf net := by
  simp only [template?, operator?, Option.bind_eq_some_iff, Option.map_eq_some_iff] at h
  obtain ⟨_, ⟨node, hnode, rfl⟩, ht⟩ := h
  have hn := sizeOf_node? hnode
  have ho := Operator.sizeOf_template? ht
  obtain ⟨op, _⟩ := node
  obtain ⟨net', _, _⟩ := t
  simp only [Node.mk.sizeOf_spec, Template.mk.sizeOf_spec] at hn ho ⊢
  omega

/-! ### Unchecked changes -/

def modify (net : Net) (n : NodeId) (f : Node → Node) : Net :=
  { net with nodes := net.nodes.modify n (Option.map f) }

def push (net : Net) (op : Operator) : Net := ⟨net.nodes.push (some op.node), net.count + 1⟩

def link (net : Net) (producer : NodeId) (p : Port) : Net :=
  net.modify producer fun node => { node with outlets := p.insert node.outlets }

def unlink (net : Net) (producer : NodeId) (p : Port) : Net :=
  net.modify producer fun node => { node with outlets := node.outlets.filter (· != p) }

def feed (net : Net) (n : NodeId) (slot : Nat) (source : Option NodeId) : Net :=
  net.modify n fun node =>
    { node with inlets := node.inlets.modify slot fun inlet => { inlet with source } }

/-- Attaches a producer to a slot in place of the one that is there, or detaches that one. -/
def setSource (net : Net) (n : NodeId) (slot : Nat) (source : Option NodeId) : Net :=
  let fed := net.feed n slot source
  let freed := (net.source? n slot).elim fed fun old => fed.unlink old ⟨n, slot⟩
  source.elim freed fun new => freed.link new ⟨n, slot⟩

def portsOf (net : Net) (n : NodeId) : List Port :=
  (List.range ((net.node? n).elim 0 (·.inlets.length))).map (⟨n, ·⟩) ++ net.outlets n

def sever (net : Net) (ports : List Port) : Net :=
  ports.foldl (fun net p => net.setSource p.node p.slot none) net

def erase (net : Net) (n : NodeId) : Net :=
  let cut := net.sever (net.portsOf n)
  ⟨cut.nodes.setIfInBounds n none, cut.count - 1⟩

end Net
end Patchbay
