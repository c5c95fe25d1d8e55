import Patchbay.Catalog
import Patchbay.Graph

/-!
# Documents

A document lists the nodes of a graph as flat records, edges as positions in the list. Loading one
checks everything that an edit checks, but over the finished graph.
-/

namespace Patchbay

variable [Platform]

/-- One saved node. -/
structure Record where
  operator : OperatorId
  /-- The position of the producer of each slot; a negative one leaves the slot open. -/
  inputs : List Int
  /-- What each slot reads while it is open, as a literal of its kind. -/
  defaults : List Decimal
  config : Config
  placement : Int
deriving DecidableEq, Inhabited

abbrev Document := List Record

/-- Whether two lists of decimals have the same values; what is not a number equals nothing. -/
def sameDecimals (xs ys : List Decimal) : Bool :=
  xs.length == ys.length && (xs.zip ys).all fun (x, y) => x.sameValue y

namespace Config

/-- Whether two configurations hold the same texts and the same numbers by value. -/
def same (a b : Config) : Bool :=
  a.texts == b.texts && a.numbers.map (·.1) == b.numbers.map (·.1) &&
    sameDecimals (a.numbers.map (·.2)) (b.numbers.map (·.2))

end Config

def Record.same (a b : Record) : Bool :=
  a.operator == b.operator && a.inputs == b.inputs && sameDecimals a.defaults b.defaults &&
    a.config.same b.config && a.placement == b.placement

def Document.same (a b : Document) : Bool :=
  a.length == b.length && (a.zip b).all fun (r, s) => r.same s

def Cell.literal (c : Cell) : Kind → Decimal
  | .integer | .boolean => Decimal.ofInt c.integer.toInt
  | .decimal | .any => c.decimal

namespace Net

def position? (net : Net) (n : NodeId) : Option Nat := net.ids.idxOf? n

def record (net : Net) (node : Node) : Record :=
  { operator := node.operator.id
    inputs := node.inlets.map fun p => (p.source.bind net.position?).elim (-1) Int.ofNat
    defaults := node.sockets.map fun (s, p) => p.default.literal s.kind
    config := node.config
    placement := node.placement }

def document (net : Net) : Document := net.live.map fun (_, node) => net.record node

end Net

namespace Record

variable (r : Record)

def node (catalog : Catalog) (index : Nat) : Except GraphError Node :=
  match catalog.find? r.operator with
  | none => .error (.unknownOperator r.operator)
  | some op =>
    if op.arity < r.inputs.length then
      .error (.invalidRecord index (.inputs r.inputs.length op.arity))
    else if op.arity < r.defaults.length then
      .error (.invalidRecord index (.defaults r.defaults.length op.arity))
    else .ok
      { operator := op
        inlets := op.slots.zipIdx.map fun (slot, s) =>
          ⟨none, (r.defaults[s]?).elim slot.default fun x => .ofLiteral x slot.kind⟩
        outlets := []
        kind := op.output.fixed?
        lengths := []
        config := r.config
        placement := r.placement }

def producers (count index : Nat) : Except GraphError (List (Option NodeId)) :=
  r.inputs.zipIdx.mapM fun (source, slot) =>
    if source < 0 then .ok none
    else if count ≤ source.toNat ∨ source.toNat = index then
      .error (.invalidRecord index (.reads slot source.toNat))
    else .ok (some source.toNat)

end Record

namespace Net

/-- Refuses a net with a cycle. The node reported is the first one that no order reaches, with its
first producer. -/
def checkAcyclic (net : Net) : Except GraphError Unit :=
  let order := net.inOrder net.ids
  match net.ids.find? (!order.contains ·) with
  | none => .ok ()
  | some n => .error (.cycle n ((net.sources n).headD n))

def checkInTime (net : Net) (demanded known : List NodeId) (e : Edge) : Except GraphError Unit :=
  match net.slot? e.consumer e.slot with
  | none => .ok ()
  | some slot =>
    if net.inTime demanded known.contains e.consumer slot e.producer then .ok ()
    else .error (.compileTimeRequired e.consumer e.slot e.producer)

/-- The known ones among the producers of edges that must be in time. Each is looked at once,
however many slots it feeds. -/
def knownEarly (net : Net) (demanded : List NodeId) : List NodeId :=
  let early := net.edges.filter fun e => net.demands e || demanded.contains e.consumer
  (early.map (·.producer)).eraseDups.filter net.isKnown

/-- Refuses an edge whose producer has another length than its slot. Goes on with the lengths found
so far, so that a producer of many slots is compiled once. -/
def checkFixedLength (net : Net) (found : List (NodeId × Nat)) (e : Edge) :
    Except GraphError (List (NodeId × Nat)) :=
  match net.slot? e.consumer e.slot with
  | none => .ok found
  | some slot =>
    if slot.length = 0 then .ok found
    else do
      let length ← (found.lookup e.producer).elim (net.probe e.producer) .ok
      checkFound e.consumer e.slot slot e.producer length
      .ok ((e.producer, length) :: found)

def edgesOf (sources : List (List (Option NodeId))) : List Edge :=
  sources.zipIdx.flatMap fun (slots, n) =>
    slots.zipIdx.filterMap fun (source, slot) => source.map (⟨·, n, slot⟩)

def connect (net : Net) (edges : List Edge) : Net :=
  edges.foldl (fun net e => net.setSource e.consumer e.slot (some e.producer)) net

/-- The net of a document, edges included, before it is checked as a whole. -/
def ofRecords (document : Document) (catalog : Catalog) : Except GraphError Net := do
  let nodes ← document.zipIdx.mapM fun (r, index) => r.node catalog index
  let sources ← document.zipIdx.mapM fun (r, index) => r.producers document.length index
  .ok (connect ⟨(nodes.map some).toArray, nodes.length⟩ (edgesOf sources))

/-- The net of a document that keeps every rule of an edit. -/
def ofDocument (document : Document) (catalog : Catalog) : Except GraphError Net := do
  let net ← ofRecords document catalog
  net.checkAcyclic
  let demanded := net.demanded
  net.edges.forM (net.checkInTime demanded (net.knownEarly demanded))
  let net := net.resolve
  discard (net.edges.foldlM net.checkFixedLength [])
  .ok net

end Net

namespace Graph

/-- Loads a document; its records become the nodes 0, 1, 2 and so on. -/
def ofDocument (id : GraphId) (document : Document) (catalog : Catalog) : Except GraphError Graph :=
  (Net.ofDocument document catalog).map (Graph.empty id).withNet

end Graph
end Patchbay
