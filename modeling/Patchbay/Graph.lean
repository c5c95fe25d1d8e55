import Patchbay.Plan.Layout

/-!
# Graphs

A graph is a net under edit. Every edit checks first and changes the net only when all checks pass,
so an attached edge never closes a cycle, never feeds a slot that must be known early from a node
that is not, and never feeds a slot of fixed length from a node of another length.
-/

namespace Patchbay

variable [Platform]

/-- A plan under its identity. -/
structure Context where
  id : ContextId
  plan : Plan

/-- The lengths of the nodes in the last compile. -/
structure Lengths where
  context : ContextId
  nodes : List (NodeId × Nat)
deriving DecidableEq

/-- A net with its identity, the identity of its last compile, and whether someone is told about its
edits. -/
structure Graph where
  id : GraphId
  net : Net
  compiled : Option ContextId
  watched : Bool

/-- What a watcher is told about an edit. -/
inductive Event where
  | added (node : NodeId)
  | removed (node : NodeId)
  | attached (node : NodeId) (slot : Nat) (producer : NodeId)
  | detached (node : NodeId) (slot : Nat)
deriving DecidableEq

/-- What is wrong with a saved record. -/
inductive RecordFlaw where
  | inputs (given arity : Nat)
  | defaults (given arity : Nat)
  | reads (slot source : Nat)
deriving DecidableEq

def RecordFlaw.message : RecordFlaw → String
  | inputs n arity => toString n ++ " inputs for an operator with " ++ toString arity ++ " slots"
  | defaults n arity =>
    toString n ++ " defaults for an operator with " ++ toString arity ++ " slots"
  | reads slot source => "slot " ++ toString slot ++ " reads record " ++ toString source

/-- Why an edit was refused or a saved graph not taken. -/
inductive GraphError where
  | nodeNotFound (node : NodeId)
  | slotOutOfRange (node : NodeId) (slot arity : Nat)
  | cycle (node producer : NodeId)
  | compileTimeRequired (node : NodeId) (slot : Nat) (producer : NodeId)
  | lengthMismatch (node : NodeId) (slot : Nat) (producer : NodeId) (expected found : Nat)
  | probeFailed (producer : NodeId) (cause : CompileError)
  | recursivePlacement (operator : OperatorId)
  | unknownOperator (operator : OperatorId)
  | invalidRecord (index : Nat) (flaw : RecordFlaw)
deriving DecidableEq

def GraphError.message : GraphError → String
  | nodeNotFound n => "node " ++ nodeLabel n ++ " not found"
  | slotOutOfRange n slot arity =>
    "slot " ++ toString slot ++ " out of range for node " ++ nodeLabel n ++ " (" ++
      toString arity ++ " slots)"
  | cycle n p => "connecting " ++ nodeLabel p ++ " into " ++ nodeLabel n ++ " would create a cycle"
  | compileTimeRequired n slot p =>
    "slot " ++ toString slot ++ " of node " ++ nodeLabel n ++ " needs a compile-time value, " ++
      nodeLabel p ++ " is runtime-only"
  | lengthMismatch n slot p expected found =>
    "slot " ++ toString slot ++ " of node " ++ nodeLabel n ++ " expects length " ++
      toString expected ++ ", " ++ nodeLabel p ++ " has length " ++ toString found
  | probeFailed p cause => "could not measure " ++ nodeLabel p ++ ": " ++ cause.message
  | recursivePlacement op =>
    "operator " ++ op.text ++ " contains this graph and cannot be placed in it"
  | unknownOperator op => "unknown operator " ++ op.text
  | invalidRecord index flaw => "invalid record " ++ toString index ++ ": " ++ flaw.message

/-- A length was asked for that a node does not have in a compile. -/
structure NotCompiled where
  node : NodeId
  context : ContextId
deriving DecidableEq

def NotCompiled.message (e : NotCompiled) : String :=
  "node " ++ nodeLabel e.node ++ " has no compiled size for context c" ++ toString e.context

namespace Net

/-- The length of a node that is compiled alone, without vectors from outside. -/
def probe (net : Net) (producer : NodeId) : Except GraphError Nat :=
  match net.compile producer [] with
  | .ok plan => .ok plan.outputRegion.length
  | .error cause => .error (.probeFailed producer cause)

/-- Whether an edge gives a slot its value as early as the slot, or something behind it, demands. An
input may stand in for a value that the enclosing graph supplies. -/
def inTime (net : Net) (demanded : List NodeId) (isKnown : NodeId → Bool) (n : NodeId)
    (slot : Slot) (producer : NodeId) : Bool :=
  !(slot.compileTime || demanded.contains n) ||
    (net.operator? producer).any Operator.isInput || isKnown producer

/-- Compares the length found for a producer with that of a slot of fixed length. -/
def checkFound (n : NodeId) (number : Nat) (slot : Slot) (producer : NodeId) (found : Nat) :
    Except GraphError Unit :=
  if found = slot.length then .ok ()
  else .error (.lengthMismatch n number producer slot.length found)

def checkLength (net : Net) (n : NodeId) (number : Nat) (slot : Slot) (producer : NodeId) :
    Except GraphError Unit :=
  if slot.length = 0 then .ok ()
  else do checkFound n number slot producer (← net.probe producer)

/-- All checks on a new edge: both nodes are there, the slot is in range, the edge closes no cycle,
the value comes in time, and its length fits. -/
def checkEdge (net : Net) (n : NodeId) (number : Nat) (producer : NodeId) :
    Except GraphError Unit :=
  match net.node? n, net.node? producer with
  | none, _ => .error (.nodeNotFound n)
  | _, none => .error (.nodeNotFound producer)
  | some node, some _ =>
    match node.operator.slots[number]? with
    | none => .error (.slotOutOfRange n number node.operator.arity)
    | some slot =>
      if net.reaches producer n then .error (.cycle n producer)
      else if !net.inTime net.demanded net.isKnown n slot producer then
        .error (.compileTimeRequired n number producer)
      else net.checkLength n number slot producer

end Net

namespace Net

def forget (net : Net) (context : ContextId) : Net :=
  { net with nodes := net.nodes.map <| Option.map fun node =>
      { node with lengths := node.lengths.filter (·.1 != context) } }

def remember (net : Net) (context : ContextId) (lengths : List (NodeId × Nat)) : Net :=
  lengths.foldl (fun net (n, length) => net.modify n fun node =>
    { node with lengths := (context, length) :: node.lengths }) net

end Net

/-- A graph after an edit, and what a watcher hears of it. -/
structure Edited where
  graph : Graph
  event : Option Event

namespace Graph

variable (g : Graph)

def empty (id : GraphId) : Graph := ⟨id, .empty, none, false⟩

/-- A copy under an identity of its own. -/
def copy (id : GraphId) : Graph := { g with id }

/-- A copy that nobody watches. -/
def snapshot (id : GraphId) : Graph := { g.copy id with watched := false }

def withNet (net : Net) : Graph := { g with net }

def nextNode : NodeId := g.net.nodes.size

/-- The same graph with a change to its net that a watcher may hear of. The kinds of all nodes are
settled anew. -/
def edited (net : Net) (event : Event) : Edited :=
  ⟨g.withNet net.resolve, if g.watched then some event else none⟩

/-- Places an operator, unless it contains this graph at any depth. -/
def add (op : Operator) : Except GraphError Edited :=
  if op.origins.contains g.id then .error (.recursivePlacement op.id)
  else .ok (g.edited (g.net.push op) (.added g.nextNode))

def remove (n : NodeId) : Except GraphError Edited :=
  if g.net.contains n then .ok (g.edited (g.net.erase n) (.removed n))
  else .error (.nodeNotFound n)

/-- Feeds a slot from a producer in place of what fed it before. -/
def attach (n : NodeId) (slot : Nat) (producer : NodeId) : Except GraphError Edited := do
  g.net.checkEdge n slot producer
  .ok (g.edited (g.net.setSource n slot (some producer)) (.attached n slot producer))

/-- Empties a slot; an empty one stays empty and nobody hears of it. -/
def detach (n : NodeId) (slot : Nat) : Except GraphError Edited :=
  match g.net.node? n with
  | none => .error (.nodeNotFound n)
  | some node =>
    match node.inlets[slot]? with
    | none => .error (.slotOutOfRange n slot node.inlets.length)
    | some inlet =>
      if inlet.source.isNone then .ok ⟨g, none⟩
      else .ok (g.edited (g.net.setSource n slot none) (.detached n slot))

def adjust (n : NodeId) (f : Node → Node) : Except GraphError Graph :=
  if g.net.contains n then .ok (g.withNet (g.net.modify n f)) else .error (.nodeNotFound n)

def setDefault (n : NodeId) (slot : Nat) (value : Cell) : Except GraphError Graph :=
  match g.net.node? n with
  | none => .error (.nodeNotFound n)
  | some node =>
    if slot < node.inlets.length then
      g.adjust n fun node =>
        { node with inlets := node.inlets.modify slot fun inlet => { inlet with default := value } }
    else .error (.slotOutOfRange n slot node.inlets.length)

def setConfig (n : NodeId) (config : Config) : Except GraphError Graph :=
  g.adjust n fun node => { node with config }

def setNumber (n : NodeId) (key : String) (value : Decimal) : Except GraphError Graph :=
  g.adjust n fun node => { node with config := node.config.setNumber key value }

def setText (n : NodeId) (key value : String) : Except GraphError Graph :=
  g.adjust n fun node => { node with config := node.config.setText key value }

def setPlacement (n : NodeId) (placement : Int) : Except GraphError Graph :=
  g.adjust n fun node => { node with placement }

/-- Settles the kinds of all nodes anew, scanning `order` first. -/
def resolveInOrder (order : List NodeId) : Graph := g.withNet (g.net.resolveInOrder order)

/-- Compiles a node and everything it depends on and keeps the lengths; those of an older compile
are forgotten. -/
def compile (context : ContextId) (output : NodeId) (externals : Legs) :
    Except CompileError (Graph × Context) :=
  (g.net.compile output externals).map fun plan =>
    let forgotten := g.compiled.elim g.net g.net.forget
    let lengths := plan.nodes.map fun p => (p.source, p.region.length)
    ({ g with net := forgotten.remember context lengths, compiled := some context },
      ⟨context, plan⟩)

def lengthIn? (n : NodeId) (context : ContextId) : Option Nat :=
  (g.net.node? n).bind fun node => node.lengths.lookup context

def outputLength (n : NodeId) (context : ContextId) : Except NotCompiled Nat :=
  match g.lengthIn? n context with
  | some length => .ok length
  | none => .error ⟨n, context⟩

def lengths : Option Lengths :=
  g.compiled.map fun context =>
    ⟨context, g.net.ids.filterMap fun n => (g.lengthIn? n context).map (n, ·)⟩

end Graph
end Patchbay
