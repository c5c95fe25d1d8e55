import Patchbay.Graph

/-!
# Editing in place

A graph that is edited where it lies is written step by step, and a step that fails leaves behind
what was written before it. Each operation is the same one as on graphs that are values, with its
lookups, its writes and what its watcher hears in order.
-/

namespace Patchbay

variable [Platform]

/-- A graph that is edited in place, and what its watcher has heard. -/
structure Desk where
  graph : Graph
  heard : List Event

/-- An attempt to edit. What was written on the way stays when the attempt fails. -/
abbrev Editing (ε : Type) := EStateM ε Desk

def Net.vacate (net : Net) (n : NodeId) : Net :=
  ⟨net.nodes.setIfInBounds n none, net.count - 1⟩

namespace Editing

variable {ε : Type}

def find (n : NodeId) : Editing GraphError Node := do
  match (← get).graph.net.node? n with
  | some node => return node
  | none => throw (.nodeNotFound n)

def inlet (n : NodeId) (slot : Nat) : Editing GraphError Inlet := do
  let node ← find n
  match node.inlets[slot]? with
  | some inlet => return inlet
  | none => throw (.slotOutOfRange n slot node.inlets.length)

def write (f : Net → Net) : Editing ε Unit :=
  modify fun desk => { desk with graph := desk.graph.withNet (f desk.graph.net) }

def finish (event : Event) : Editing ε Unit := do
  write Net.resolve
  modify fun desk =>
    if desk.graph.watched then { desk with heard := desk.heard ++ [event] } else desk

/-! ### Edges and nodes -/

def add (op : Operator) : Editing GraphError NodeId := do
  let g := (← get).graph
  if op.origins.contains g.id then throw (.recursivePlacement op.id)
  write (·.push op)
  finish (.added g.nextNode)
  return g.nextNode

/-- Tells the producers of a node and then its readers that it is gone, and takes it out. -/
def remove (n : NodeId) : Editing GraphError Unit := do
  let node ← find n
  node.inlets.zipIdx.forM fun (inlet, slot) =>
    inlet.source.forM fun p => write (·.unlink p ⟨n, slot⟩)
  node.outlets.forM fun reader => write (·.feed reader.node reader.slot none)
  write (·.vacate n)
  finish (.removed n)

/-- Feeds a slot. The producer is looked up once more after the slot is written. -/
def attach (n : NodeId) (slot : Nat) (producer : NodeId) : Editing GraphError Unit := do
  ofExcept ((← get).graph.net.checkEdge n slot producer)
  let previous ← inlet n slot
  write (·.feed n slot (some producer))
  previous.source.forM fun old => write (·.unlink old ⟨n, slot⟩)
  discard (find producer)
  write (·.link producer ⟨n, slot⟩)
  finish (.attached n slot producer)

def detach (n : NodeId) (slot : Nat) : Editing GraphError Unit := do
  let previous ← inlet n slot
  write (·.feed n slot none)
  previous.source.forM fun old => do
    write (·.unlink old ⟨n, slot⟩)
    finish (.detached n slot)

/-! ### Properties -/

def adjust (n : NodeId) (f : Node → Node) : Editing GraphError Unit := do
  discard (find n)
  write (·.modify n f)

def setDefault (n : NodeId) (slot : Nat) (value : Cell) : Editing GraphError Unit := do
  discard (inlet n slot)
  write (·.modify n fun node =>
    { node with inlets := node.inlets.modify slot fun inlet => { inlet with default := value } })

/-! ### Compiles -/

/-- Compiles a node, then forgets the lengths of the last compile and keeps those of this one. -/
def compile (context : ContextId) (output : NodeId) (externals : Legs) :
    Editing CompileError Context := do
  let g := (← get).graph
  let plan ← ofExcept (g.net.compile output externals)
  modify fun desk => { desk with graph := { desk.graph with compiled := some context } }
  g.compiled.forM fun old => write (·.forget old)
  plan.nodes.forM fun p => write (·.modify p.source fun node =>
    { node with lengths := (context, p.region.length) :: node.lengths })
  return ⟨context, plan⟩

end Editing

/-! ### Calls -/

/-- What can be asked of a graph that is edited. -/
inductive Call where
  | add (op : Operator)
  | remove (n : NodeId)
  | attach (n : NodeId) (slot : Nat) (producer : NodeId)
  | detach (n : NodeId) (slot : Nat)
  | setDefault (n : NodeId) (slot : Nat) (value : Cell)
  | setNumber (n : NodeId) (key : String) (value : Decimal)
  | setText (n : NodeId) (key value : String)
  | setConfig (n : NodeId) (config : Config)
  | setPlacement (n : NodeId) (placement : Int)
  | compile (context : ContextId) (output : NodeId) (externals : Legs)

/-- What a call answers. -/
inductive Answer where
  | done
  | placed (n : NodeId)
  | compiled (context : Context)

/-- Why a call was refused. -/
inductive Refusal where
  | edit (cause : GraphError)
  | compile (cause : CompileError)

namespace Call

def perform : Call → Editing Refusal Answer
  | add op => (Editing.add op).adaptExcept .edit >>= fun n => return .placed n
  | remove n => done (Editing.remove n)
  | attach n slot producer => done (Editing.attach n slot producer)
  | detach n slot => done (Editing.detach n slot)
  | setDefault n slot value => done (Editing.setDefault n slot value)
  | setNumber n key value =>
    done (Editing.adjust n fun node => { node with config := node.config.setNumber key value })
  | setText n key value =>
    done (Editing.adjust n fun node => { node with config := node.config.setText key value })
  | setConfig n config => done (Editing.adjust n fun node => { node with config })
  | setPlacement n placement => done (Editing.adjust n fun node => { node with placement })
  | compile context output externals =>
    (Editing.compile context output externals).adaptExcept .compile >>= fun c => return .compiled c
where
  done (act : Editing GraphError Unit) : Editing Refusal Answer :=
    act.adaptExcept .edit >>= fun _ => return .done

def answer (g : Graph) : Call → Except Refusal (Edited × Answer)
  | add op => edit (g.add op) (.placed g.nextNode)
  | remove n => edit (g.remove n) .done
  | attach n slot producer => edit (g.attach n slot producer) .done
  | detach n slot => edit (g.detach n slot) .done
  | setDefault n slot value => property (g.setDefault n slot value)
  | setNumber n key value => property (g.setNumber n key value)
  | setText n key value => property (g.setText n key value)
  | setConfig n config => property (g.setConfig n config)
  | setPlacement n placement => property (g.setPlacement n placement)
  | compile context output externals =>
    ((g.compile context output externals).mapError .compile).map fun (g, c) =>
      (⟨g, none⟩, .compiled c)
where
  edit (result : Except GraphError Edited) (answer : Answer) :
      Except Refusal (Edited × Answer) :=
    (result.mapError .edit).map (·, answer)
  property (result : Except GraphError Graph) : Except Refusal (Edited × Answer) :=
    edit (result.map (⟨·, none⟩)) .done

end Call
end Patchbay
