import Patchbay.Net.Kinds
import Patchbay.Net.Reach
import Patchbay.Plan.Block

/-!
# Trials

Before a plan is laid out, every node is tried once without a host, producers first. A trial finds
the length of the output, its cells where they stay the same in every block, and the faults.
-/

namespace Patchbay

variable [Platform]

/-- A node with what the net around it decides. -/
structure Entry where
  source : NodeId
  node : Node
  /-- The vector from outside that an input reads. -/
  index : Option Nat
  /-- Whether the output is the same in every block. -/
  known : Bool

/-- The cells a node gave, and the plan of a promoted one. -/
structure Yield where
  cells : Cells
  inner : Option Plan

/-- A node after it was tried. -/
structure Trial extends Entry where
  outcome : Except Fault Yield

namespace Entry

variable (e : Entry)

def kind : Kind := e.node.written

def fallback : Cell := e.node.fallback

def reads (slot : Slot) : Kind := e.node.reads slot

end Entry

namespace Trial

variable (t : Trial)

def cells : Cells := match t.outcome with
  | .ok y => y.cells
  | .error _ => []

def inner : Option Plan := match t.outcome with
  | .ok y => y.inner
  | .error _ => none

def fault : Option Fault := match t.outcome with
  | .ok _ => none
  | .error f => some f

/-- Whether the cells are computed once. -/
def folded : Bool := t.known && t.fault.isNone

/-- Whether the node runs in every block. -/
def live : Bool := !t.known && t.fault.isNone

end Trial

def trial? (done : List Trial) (n : NodeId) : Option Trial := done.find? fun t => t.source == n

namespace Entry

variable (e : Entry)

def producer? (done : List Trial) (inlet : Inlet) : Option Trial := inlet.source.bind (trial? done)

def leg (done : List Trial) (socket : (Slot × Inlet) × Nat) : Except CompileError Cells :=
  let ((slot, inlet), number) := socket
  match producer? done inlet with
  | none => .ok [inlet.default]
  | some t =>
    if 0 < slot.length ∧ t.cells.length ≠ slot.length then
      .error (.lengthMismatch e.source number slot.length t.cells.length)
    else .ok (t.cells.map fun c => c.convert t.kind (e.reads slot))

def legs (done : List Trial) : Except CompileError Legs :=
  e.node.sockets.zipIdx.mapM (e.leg done)

def attached (done : List Trial) : List Bool :=
  e.node.sockets.map fun s => (producer? done s.2).isSome

def faultedSource? (done : List Trial) : Option NodeId :=
  e.node.sources.find? fun p => (trial? done p).any (·.fault.isSome)

/-- Runs the body once on a buffer of zeros. `expand` compiles the net of a promoted node. -/
def yield (expand : NodeId → Legs → Except CompileError Plan) (externals legs : Legs)
    (attached : List Bool) : Except Fault Yield :=
  match e.node.operator.body with
  | .kernel k =>
    match k.length ⟨e.node.config, legs, attached⟩ with
    | .error f => .error f
    | .ok n =>
      if maxLength < n then .error (.invalidConfig (.lengthLimit n))
      else .ok ⟨k.fill e.node.config .detached legs (List.replicate n .zero), none⟩
  | .input => .ok ⟨(e.index.bind fun i => externals[i]?).getD [e.fallback], none⟩
  | .promoted _ =>
    match expand e.source legs with
    | .error cause => .error (.promoted cause)
    | .ok plan => .ok ⟨plan.firstOutput legs, some plan⟩

def tryAfter (expand : NodeId → Legs → Except CompileError Plan) (externals : Legs)
    (done : List Trial) : Except CompileError Trial :=
  match e.faultedSource? done with
  | some p => .ok { e with outcome := .error (.inherited p) }
  | none => (e.legs done).map fun legs =>
    { e with outcome := e.yield expand externals legs (e.attached done) }

end Entry

namespace Net

/-- The node and its ancestors, producers first, with what the whole net decides about them. -/
def entries (net : Net) (output : NodeId) : List Entry :=
  let order := net.lineage output
  let known := net.knownAmong order
  let inputs := net.inputs
  order.filterMap fun n => (net.node? n).map fun node =>
    { source := n, node, index := inputs.idxOf? n, known := known.contains n }

/-- Tries the nodes one after the other. What was tried before stands with the latest first. -/
def tryAll (expand : NodeId → Legs → Except CompileError Plan) (externals : Legs) :
    List Entry → List Trial → Except CompileError (List Trial)
  | [], done => .ok done.reverse
  | e :: rest, done => do
    let t ← e.tryAfter expand externals done
    tryAll expand externals rest (t :: done)

end Net
end Patchbay
