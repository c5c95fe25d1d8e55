import Patchbay.Plan.Guarded
import Patchbay.Plan.Layout

/-!
# Guarded compiles

A compile again, with nodes at the positions that they have among those that are compiled. Every
look at an array is an index that may be out of range, and every count of the sort may fall below
zero. Then there is no answer at all. A sort that still has something to take after as many steps as
there are members breaks off as well.
-/

namespace Patchbay

/-- The outcome of a computation that may break off. -/
abbrev Guarded (ε : Type) := ExceptT ε Option

namespace Guarded

variable {ε α β : Type}

def of (x : Except ε α) : Guarded ε α := ExceptT.mk (some x)

def found (x : Option α) : Guarded ε α := ExceptT.mk (x.map .ok)

@[simp] theorem run_of (x : Except ε α) : (of x).run = some x := rfl

@[simp] theorem found_some (a : α) : (found (some a) : Guarded ε α) = of (.ok a) := rfl

@[simp] theorem pure_eq (a : α) : (pure a : Guarded ε α) = of (.ok a) := rfl

@[simp] theorem throw_eq (e : ε) : (throw e : Guarded ε α) = of (.error e) := rfl

@[simp] theorem of_ok_bind (a : α) (f : α → Guarded ε β) : of (.ok a) >>= f = f a := rfl

end Guarded

variable [Platform]

namespace Sorting

/-- Counts one slot as served, unless its count is zero already. In a strict sort every node has a
count, and to have none is to be out of range. -/
def serveGuarded (strict : Bool) (s : Sorting) (p : Port) : Option Sorting :=
  match s.missing? p.node with
  | none => if strict then none else some s
  | some d => if 0 < d then some (s.serve p) else none

/-- Takes the first ready member. A strict sort looks it up by its index. -/
def stepGuarded (strict : Bool) (net : Net) (s : Sorting) : Option Sorting :=
  match s.ready with
  | [] => some s
  | n :: ready =>
    if strict ∧ net.nodes.size ≤ n then none
    else (net.outlets n).foldlM (serveGuarded strict) { s with ready, sorted := n :: s.sorted }

/-- Takes members until none is ready, which must be so after some steps. -/
def runGuarded (strict : Bool) (net : Net) : Nat → Sorting → Option Sorting
  | 0, s => if s.ready = [] then some s else none
  | steps + 1, s => (s.stepGuarded strict net).bind (runGuarded strict net steps)

end Sorting

namespace Net

def lineageGuarded (net : Net) (n : NodeId) : Option (List NodeId) :=
  let members := net.ancestors n
  ((Sorting.start net members).runGuarded false net members.length).map (·.sorted.reverse)

def flags (net : Net) (order : List NodeId) : List Bool :=
  order.map (net.knownAmong order).contains

def isKnownGuarded (net : Net) (n : NodeId) : Option Bool :=
  if net.contains n then do
    let order ← net.lineageGuarded n
    match order.idxOf? n with
    | none => some false
    | some i => (net.flags order)[i]?
  else some false

end Net

namespace Entry

variable (e : Entry)

/-- Where the producer of an inlet stands. What is not compiled has no position. -/
def position? (order : List NodeId) (inlet : Inlet) : Option Nat :=
  inlet.source.bind (order.idxOf? ·)

/-- The position of the first producer that is faulted. The nodes still to be tried have no fault
yet. -/
def faultedGuarded (order : List NodeId) (done : List Trial) : Option (Option Nat) :=
  (e.node.inlets.filterMap (position? order)).findM? fun p =>
    if p < order.length then some ((done[p]?).any (·.fault.isSome)) else none

def legGuarded (order : List NodeId) (done : List Trial) (socket : (Slot × Inlet) × Nat) :
    Guarded CompileError Cells :=
  let ((slot, inlet), number) := socket
  match position? order inlet with
  | none => pure [inlet.default]
  | some p => do
    let t ← .found done[p]?
    if 0 < slot.length ∧ t.cells.length ≠ slot.length then
      throw (.lengthMismatch e.source number slot.length t.cells.length)
    else pure (t.cells.map fun c => c.convert t.kind (e.reads slot))

def attachedGuarded (order : List NodeId) : List Bool :=
  e.node.sockets.map fun s => (position? order s.2).isSome

/-- Runs the body once. The net of a promoted node is compiled and runs its first block, with guards
on both. -/
def yieldGuarded (expand : NodeId → Legs → Guarded CompileError Plan) (externals legs : Legs)
    (attached : List Bool) : Option (Except Fault Yield) :=
  match e.node.operator.body with
  | .promoted _ => do
    match ← (expand e.source legs).run with
    | .error cause => some (.error (.promoted cause))
    | .ok plan => do
      let block ← plan.runGuarded (.fresh plan) .detached legs
      some (.ok ⟨block.output, some plan⟩)
  | _ => some (e.yield (fun n _ => .error (.outputNotFound n)) externals legs attached)

def tryGuarded (expand : NodeId → Legs → Guarded CompileError Plan) (externals : Legs)
    (order : List NodeId) (done : List Trial) : Guarded CompileError Trial := do
  match ← .found (e.faultedGuarded order done) with
  | some p => do
    let producer ← .found order[p]?
    pure { e with outcome := .error (.inherited producer) }
  | none => do
    let legs ← e.node.sockets.zipIdx.mapM (e.legGuarded order done)
    let outcome ← .found (e.yieldGuarded expand externals legs (e.attachedGuarded order))
    pure { e with outcome }

end Entry

namespace Net

def entriesGuarded (net : Net) (order : List NodeId) : Option (List Entry) :=
  order.zipIdx.mapM fun (n, i) => do
    let node ← net.node? n
    let known ← (net.flags order)[i]?
    some { source := n, node, index := net.inputs.idxOf? n, known }

def tryAllGuarded (expand : NodeId → Legs → Guarded CompileError Plan) (externals : Legs)
    (order : List NodeId) : List Entry → List Trial → Guarded CompileError (List Trial)
  | [], done => pure done
  | e :: rest, done => do
    let t ← e.tryGuarded expand externals order done
    tryAllGuarded expand externals order rest (done ++ [t])

def compileGuardedWith (expand : NodeId → Legs → Guarded CompileError Plan) (net : Net)
    (output : NodeId) (externals : Legs) : Guarded CompileError Plan :=
  if net.contains output then do
    let lineage ← .found (net.lineageGuarded output)
    let order := lineage.filter net.contains
    let entries ← .found (net.entriesGuarded order)
    let trials ← tryAllGuarded expand externals order entries []
    let _ ← .found ((trials.flatMap fun t => t.node.inlets.filterMap (Entry.position? order)).mapM
      (trials[·]?))
    pure (.ofTrials output trials)
  else throw (.outputNotFound output)

/-- Compiles a node, or breaks off where an index is out of range or a count falls below zero, in
the net of a promoted node as well. -/
def compileGuarded (net : Net) (output : NodeId) (externals : Legs) : Guarded CompileError Plan :=
  compileGuardedWith (fun n legs => match _h : net.template? n with
    | some t => compileGuarded t.net t.output legs
    | none => throw (.outputNotFound n)) net output externals
termination_by sizeOf net
decreasing_by exact sizeOf_template? _h

end Net
end Patchbay
