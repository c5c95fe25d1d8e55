import Patchbay.Plan.Trial

/-!
# Layout

The buffer is a list of places laid end to end, so no two of them overlap: first the folded nodes,
then the constants that live nodes read, then for every live node its converted legs and its output.
A step reads only places before the one it writes.
-/

namespace Patchbay

variable [Platform]

/-- What a part of the buffer is for: the output of a node, or what one of its slots reads when that
is not the output of its producer. -/
inductive Place where
  | output (node : NodeId)
  | leg (node : NodeId) (slot : Nat)
deriving DecidableEq

/-- A place with its first contents. -/
structure Allotment where
  place : Place
  cells : Cells

def Allotment.place? (offset : Nat) : List Allotment → List (Place × Region)
  | [] => []
  | a :: rest => (a.place, ⟨offset, a.cells.length⟩) :: place? (offset + a.cells.length) rest

namespace Trial

variable (done : List Trial) (t : Trial)

def isInput : Bool := t.node.operator.isInput

/-- A slot of a node with its number and its producer. -/
structure Socket where
  slot : Slot
  inlet : Inlet
  number : Nat
  producer : Option Trial

def sockets : List Socket :=
  t.node.sockets.zipIdx.map fun ((slot, inlet), number) =>
    ⟨slot, inlet, number, Entry.producer? done inlet⟩

/-- Whether the cells of a producer are converted for a slot. -/
def converts (p : Trial) (slot : Slot) : Bool := p.kind.converts (t.reads slot)

def foldedPlace : List Allotment := if t.folded then [⟨.output t.source, t.cells⟩] else []

/-- The constants that a live node reads: the defaults of its open slots and the converted cells of
its folded producers. -/
def constantPlaces : List Allotment :=
  if t.live && !t.isInput then
    (t.sockets done).filterMap fun s =>
      match s.producer with
      | none => some ⟨.leg t.source s.number, [s.inlet.default]⟩
      | some p =>
        if p.folded && t.converts p s.slot then
          some ⟨.leg t.source s.number, p.cells.map fun c => c.convert p.kind (t.reads s.slot)⟩
        else none
  else []

def convertedSockets : List (Socket × Trial) :=
  (t.sockets done).filterMap fun s =>
    s.producer.bind fun p => if !p.folded && t.converts p s.slot then some (s, p) else none

def livePlaces : List Allotment :=
  if !t.live then []
  else if t.isInput then [⟨.output t.source, t.cells⟩]
  else
    (t.convertedSockets done).map (fun (s, p) =>
      ⟨.leg t.source s.number, List.replicate p.cells.length .zero⟩) ++
      [⟨.output t.source, List.replicate t.cells.length .zero⟩]

end Trial

def allotments (trials : List Trial) : List Allotment :=
  trials.flatMap Trial.foldedPlace ++ trials.flatMap (Trial.constantPlaces trials) ++
    trials.flatMap (Trial.livePlaces trials)

def placement (trials : List Trial) : List (Place × Region) :=
  Allotment.place? 0 (allotments trials)

/-- The region of a place; what has no place has no cells. -/
def regionOf (places : List (Place × Region)) (p : Place) : Region :=
  (places.lookup p).getD .empty

namespace Trial

variable (places : List (Place × Region)) (done : List Trial) (t : Trial)

def legRegion (s : Socket) : Region :=
  match places.lookup (.leg t.source s.number) with
  | some r => r
  | none => s.producer.elim .empty fun p => regionOf places (.output p.source)

def steps : List Step :=
  let dest := regionOf places (.output t.source)
  if !t.live then []
  else if t.isInput then [.read t.source t.index t.fallback dest]
  else
    (t.convertedSockets done).map (fun (s, p) =>
      .convert (regionOf places (.output p.source)) (regionOf places (.leg t.source s.number))
        p.kind (t.reads s.slot)) ++
      [.evaluate t.source ((t.sockets done).map (t.legRegion places)) dest]

def planNode : PlanNode :=
  { source := t.source, operator := t.node.operator, config := t.node.config, kind := t.kind,
    region := regionOf places (.output t.source), folded := t.folded, fault := t.fault,
    inner := t.inner }

end Trial

def Plan.ofTrials (output : NodeId) (trials : List Trial) : Plan :=
  let places := placement trials
  { nodes := trials.map (Trial.planNode places)
    steps := trials.flatMap (Trial.steps places trials)
    field := (allotments trials).flatMap (·.cells)
    output }

namespace Net

/-- Compiles a node and all that it depends on, when `expand` compiles nets of promoted nodes. -/
def compileWith (expand : NodeId → Legs → Except CompileError Plan) (net : Net) (output : NodeId)
    (externals : Legs) : Except CompileError Plan :=
  if net.contains output then
    (tryAll expand externals (net.entries output) []).map (Plan.ofTrials output)
  else .error (.outputNotFound output)

/-- Compiles a node and everything it depends on. The vectors from outside decide the lengths and
the inputs that must be known before the first block. -/
def compile (net : Net) (output : NodeId) (externals : Legs) : Except CompileError Plan :=
  compileWith (fun n legs => match _h : net.template? n with
    | some t => compile t.net t.output legs
    | none => .error (.outputNotFound n)) net output externals
termination_by sizeOf net
decreasing_by exact sizeOf_template? _h

end Net
end Patchbay
