import Patchbay.Plan

/-!
# Blocks

Running a block takes the steps of a plan in order. Each writes one region of the buffer. What a
body leaves unwritten keeps the cells of the block before, and promoted nodes have their own.
-/

namespace Patchbay

variable [Platform]

/-- The buffer of a plan between two blocks, with those of its promoted nodes. -/
structure State where
  field : Cells
  inner : List (NodeId × State)

/-- What a block leaves behind. -/
structure Block where
  state : State
  host : Host
  output : Cells

namespace State

/-- The state before the first block, when `inner` makes those of the promoted nodes. -/
def freshWith (inner : NodeId → Option State) (plan : Plan) : State :=
  ⟨plan.field, plan.liveInner.filterMap fun n => (inner n).map (n, ·)⟩

def fresh (plan : Plan) : State :=
  freshWith (fun n => match _h : plan.inner? n with
    | some p => some (fresh p)
    | none => none) plan
termination_by sizeOf plan
decreasing_by exact Plan.sizeOf_inner? _h

def write (s : State) (r : Region) (cells : Cells) : State :=
  { s with field := r.write cells s.field }

/-- Puts the state of a promoted node in the place of its old one. -/
def setInner (s : State) (n : NodeId) (child : State) : State :=
  { s with inner := s.inner.map fun c => if c.1 = n then (n, child) else c }

end State

namespace Plan

/-- Takes one step, when `inner` runs the block of a promoted node. -/
def stepWith (inner : NodeId → State → Host → Legs → Option Block) (plan : Plan) (externals : Legs)
    (s : State × Host) : Step → State × Host
  | .read _ index fallback dest =>
    let source := (index.bind fun i => externals[i]?).getD []
    (s.1.write dest (fit source fallback dest.length), s.2)
  | .convert source dest written reader =>
    let cells := (source.read s.1.field).map fun c => c.convert written reader
    (s.1.write dest (pour cells (dest.read s.1.field)), s.2)
  | .evaluate n regions dest =>
    let legs := regions.map fun r => r.read s.1.field
    let out := dest.read s.1.field
    match plan.node? n with
    | none => s
    | some p =>
      match p.operator.body with
      | .kernel k =>
        (s.1.write dest (k.fill p.config s.2 legs out),
          k.touch p.config legs out.length s.2)
      | .promoted _ =>
        match (s.1.inner.lookup n).bind fun child => inner n child s.2 legs with
        | some b => ((s.1.setInner n b.state).write dest (pour b.output out), b.host)
        | none => s
      | .input => s

def runWith (inner : NodeId → State → Host → Legs → Option Block) (plan : Plan) (state : State)
    (host : Host) (externals : Legs) : Block :=
  let (state, host) := plan.steps.foldl (stepWith inner plan externals) (state, host)
  ⟨state, host, plan.outputRegion.read state.field⟩

/-- Runs one block. A promoted node runs a block of its own plan on its own state. -/
def run (plan : Plan) (state : State) (host : Host) (externals : Legs) : Block :=
  runWith (fun n child host legs => match _h : plan.inner? n with
    | some p => some (run p child host legs)
    | none => none) plan state host externals
termination_by sizeOf plan
decreasing_by exact Plan.sizeOf_inner? _h

def firstOutput (plan : Plan) (externals : Legs) : Cells :=
  (plan.run (.fresh plan) .detached externals).output

end Plan
end Patchbay
