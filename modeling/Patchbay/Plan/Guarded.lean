import Patchbay.Plan.Block

/-!
# Guarded blocks

A block again, on a buffer that is reached by slices, splits and indices only. Each of them fails
when it is out of range, and then the whole block does. A step splits the buffer where the region
that it writes starts: it reads in the part before and writes at the start of the part behind.
-/

namespace Patchbay

variable [Platform]

def slice? {α : Type} (l : List α) (start stop : Nat) : Option (List α) :=
  if start ≤ stop ∧ stop ≤ l.length then some ((l.drop start).take (stop - start)) else none

def split? {α : Type} (l : List α) (i : Nat) : Option (List α × List α) :=
  if i ≤ l.length then some (l.splitAt i) else none

/-- What the common start of `out` becomes when `source` is copied over it, and the rest of `out`.
Only slices of one length are copied. -/
def copyStart? (source out : Cells) : Option (Cells × Cells) := do
  let n := min source.length out.length
  let given ← slice? source 0 n
  let (start, rest) ← split? out n
  if given.length = start.length then some (given, rest) else none

def Step.legs : Step → List Region
  | evaluate _ legs _ => legs
  | _ => []

namespace Plan

def legTable (plan : Plan) : List Region := plan.steps.flatMap Step.legs

def located (start : Nat) : List Step → List (Nat × Step)
  | [] => []
  | step :: rest => (start, step) :: located (start + step.legs.length) rest

/-- Takes one step, when `inner` runs the block of a promoted node that was compiled. Every leg is
sliced before the body runs, whether it looks at the leg or not. -/
def stepGuarded (inner : NodeId → Option (State → Host → Legs → Option Block)) (plan : Plan)
    (externals : Legs) (s : State × Host) : Nat × Step → Option (State × Host)
  | (_, .read _ index fallback dest) => do
    let out ← slice? s.1.field dest.offset dest.stop
    let source := (index.bind fun i => externals[i]?).getD []
    let (copied, rest) ← copyStart? source out
    some (s.1.write dest (copied ++ List.replicate rest.length fallback), s.2)
  | (_, .convert source dest written reader) => do
    let (before, behind) ← split? s.1.field dest.offset
    let out ← slice? behind 0 dest.length
    let cells ← slice? before source.offset source.stop
    some (s.1.write dest (pour (cells.map fun c => c.convert written reader) out), s.2)
  | (start, .evaluate n legs dest) => do
    let (before, behind) ← split? s.1.field dest.offset
    let regions ← slice? plan.legTable start (start + legs.length)
    let args ← regions.mapM fun r => slice? before r.offset r.stop
    let out ← slice? behind 0 dest.length
    let p ← plan.node? n
    match p.operator.body with
    | .kernel k =>
      some (s.1.write dest (k.fill p.config s.2 args out),
        k.touch p.config args out.length s.2)
    | .promoted _ =>
      match inner n, s.1.inner.lookup n with
      | some run, some child => do
        let b ← run child s.2 args
        let (copied, rest) ← copyStart? b.output out
        some ((s.1.setInner n b.state).write dest (copied ++ rest), b.host)
      | _, _ => some s
    | .input => some s

def runGuardedWith (inner : NodeId → Option (State → Host → Legs → Option Block)) (plan : Plan)
    (state : State) (host : Host) (externals : Legs) : Option Block := do
  let (state, host) ←
    (located 0 plan.steps).foldlM (stepGuarded inner plan externals) (state, host)
  let output ← slice? state.field plan.outputRegion.offset plan.outputRegion.stop
  some ⟨state, host, output⟩

/-- Runs one block, or fails where an index is out of range, in the block of a promoted node as
well. -/
def runGuarded (plan : Plan) (state : State) (host : Host) (externals : Legs) : Option Block :=
  runGuardedWith (fun n => match _h : plan.inner? n with
    | some p => some fun child host legs => runGuarded p child host legs
    | none => none) plan state host externals
termination_by sizeOf plan
decreasing_by exact Plan.sizeOf_inner? _h

end Plan
end Patchbay
