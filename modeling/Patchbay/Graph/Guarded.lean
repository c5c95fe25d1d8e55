import Patchbay.Graph.Document
import Patchbay.Plan.GuardedTrial

/-!
# Guarded loads

A load again, which breaks off without an answer where an index is out of range, a count falls below
zero, or a sort goes on for too long. The edges are made record by record, and each of them is
checked by itself, with nothing kept from the checks of the others.
-/

namespace Patchbay

variable [Platform]

namespace Sorting

/-- The sort of all nodes before the first step, the highest handle first. All counts are in one
array. -/
def startAll (net : Net) : Option Sorting := do
  let missing := net.nodes.map fun node => some (node.elim 0 fun n => (n.sources.length : Int))
  let ready ← (List.range net.count).foldlM (fun ready n => do
    let d ← missing[n]?.join
    some (if d = 0 then n :: ready else ready)) []
  some { ready, missing, sorted := [] }

end Sorting

namespace Net

/-- Tells a slot, which must be there, of its producer, and the producer of the port. -/
def install (net : Net) (e : Edge) : Option Net :=
  if (net.node? e.consumer).any (·.inlets.length ≤ e.slot) then none
  else some ((net.feed e.consumer e.slot (some e.producer)).link e.producer ⟨e.consumer, e.slot⟩)

def wireInput (count index : Nat) (net : Net) : Int × Nat → Guarded GraphError Net
  | (source, slot) =>
    if source < 0 then pure net
    else if count ≤ source.toNat ∨ source.toNat = index then
      throw (.invalidRecord index (.reads slot source.toNat))
    else .found (net.install ⟨source.toNat, index, slot⟩)

def wire (document : Document) (net : Net) : Guarded GraphError Net :=
  document.zipIdx.foldlM (fun net (r, index) =>
    r.inputs.zipIdx.foldlM (wireInput document.length index) net) net

/-- Counts all nodes that a sort takes. The node reported is the first one whose count is not
zero. -/
def checkAcyclicGuarded (net : Net) : Guarded GraphError Unit := do
  let s ← .found ((Sorting.startAll net).bind (Sorting.runGuarded true net net.count))
  if s.sorted.length = net.count then pure ()
  else do
    let stuck ← .found ((List.range net.count).findM? fun n => (s.missing? n).map (0 < ·))
    let n := stuck.getD 0
    throw (.cycle n ((net.sources n).headD n))

def checkInTimeGuarded (net : Net) (e : Edge) : Guarded GraphError Unit :=
  match net.node? e.consumer with
  | none => pure ()
  | some node => do
    let slot ← .found node.operator.slots[e.slot]?
    let early := slot.compileTime || net.isDemanded e.consumer
    if early && !(net.operator? e.producer).any Operator.isInput then do
      let known ← .found (net.isKnownGuarded e.producer)
      if known then pure () else throw (.compileTimeRequired e.consumer e.slot e.producer)
    else pure ()

def probeGuarded (net : Net) (producer : NodeId) : Guarded GraphError Nat := do
  match ← .found (net.compileGuarded producer []).run with
  | .ok plan => pure plan.outputRegion.length
  | .error cause => throw (.probeFailed producer cause)

def checkLengthGuarded (net : Net) (e : Edge) : Guarded GraphError Unit :=
  match net.slot? e.consumer e.slot with
  | none => pure ()
  | some slot =>
    if slot.length = 0 then pure ()
    else do
      let found ← net.probeGuarded e.producer
      .of (checkFound e.consumer e.slot slot e.producer found)

def ofDocumentGuarded (document : Document) (catalog : Catalog) : Guarded GraphError Net := do
  let nodes ← .of (document.zipIdx.mapM fun (r, index) => r.node catalog index)
  let net ← wire document ⟨(nodes.map some).toArray, nodes.length⟩
  net.checkAcyclicGuarded
  let edges := net.edges
  edges.forM net.checkInTimeGuarded
  let resolved := net.resolve
  edges.forM resolved.checkLengthGuarded
  pure resolved

end Net

namespace Graph

def ofDocumentGuarded (id : GraphId) (document : Document) (catalog : Catalog) :
    Guarded GraphError Graph := do
  let net ← Net.ofDocumentGuarded document catalog
  pure ((Graph.empty id).withNet net)

end Graph
end Patchbay
