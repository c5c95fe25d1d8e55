import Patchbay.Operator

/-!
# Plans

A plan is what a net compiles to: one flat buffer, a region in it for every node, and the steps of a
block. It keeps its own copy of the nodes and is never changed.
-/

namespace Patchbay

variable [Platform]

/-- One instruction of a block. -/
inductive Step where
  /-- Fills the region of an input from a vector from outside. -/
  | read (node : NodeId) (index : Option Nat) (fallback : Cell) (dest : Region)
  /-- Rereads cells written as one kind for a slot of another. -/
  | convert (source dest : Region) (written reader : Kind)
  /-- Runs the body of a node. -/
  | evaluate (node : NodeId) (legs : List Region) (dest : Region)
deriving DecidableEq

mutual

/-- A node in a plan. -/
structure PlanNode where
  source : NodeId
  operator : Operator
  config : Config
  kind : Kind
  region : Region
  /-- Whether the cells were computed ahead and stay as they are. -/
  folded : Bool
  fault : Option Fault
  /-- The plan of a promoted node. -/
  inner : Option Plan

/-- The nodes with producers first, the steps of a block, the buffer before the first block, and the
node whose cells are the output. -/
structure Plan where
  nodes : List PlanNode
  steps : List Step
  field : Cells
  output : NodeId

end

namespace Step

def node? : Step → Option NodeId
  | read n _ _ _ => some n
  | convert _ _ _ _ => none
  | evaluate n _ _ => some n

def dest : Step → Region
  | read _ _ _ d => d
  | convert _ d _ _ => d
  | evaluate _ _ d => d

def reads : Step → List Region
  | read _ _ _ _ => []
  | convert s _ _ _ => [s]
  | evaluate _ legs _ => legs

end Step

namespace Plan

variable (plan : Plan)

def node? (n : NodeId) : Option PlanNode := plan.nodes.find? fun p => p.source == n

def region? (n : NodeId) : Option Region := (plan.node? n).map (·.region)

def inner? (n : NodeId) : Option Plan := (plan.node? n).bind (·.inner)

def outputRegion : Region := (plan.region? plan.output).getD .empty

def outputKind : Kind := (plan.node? plan.output).elim .any (·.kind)

def isFolded (n : NodeId) : Bool := (plan.node? n).any (·.folded)

def fault? (n : NodeId) : Option Fault := (plan.node? n).bind (·.fault)

def foldedCells? (n : NodeId) : Option Cells :=
  (plan.node? n).bind fun p => if p.folded then some (p.region.read plan.field) else none

def faults : List (NodeId × Fault) :=
  plan.nodes.filterMap fun p => p.fault.map (p.source, ·)

def executionOrder : List NodeId := plan.steps.filterMap Step.node?

def liveInner : List NodeId :=
  (plan.nodes.filter fun p => !p.folded && p.inner.isSome).map (·.source)

theorem sizeOf_inner? {plan p : Plan} {n : NodeId} (h : plan.inner? n = some p) :
    sizeOf p < sizeOf plan := by
  obtain ⟨nodes, _, _, _⟩ := plan
  simp only [inner?, node?, Option.bind_eq_some_iff] at h
  obtain ⟨q, hq, hp⟩ := h
  have hm := List.sizeOf_lt_of_mem (List.mem_of_find?_eq_some hq)
  obtain ⟨_, _, _, _, _, _, _, _⟩ := q
  subst hp
  simp only [PlanNode.mk.sizeOf_spec, mk.sizeOf_spec, Option.some.sizeOf_spec] at hm ⊢
  omega

/-! ### Listing -/

def faultText (f : NodeId × Fault) : String := nodeLabel f.1 ++ ": " ++ f.2.message

def stepText : Step → String
  | .read n index _ dest =>
    "ReadExternal " ++ nodeLabel n ++ " ext[" ++ (index.elim "-" toString) ++ "] → " ++ dest.text
  | .convert source dest written reader =>
    "Coerce " ++ source.text ++ " " ++ written.name ++ " → " ++ dest.text ++ " " ++ reader.name
  | .evaluate n legs dest =>
    "Evaluate " ++ nodeLabel n ++ " " ++ ((plan.node? n).elim "" (·.operator.name)) ++ " (" ++
      ", ".intercalate (legs.map Region.text) ++ ") → " ++ dest.text

def listing : List String := plan.steps.map plan.stepText

end Plan
end Patchbay
