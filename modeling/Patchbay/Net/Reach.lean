import Patchbay.Net.Edge

/-!
# Reachability and order

A search with marks finds the ancestors of a node; it ends on every net, also on one with cycles.
The ancestors are then put in an order with producers before consumers: a member is taken once all
of its attached slots are served, and taking it serves the ports that read it.
-/

namespace Patchbay

variable [Platform]

/-- Visits what lies on the stack and everything reachable from it by `next`. A mark stands at all
that was not seen yet; what never had one is never visited. -/
def visit (next : Nat → List Nat) : (stack : List Nat) → (unseen : Array Bool) → List Nat
  | [], _ => []
  | n :: stack, unseen =>
    if h : unseen[n]? = some true then
      n :: visit next (next n ++ stack)
        (unseen.set n false (Array.getElem?_eq_some_iff.1 h).choose)
    else visit next stack unseen
termination_by stack unseen => (unseen.count true, stack.length)
decreasing_by
  · obtain ⟨hn, h⟩ := Array.getElem?_eq_some_iff.1 h
    have : 0 < unseen.count true := Array.count_pos_iff.2 (h ▸ Array.getElem_mem hn)
    refine Prod.Lex.left _ _ ?_
    have fewer : (unseen.set n false).count true = unseen.count true - 1 + 0 := by
      rw [Array.count_set hn, h]
      rfl
    omega
  · exact Prod.Lex.right _ (by simp)

namespace Net

def ancestorsOf (net : Net) (ns : List NodeId) : List NodeId :=
  visit net.sources ns (.replicate net.nodes.size true)

def ancestors (net : Net) (n : NodeId) : List NodeId := net.ancestorsOf [n]

def reaches (net : Net) (n old : NodeId) : Bool := (net.ancestors n).contains old

def degree (net : Net) (n : NodeId) : Nat := (net.sources n).length

end Net

/-- A sort between two steps: the members that can be taken, how many attached slots of each member
are still without a sorted producer, and the members taken so far, the latest first. -/
structure Sorting where
  ready : List NodeId
  missing : Array (Option Int)
  sorted : List NodeId

namespace Sorting

def missing? (s : Sorting) (n : NodeId) : Option Int := s.missing[n]?.join

/-- Counts one slot of a member as served. A member becomes ready with its last slot. -/
def serve (s : Sorting) (p : Port) : Sorting :=
  match s.missing? p.node with
  | none => s
  | some d =>
    { s with
      missing := s.missing.setIfInBounds p.node (some (d - 1))
      ready := if d - 1 = 0 then p.node :: s.ready else s.ready }

def step (net : Net) (s : Sorting) : Sorting :=
  match s.ready with
  | [] => s
  | n :: ready => (net.outlets n).foldl serve { s with ready, sorted := n :: s.sorted }

/-- Takes members until none is ready. Each is taken at most once, which bounds the steps. -/
def run (net : Net) : Nat → Sorting → Sorting
  | 0, s => s
  | steps + 1, s => run net steps (s.step net)

/-- The sort of some members before the first step, the lowest handle first. -/
def start (net : Net) (members : List NodeId) : Sorting :=
  { ready := (members.filter fun n => net.degree n = 0).mergeSort (· ≤ ·)
    missing := members.foldl (fun missing n => missing.setIfInBounds n (some (net.degree n)))
      (.replicate net.nodes.size none)
    sorted := [] }

end Sorting

namespace Net

/-- The members in an order with producers before consumers. Members on a cycle and those behind one
are left out. -/
def inOrder (net : Net) (members : List NodeId) : List NodeId :=
  ((Sorting.start net members).run net members.length).sorted.reverse

/-- A node and its ancestors, producers first. -/
def lineage (net : Net) (n : NodeId) : List NodeId := net.inOrder (net.ancestors n)

/-! ### What must and what can be known before the first block -/

/-- Whether an edge ends in a slot that demands its value before the first block. -/
def demands (net : Net) (e : Edge) : Bool := (net.slot? e.consumer e.slot).any (·.compileTime)

/-- The nodes behind which something demands a value before the first block: the producers of edges
that do so, and all their ancestors. -/
def demanded (net : Net) : List NodeId :=
  net.ancestorsOf ((net.edges.filter net.demands).map (·.producer))

/-- Whether something downstream of a node demands a value before the first block. -/
def isDemanded (net : Net) (n : NodeId) : Bool := net.demanded.contains n

/-- Whether a node is known, when `known` holds the known ones among its producers. An input is
known exactly when it must be, for then the enclosing graph binds it to a constant. -/
def knownFrom (net : Net) (demanded known : List NodeId) (n : NodeId) : Bool :=
  match net.node? n with
  | none => false
  | some node =>
    if node.operator.live then false
    else if node.operator.isInput then demanded.contains n
    else node.sources.all known.contains

def knownAmong (net : Net) (order : List NodeId) : List NodeId :=
  let demanded := net.demanded
  order.foldl (fun known n => if net.knownFrom demanded known n then n :: known else known) []

/-- Whether the output of a node is the same in every block. -/
def isKnown (net : Net) (n : NodeId) : Bool :=
  net.contains n && (net.knownAmong (net.lineage n)).contains n

end Net
end Patchbay
