import Mathlib
import Patchbay.Builtin
import Patchbay.Generator
import Patchbay.Promotion
import Patchbay.Proofs.Graph.Loading

/-! # Histories of a graph

A history starts from an empty graph or from a loaded document and makes one change after the other.
Whatever the changes are, the net stays well formed, and a handle that was given back is not given
out again.
-/

namespace Patchbay
open Relation

section
variable [Platform]

/-- One change to a graph that places only operators of a given sort. -/
inductive Graph.Step (placed : Operator → Prop) (g : Graph) : Graph → Prop
  | add {op : Operator} {e : Edited} :
      placed op → g.add op = .ok e → Step placed g e.graph
  | remove {n : NodeId} {e : Edited} : g.remove n = .ok e → Step placed g e.graph
  | attach {n : NodeId} {slot : Nat} {producer : NodeId} {e : Edited} :
      g.attach n slot producer = .ok e → Step placed g e.graph
  | detach {n : NodeId} {slot : Nat} {e : Edited} :
      g.detach n slot = .ok e → Step placed g e.graph
  | setDefault {g' : Graph} {n : NodeId} {slot : Nat} {value : Cell} :
      g.setDefault n slot value = .ok g' → Step placed g g'
  | setConfig {g' : Graph} {n : NodeId} {config : Config} :
      g.setConfig n config = .ok g' → Step placed g g'
  | setNumber {g' : Graph} {n : NodeId} {key : String} {value : Decimal} :
      g.setNumber n key value = .ok g' → Step placed g g'
  | setText {g' : Graph} {n : NodeId} {key value : String} :
      g.setText n key value = .ok g' → Step placed g g'
  | setPlacement {g' : Graph} {n : NodeId} {placement : Int} :
      g.setPlacement n placement = .ok g' → Step placed g g'
  | resolveInOrder (order : List NodeId) : Step placed g (g.resolveInOrder order)
  | compile {g' : Graph} {context : ContextId} {output : NodeId} {externals : Legs}
      {compiled : Context} :
      g.compile context output externals = .ok (g', compiled) → Step placed g g'
  | copy (id : GraphId) : Step placed g (g.copy id)
  | watch (watched : Bool) : Step placed g { g with watched }

/-- The graphs at the end of a history. -/
inductive Graph.Reachable (placed : Operator → Prop) : Graph → Prop
  | empty (id : GraphId) : Reachable placed (.empty id)
  | loaded {id : GraphId} {document : Document} {catalog : Catalog} {g : Graph} :
      (∀ op ∈ catalog.operators, placed op) → Graph.ofDocument id document catalog = .ok g →
      Reachable placed g
  | step {g g' : Graph} : Reachable placed g → Graph.Step placed g g' → Reachable placed g'

/-- The operators that can be made from those of a given sort when whole graphs are promoted, up to
some depth of nesting. An operator may be changed after its promotion, but it keeps the template. -/
def Operator.Built (allowed : Operator → Prop) : Nat → Operator → Prop
  | 0, op => allowed op ∧ op.template? = none
  | depth + 1, op => Built allowed depth op ∨
      ∃ (g : Graph) (output : NodeId) (id : OperatorId) (name : String) (promoted : Operator),
        g.Reachable (Built allowed depth) ∧ g.promote output id name = .ok promoted ∧
          (op = promoted ∨ allowed op ∧ op.template? = promoted.template?)

/-- The value of `p` comes as early as a slot of `n`, or something behind it, demands. -/
def Net.InTime (net : Net) (n : NodeId) (slot : Nat) (p : NodeId) : Prop :=
  ∀ s, net.slot? n slot = some s → net.inTime net.demanded net.isKnown n s p = true

/-- A change to the nodes and edges of a net under the condition that an edit checks. -/
inductive Net.Change (placed : Operator → Prop) (net : Net) : Net → Prop
  | push {op : Operator} : placed op → Change placed net (net.push op)
  | erase {n : NodeId} : net.contains n = true → Change placed net (net.erase n)
  | setSource {n : NodeId} {slot : Nat} {source : Option NodeId} :
      (∀ p, source = some p → ((net.inlet? n slot).isSome ∧ net.contains p = true ∧
        ¬ReflTransGen net.Feeds n p) ∧ net.InTime n slot p) →
      Change placed net (net.setSource n slot source)
  | keep : Change placed net net

namespace Net
variable {placed : Operator → Prop} {net net' : Net} {n : NodeId} {op : Operator}

theorem Change.wellFormed (h : Change placed net net') (hn : net.WellFormed) :
    net'.WellFormed := by
  cases h with
  | push => exact hn.push _
  | erase hc => exact hn.erase hc
  | setSource hp => exact hn.setSource fun p hs => (hp p hs).1
  | keep => exact hn

theorem Change.size_le (h : Change placed net net') : net.nodes.size ≤ net'.nodes.size := by
  cases h with
  | push =>
    rw [Net.push, Array.size_push]
    exact Nat.le_succ _
  | @erase n =>
    rw [Net.erase, Array.size_setIfInBounds, size_sever]
  | setSource => rw [size_setSource]
  | keep => exact Nat.le_refl _

theorem Change.contains (h : Change placed net net') (hn : net'.contains n = true) :
    net.contains n = true ∨ net.nodes.size ≤ n := by
  cases h with
  | @push op =>
    rw [Net.contains, node?_push] at hn
    split at hn
    · rename_i he
      exact .inr (Nat.le_of_eq he.symm)
    · exact .inl hn
  | erase =>
    rw [contains_erase, Bool.and_eq_true] at hn
    exact .inl hn.2
  | setSource =>
    rw [contains_setSource] at hn
    exact .inl hn
  | keep => exact .inl hn

theorem operator?_eq_frame? (net : Net) (n : NodeId) :
    net.operator? n = (net.frame? n).map (·.1) := by
  rw [operator?, frame?, Option.map_map]
  rfl

theorem operator?_eq_wiring? (net : Net) (n : NodeId) :
    net.operator? n = (net.wiring? n).map (·.1) := by
  rw [operator?, wiring?, Option.map_map]
  rfl

theorem operator?_push (net : Net) (new : Operator) (n : NodeId) :
    (net.push new).operator? n = if n = net.nodes.size then some new else net.operator? n := by
  rw [operator?, node?_push]
  split <;> rfl

theorem operator?_erase (net : Net) (n m : NodeId) :
    (net.erase n).operator? m = if m = n then none else net.operator? m := by
  rw [operator?, node?_erase]
  split
  · rfl
  · rw [operator?_eq_frame? net m, ← frame?_sever net (net.portsOf n), ← operator?_eq_frame?]
    rfl

theorem operator?_setSource (net : Net) (n : NodeId) (slot : Nat) (source : Option NodeId)
    (m : NodeId) : (net.setSource n slot source).operator? m = net.operator? m := by
  rw [operator?_eq_frame?, frame?_setSource, ← operator?_eq_frame?]

theorem Change.operator_placed (h : Change placed net net')
    (hn : ∀ n op, net.operator? n = some op → placed op) (ho : net'.operator? n = some op) :
    placed op := by
  cases h with
  | @push new hp =>
    rw [operator?_push] at ho
    split at ho
    · cases ho
      exact hp
    · exact hn n op ho
  | erase =>
    rw [operator?_erase] at ho
    split at ho
    · cases ho
    · exact hn n op ho
  | setSource =>
    rw [operator?_setSource] at ho
    exact hn n op ho
  | keep => exact hn n op ho

theorem node?_forget (net : Net) (context : ContextId) (n : NodeId) :
    (net.forget context).node? n = (net.node? n).map fun node =>
      { node with lengths := node.lengths.filter (·.1 != context) } := by
  rw [node?, forget, Array.getElem?_map, node?]
  cases net.nodes[n]? with
  | none => rfl
  | some node => cases node <;> rfl

theorem sameWiring_forget (net : Net) (context : ContextId) :
    net.SameWiring (net.forget context) := by
  refine ⟨Array.size_map, rfl, fun n => ?_⟩
  rw [wiring?, node?_forget, Option.map_map, wiring?]
  rfl

theorem sameWiring_remember (net : Net) (context : ContextId) (lengths : List (NodeId × Nat)) :
    net.SameWiring (net.remember context lengths) := by
  induction lengths generalizing net with
  | nil => exact sameWiring_refl net
  | cons found lengths ih =>
    refine (sameWiring_modify (fun node => ?_) net found.1).trans (ih _)
    exact ⟨rfl, rfl, rfl⟩

end Net

namespace Graph
variable {placed : Operator → Prop} {g g' : Graph} {n : NodeId}

theorem sameWiring_adjust {f : Node → Node} (h : g.adjust n f = .ok g')
    (hf : ∀ node, (f node).operator = node.operator ∧
      (f node).inlets.map (·.source) = node.inlets.map (·.source) ∧
      (f node).outlets = node.outlets) : g.net.SameWiring g'.net := by
  unfold adjust at h
  split at h
  · cases h
    exact Net.sameWiring_modify hf g.net n
  · cases h

omit [Platform] in
theorem map_source_modify_default (inlets : List Inlet) (slot : Nat) (value : Cell) :
    (inlets.modify slot fun inlet => { inlet with default := value }).map (·.source) =
      inlets.map (·.source) := by
  apply List.ext_getElem?
  intro s
  simp only [List.getElem?_map, List.getElem?_modify]
  cases inlets[s]? with
  | none => rfl
  | some inlet => by_cases hs : slot = s <;> simp [hs]

theorem sameWiring_setDefault {slot : Nat} {value : Cell} (h : g.setDefault n slot value = .ok g') :
    g.net.SameWiring g'.net := by
  unfold setDefault at h
  split at h
  · cases h
  split at h
  · exact sameWiring_adjust h fun node => ⟨rfl, map_source_modify_default _ slot value, rfl⟩
  · cases h

theorem graph_of_compile {context : ContextId} {output : NodeId} {externals : Legs}
    {compiled : Context} (h : g.compile context output externals = .ok (g', compiled)) :
    g.net.compile output externals = .ok compiled.plan ∧ compiled.id = context ∧
      g' = { g with
        net := (g.compiled.elim g.net g.net.forget).remember context
          (compiled.plan.nodes.map fun p => (p.source, p.region.length))
        compiled := some context } := by
  unfold Graph.compile at h
  cases hp : g.net.compile output externals with
  | error e => simp [hp, Except.map] at h
  | ok plan =>
    simp only [hp, Except.map, Except.ok.injEq, Prod.mk.injEq] at h
    rw [← h.1, ← h.2]
    exact ⟨rfl, rfl, rfl⟩

theorem sameWiring_compile {context : ContextId} {output : NodeId} {externals : Legs}
    {compiled : Context} (h : g.compile context output externals = .ok (g', compiled)) :
    g.net.SameWiring g'.net := by
  rw [(graph_of_compile h).2.2]
  cases g.compiled with
  | none => exact Net.sameWiring_remember _ _ _
  | some old => exact (Net.sameWiring_forget g.net old).trans (Net.sameWiring_remember _ _ _)

theorem attach_eq_ok {slot : Nat} {p : NodeId} {e : Edited} : g.attach n slot p = .ok e ↔
    g.net.checkEdge n slot p = .ok () ∧
      e = g.edited (g.net.setSource n slot (some p)) (.attached n slot p) := by
  unfold attach
  cases g.net.checkEdge n slot p <;> simp [bind, Except.bind, eq_comm]

theorem attach_eq_error {slot : Nat} {p : NodeId} {cause : GraphError} :
    g.attach n slot p = .error cause ↔ g.net.checkEdge n slot p = .error cause := by
  unfold attach
  cases g.net.checkEdge n slot p <;> simp [bind, Except.bind]

theorem checkEdge_eq_ok {slot : Nat} {p : NodeId} (hg : g.net.WellFormed)
    (h : g.net.checkEdge n slot p = .ok ()) :
    ((g.net.inlet? n slot).isSome ∧ g.net.contains p = true ∧ ¬ReflTransGen g.net.Feeds n p) ∧
      g.net.InTime n slot p := by
  unfold Net.checkEdge at h
  split at h
  · cases h
  · cases h
  · rename_i node producer hn hp
    have hc : g.net.contains p = true := by
      rw [Net.contains, hp]
      rfl
    split at h
    · cases h
    · rename_i s hs
      split at h
      · cases h
      split at h
      · cases h
      · rename_i hr ht
        have found : g.net.slot? n slot = some s := by
          rw [Net.slot?, Net.operator?, hn, Option.map_some, Option.bind_some, hs]
        refine ⟨⟨(Net.slot?_isSome_iff hg.toWired).1 (by rw [found]; rfl), hc, ?_⟩, ?_⟩
        · rw [← Net.reaches_iff hg.linked.noDangling hc]
          exact hr
        · intro s' hs'
          cases found.symm.trans hs'
          simpa using ht

/-- Whatever a step does besides, it changes the nodes and edges in one way or keeps them. -/
theorem Step.change (h : Step placed g g') (hg : g.net.WellFormed) :
    ∃ net, g.net.Change placed net ∧ net.SameWiring g'.net := by
  cases h with
  | @add op _ hop h =>
    unfold Graph.add at h
    split at h
    · cases h
    · cases h
      exact ⟨_, .push hop, Net.sameWiring_resolve _⟩
  | @remove n _ h =>
    unfold Graph.remove at h
    split at h
    · rename_i hn
      cases h
      exact ⟨_, .erase hn, Net.sameWiring_resolve _⟩
    · cases h
  | @attach n slot p _ h =>
    obtain ⟨hc, rfl⟩ := attach_eq_ok.1 h
    refine ⟨_, .setSource fun q hq => ?_, Net.sameWiring_resolve _⟩
    cases hq
    exact checkEdge_eq_ok hg hc
  | @detach n slot _ h =>
    unfold Graph.detach at h
    split at h
    · cases h
    split at h
    · cases h
    split at h
    · cases h
      exact ⟨_, .keep, Net.sameWiring_refl _⟩
    · cases h
      refine ⟨_, .setSource fun p hp => ?_, Net.sameWiring_resolve _⟩
      cases hp
  | setDefault h => exact ⟨_, .keep, sameWiring_setDefault h⟩
  | setConfig h | setNumber h | setText h | setPlacement h =>
    exact ⟨_, .keep, sameWiring_adjust h fun _ => ⟨rfl, rfl, rfl⟩⟩
  | resolveInOrder order => exact ⟨_, .keep, Net.sameWiring_withKinds _ _⟩
  | compile h => exact ⟨_, .keep, sameWiring_compile h⟩
  | copy id => exact ⟨_, .keep, Net.sameWiring_refl _⟩
  | watch watched => exact ⟨_, .keep, Net.sameWiring_refl _⟩

theorem Step.wellFormed (h : Step placed g g') (hg : g.net.WellFormed) : g'.net.WellFormed := by
  obtain ⟨net, change, same⟩ := h.change hg
  exact (change.wellFormed hg).of_sameWiring same

theorem ofDocument_eq_ok {id : GraphId} {document : Document} {catalog : Catalog}
    (h : Graph.ofDocument id document catalog = .ok g) :
    ∃ net, Net.ofDocument document catalog = .ok net ∧ g = (Graph.empty id).withNet net := by
  unfold Graph.ofDocument at h
  cases hn : Net.ofDocument document catalog with
  | error e => simp [hn, Except.map] at h
  | ok net =>
    simp only [hn, Except.map, Except.ok.injEq] at h
    exact ⟨net, rfl, h.symm⟩

theorem Reachable.wellFormed (h : g.Reachable placed) : g.net.WellFormed := by
  induction h with
  | empty id => exact Net.wellFormed_empty
  | loaded _ h =>
    obtain ⟨net, hn, rfl⟩ := ofDocument_eq_ok h
    exact (Net.wellFormed_ofDocument hn).1
  | step _ h ih => exact h.wellFormed ih

theorem Reachable.operator_placed {op : Operator} (h : g.Reachable placed)
    (ho : g.net.operator? n = some op) : placed op := by
  induction h generalizing n op with
  | empty id => simp [Graph.empty, Net.operator?, Net.node?, Net.empty] at ho
  | loaded hc h =>
    obtain ⟨net, hn, rfl⟩ := ofDocument_eq_ok h
    obtain ⟨node, hnode, rfl⟩ := Option.map_eq_some_iff.1 ho
    exact hc _ ((Net.wellFormed_ofDocument hn).2 n node hnode)
  | step hg h ih =>
    obtain ⟨net, change, same⟩ := h.change hg.wellFormed
    rw [Net.operator?_eq_wiring?, same.wiring, ← Net.operator?_eq_wiring?] at ho
    exact change.operator_placed (fun _ _ => ih) ho

theorem Step.not_contains (h : Step placed g g') (hg : g.net.WellFormed)
    (hn : n < g.net.nodes.size ∧ g.net.contains n = false) :
    n < g'.net.nodes.size ∧ g'.net.contains n = false := by
  obtain ⟨net, change, same⟩ := h.change hg
  rw [same.size, same.contains]
  refine ⟨Nat.lt_of_lt_of_le hn.1 change.size_le, Bool.eq_false_iff.2 fun hc => ?_⟩
  rcases change.contains hc with hc | hc
  · rw [hn.2] at hc
    cases hc
  · exact absurd hn.1 (Nat.not_lt.2 hc)

theorem not_contains_of_steps (hs : ReflTransGen (Step placed) g g') (hg : g.net.WellFormed)
    (hn : n < g.net.nodes.size ∧ g.net.contains n = false) : g'.net.contains n = false := by
  have later : g'.net.WellFormed ∧ n < g'.net.nodes.size ∧ g'.net.contains n = false := by
    induction hs with
    | refl => exact ⟨hg, hn⟩
    | tail _ h ih => exact ⟨h.wellFormed ih.1, h.not_contains ih.1 ih.2⟩
  exact later.2.2

theorem not_contains_remove {e : Edited} (h : g.remove n = .ok e) :
    n < e.graph.net.nodes.size ∧ e.graph.net.contains n = false := by
  unfold Graph.remove at h
  split at h
  · rename_i hn
    cases h
    have same := Net.sameWiring_resolve (g.net.erase n)
    change n < (g.net.erase n).resolve.nodes.size ∧ (g.net.erase n).resolve.contains n = false
    rw [same.size, same.contains, Net.contains_erase, Net.erase, Array.size_setIfInBounds,
      Net.size_sever]
    exact ⟨Net.lt_size_of_contains hn, by simp⟩
  · cases h

/-- What holds at the end of every history: both ends of every edge agree and are live, every node
has an inlet for each slot, the count is that of the live nodes, there is no cycle, and a handle
that is given back is never live again. -/
theorem history_wellFormed (h : g.Reachable placed) :
    (∀ p c slot, ⟨c, slot⟩ ∈ g.net.outlets p ↔ g.net.source? c slot = some p) ∧
    (∀ p c slot, g.net.source? c slot = some p →
      g.net.contains p = true ∧ g.net.contains c = true) ∧
    (∀ n node, g.net.node? n = some node → node.inlets.length = node.operator.arity) ∧
    g.net.count = g.net.live.length ∧
    g.net.Acyclic ∧
    ∀ n e, g.remove n = .ok e → ∀ g', ReflTransGen (Step placed) e.graph g' →
      g'.net.contains n = false := by
  have wf := h.wellFormed
  refine ⟨fun p c slot => wf.linked.outlets p ⟨c, slot⟩, fun p c slot hs => ?_, wf.arity, wf.count,
    wf.acyclic, fun n e he g' hs => ?_⟩
  · exact ⟨wf.linked.noDangling p c ⟨slot, hs⟩, Net.contains_of_source? hs⟩
  · have removed : Step placed g e.graph := .remove he
    exact not_contains_of_steps hs (removed.wellFormed wf) (not_contains_remove he)

end Graph

end

namespace Graph

/-- A graph by edits of an empty one: built-in operators are placed one after the other, then edges
are attached. -/
def assembled (numbers : List Nat) (edges : List Edge) : Option Graph := do
  let whole ← numbers.foldlM (fun g number => do
    let op ← Builtin.catalog.find? (.builtin number)
    (g.add op).toOption.map (·.graph)) (Graph.empty 0)
  edges.foldlM (fun g e => (g.attach e.consumer e.slot e.producer).toOption.map (·.graph)) whole

theorem reachable_assembled {g : Graph} {numbers : List Nat} {edges : List Edge}
    (h : assembled numbers edges = some g) : g.Reachable (· ∈ Builtin.catalog.operators) := by
  obtain ⟨whole, hw, hg⟩ := Option.bind_eq_some_iff.1 h
  refine foldlM_invariant (fun g e g' reachable hs => ?_) hg
    (foldlM_invariant (fun g number g' reachable hs => ?_) hw (.empty 0))
  · obtain ⟨edited, he, rfl⟩ := Option.map_eq_some_iff.1 hs
    exact .step reachable (.attach (toOption_eq_some.1 he))
  · obtain ⟨op, hop, hs⟩ := Option.bind_eq_some_iff.1 hs
    obtain ⟨edited, he, rfl⟩ := Option.map_eq_some_iff.1 hs
    exact .step reachable (.add (List.mem_of_find?_eq_some hop) (toOption_eq_some.1 he))

/-- The first slot of a sum is fed twice, so that the edge goes to the second input, and the second
slot takes the first input. The sum is removed with its edges, two from inputs and one to a node. -/
theorem history_wellFormed_rewired : ∃ (g : Graph) (e : Edited),
    assembled [2, 2, 4, 51] [⟨0, 2, 0⟩, ⟨0, 2, 1⟩, ⟨1, 2, 0⟩, ⟨2, 3, 0⟩] = some g ∧
      g.net.outlets 0 = [⟨2, 1⟩] ∧ g.net.outlets 1 = [⟨2, 0⟩] ∧ g.net.source? 3 0 = some 2 ∧
      g.net.Acyclic ∧ g.remove 2 = .ok e ∧ e.graph.net.ids = [0, 1, 3] ∧
      e.graph.net.source? 3 0 = none ∧ e.graph.net.count = e.graph.net.live.length ∧
      (∀ c slot, e.graph.net.source? c slot ≠ some 0) ∧
      ∀ g', ReflTransGen (Step (· ∈ Builtin.catalog.operators)) e.graph g' →
        g'.net.contains 2 = false := by
  have computed :
      ((assembled [2, 2, 4, 51] [⟨0, 2, 0⟩, ⟨0, 2, 1⟩, ⟨1, 2, 0⟩, ⟨2, 3, 0⟩]).bind fun g =>
        (g.remove 2).toOption.filter fun e => g.net.outlets 0 == [⟨2, 1⟩] &&
          g.net.outlets 1 == [⟨2, 0⟩] && g.net.source? 3 0 == some 2 &&
          e.graph.net.ids == [0, 1, 3] && e.graph.net.source? 3 0 == none &&
          e.graph.net.outlets 0 == []).isSome = true := by cbv
  obtain ⟨e, hr⟩ := Option.isSome_iff_exists.1 computed
  obtain ⟨g, hg, hr⟩ := Option.bind_eq_some_iff.1 hr
  obtain ⟨he, found⟩ := Option.filter_eq_some_iff.1 hr
  rw [toOption_eq_some] at he
  simp only [Bool.and_eq_true, beq_iff_eq] at found
  obtain ⟨⟨⟨⟨⟨first, second⟩, fed⟩, ids⟩, unfed⟩, vacant⟩ := found
  have reachable := reachable_assembled hg
  obtain ⟨-, -, -, -, acyclic, gone⟩ := history_wellFormed reachable
  obtain ⟨ends, -, -, count, -, -⟩ := history_wellFormed (.step reachable (.remove he))
  refine ⟨g, e, hg, first, second, fed, acyclic, he, ids, unfed, count, fun c slot hs => ?_,
    gone 2 e he⟩
  rw [← ends, vacant] at hs
  cases hs

end Graph
end Patchbay
