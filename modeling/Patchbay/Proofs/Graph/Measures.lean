import Patchbay.Builtin
import Patchbay.Generator
import Patchbay.Proofs.Graph.Calls
import Patchbay.Proofs.Plan.Recompile

/-! # Lengths that are remembered

A compile stores the length of every node that it compiled at the node itself and first takes away
what the compile before it stored. Edits keep the lengths, removed nodes lose theirs, and new nodes
have none. So the lengths in a graph are at any time those of the last compile, whatever was edited,
refused or copied since.
-/

namespace Patchbay

section
variable [Platform]

/-- What can happen to a graph. A copy goes on in place of the graph that it is made of. -/
inductive Act where
  | call (call : Call)
  | resolveInOrder (order : List NodeId)
  | copy (id : GraphId)
  | watch (watched : Bool)

/-- A graph on a desk with the context that was compiled last in its history. -/
structure Chronicle where
  desk : Desk
  last : Option Context

namespace Chronicle

/-- A change of the graph that compiles nothing. -/
def alter (past : Chronicle) (f : Graph → Graph) : Chronicle :=
  { past with desk := { past.desk with graph := f past.desk.graph } }

/-- Only a compile that is not refused takes the place of the last one. -/
def next (past : Chronicle) : Act → Chronicle
  | .call call =>
    let (desk, compiled) := call.outcome past.desk
    ⟨desk, compiled.or past.last⟩
  | .resolveInOrder order => past.alter (·.resolveInOrder order)
  | .copy id => past.alter (·.copy id)
  | .watch watched => past.alter fun g => { g with watched }

/-- A live node has this length in the last compile, which compiled it in this context. -/
def Measured (past : Chronicle) (n : NodeId) (context : ContextId) (length : Nat) : Prop :=
  ∃ compiled, past.last = some compiled ∧ compiled.id = context ∧
    past.desk.graph.net.contains n = true ∧
      (compiled.plan.region? n).map (·.length) = some length

end Chronicle

/-- A graph without a history: it is empty or was just loaded. -/
inductive Graph.Fresh : Graph → Prop
  | empty (id : GraphId) : Fresh (.empty id)
  | loaded {id : GraphId} {document : Document} {catalog : Catalog} {g : Graph} :
      Graph.ofDocument id document catalog = .ok g → Fresh g

/-! ### The lengths at a node -/

namespace Net
variable {net net' : Net} {n : NodeId}

def lengths? (net : Net) (n : NodeId) : Option (List (ContextId × Nat)) :=
  (net.node? n).map (·.lengths)

theorem lengths?_push (net : Net) (op : Operator) (n : NodeId) :
    (net.push op).lengths? n = if n = net.nodes.size then some [] else net.lengths? n := by
  rw [lengths?, node?_push]
  split <;> rfl

theorem lengths?_setSource (net : Net) (n : NodeId) (slot : Nat) (source : Option NodeId)
    (m : NodeId) : (net.setSource n slot source).lengths? m = net.lengths? m :=
  view_setSource (fun _ _ _ => rfl) (fun _ _ => rfl) net n slot source m

theorem lengths?_sever (net : Net) (ports : List Port) (m : NodeId) :
    (net.sever ports).lengths? m = net.lengths? m := by
  induction ports generalizing net with
  | nil => rfl
  | cons r ports ih => rw [Net.sever, List.foldl_cons, ← Net.sever, ih, lengths?_setSource]

theorem lengths?_erase (net : Net) (n m : NodeId) :
    (net.erase n).lengths? m = if m = n then none else net.lengths? m := by
  rw [lengths?, node?_erase, ← lengths?_sever net (net.portsOf n) m]
  split <;> rfl

theorem lengths?_withKinds (net : Net) (settled : Settled) (n : NodeId) :
    (net.withKinds settled).lengths? n = net.lengths? n := by
  rw [lengths?, withKinds, node?_mapIdx, Option.map_map, lengths?]
  rfl

theorem lengths?_connect (net : Net) (edges : List Edge) (n : NodeId) :
    (net.connect edges).lengths? n = net.lengths? n :=
  view_connect (fun _ _ _ => rfl) (fun _ _ => rfl) net edges n

theorem lengths?_forget (net : Net) (context : ContextId) (n : NodeId) :
    (net.forget context).lengths? n =
      (net.lengths? n).map fun lengths => lengths.filter (·.1 != context) := by
  rw [lengths?, node?_forget, Option.map_map, lengths?, Option.map_map]
  rfl

theorem lengths?_remember (net : Net) (context : ContextId) {found : List (NodeId × Nat)}
    (distinct : (found.map (·.1)).Nodup) (n : NodeId) :
    (net.remember context found).lengths? n = (net.lengths? n).map fun lengths =>
      ((found.lookup n).map (context, ·)).toList ++ lengths := by
  induction found generalizing net with
  | nil => simp [remember]
  | cons x found ih =>
    obtain ⟨m, length⟩ := x
    rw [List.map_cons, List.nodup_cons] at distinct
    rw [remember, List.foldl_cons, ← remember, ih _ distinct.2, lengths?, node?_modify]
    by_cases hm : m = n
    · subst hm
      have absent : found.lookup m = none := by
        rw [List.lookup_eq_none_iff]
        intro y hy
        rw [bne_iff_ne]
        rintro rfl
        exact distinct.1 (List.mem_map.2 ⟨y, hy, rfl⟩)
      simp [absent, lengths?, Function.comp_def]
    · have other : (n == m) = false := beq_false_of_ne (Ne.symm hm)
      simp [hm, other, lengths?, List.lookup_cons]

/-- No node has other lengths than before, and new nodes have none. -/
structure KeepsLengths (net net' : Net) : Prop where
  size : net.nodes.size ≤ net'.nodes.size
  lengths : ∀ n found, net'.lengths? n = some found →
    net.lengths? n = some found ∨ net.nodes.size ≤ n ∧ found = []

theorem KeepsLengths.of_eq (size : net'.nodes.size = net.nodes.size)
    (same : ∀ n, net'.lengths? n = net.lengths? n) : net.KeepsLengths net' :=
  ⟨size.ge, fun n _ hf => .inl (same n ▸ hf)⟩

theorem keepsLengths_refl (net : Net) : net.KeepsLengths net := .of_eq rfl fun _ => rfl

theorem KeepsLengths.withKinds (h : net.KeepsLengths net') (settled : Settled) :
    net.KeepsLengths (net'.withKinds settled) where
  size := by
    rw [(sameWiring_withKinds net' settled).size]
    exact h.size
  lengths n found hf := by
    rw [lengths?_withKinds] at hf
    exact h.lengths n found hf

theorem keepsLengths_push (net : Net) (op : Operator) : net.KeepsLengths (net.push op) where
  size := by simp [push]
  lengths n found hf := by
    rw [lengths?_push] at hf
    split at hf
    · rename_i hn
      exact .inr ⟨hn.ge, (Option.some.inj hf).symm⟩
    · exact .inl hf

theorem keepsLengths_erase (net : Net) (n : NodeId) : net.KeepsLengths (net.erase n) where
  size := by simp [erase, size_sever]
  lengths m found hf := by
    rw [lengths?_erase] at hf
    split at hf
    · cases hf
    · exact .inl hf

theorem keepsLengths_setSource (net : Net) (n : NodeId) (slot : Nat) (source : Option NodeId) :
    net.KeepsLengths (net.setSource n slot source) :=
  .of_eq (size_setSource net n slot source) (lengths?_setSource net n slot source)

end Net

/-! ### What a graph remembers -/

namespace Graph
variable {g g' : Graph} {e : Edited} {last : Option Context}

def lastLengths (last : Option Context) (n : NodeId) : List (ContextId × Nat) :=
  (last.bind fun compiled =>
    (compiled.plan.region? n).map fun r => (compiled.id, r.length)).toList

/-- The lengths in a graph are those of a compile, which had only nodes of the graph. -/
structure Remembers (g : Graph) (last : Option Context) : Prop where
  compiled : g.compiled = last.map (·.id)
  given : ∀ n, lastLengths last n ≠ [] → n < g.net.nodes.size
  lengths : ∀ n found, g.net.lengths? n = some found → found = lastLengths last n

theorem Remembers.keep (h : g.Remembers last) (same : g'.compiled = g.compiled)
    (keeps : g.net.KeepsLengths g'.net) : g'.Remembers last where
  compiled := same.trans h.compiled
  given n hn := (h.given n hn).trans_le keeps.size
  lengths n found hf := by
    rcases keeps.lengths n found hf with old | ⟨new, rfl⟩
    · exact h.lengths n found old
    · by_contra hne
      exact absurd (h.given n (Ne.symm hne)) (Nat.not_lt.2 new)

theorem Does.keepsLengths (h : g.Does e none) :
    e.graph.compiled = g.compiled ∧ g.net.KeepsLengths e.graph.net := by
  cases h with
  | add op => exact ⟨rfl, (g.net.keepsLengths_push op).withKinds _⟩
  | remove _ => exact ⟨rfl, (g.net.keepsLengths_erase _).withKinds _⟩
  | attach _ => exact ⟨rfl, (g.net.keepsLengths_setSource _ _ _).withKinds _⟩
  | detach n slot => exact ⟨rfl, (g.net.keepsLengths_setSource _ _ _).withKinds _⟩
  | vacant => exact ⟨rfl, g.net.keepsLengths_refl⟩
  | adjust n kept =>
    refine ⟨rfl, .of_eq (Net.size_modify _ _ _) fun m => ?_⟩
    exact Net.view_modify (fun node => (kept node).lengths) g.net n m

/-- Nothing is left of the lengths of the last compile when it is forgotten. -/
theorem Remembers.forgotten (h : g.Remembers last) {n : NodeId} {found : List (ContextId × Nat)}
    (hf : (g.compiled.elim g.net g.net.forget).lengths? n = some found) : found = [] := by
  rw [h.compiled] at hf
  cases last with
  | none => exact h.lengths n found hf
  | some old =>
    rw [Option.map_some, Option.elim_some, Net.lengths?_forget] at hf
    obtain ⟨lengths, hl, rfl⟩ := Option.map_eq_some_iff.1 hf
    rw [h.lengths n lengths hl, lastLengths, Option.bind_some]
    cases old.plan.region? n <;> simp

theorem lookup_regions (nodes : List PlanNode) (n : NodeId) :
    (nodes.map fun p => (p.source, p.region.length)).lookup n =
      (nodes.find? fun p => p.source == n).map (·.region.length) := by
  induction nodes with
  | nil => rfl
  | cons p nodes ih =>
    rw [List.map_cons, List.lookup_cons, List.find?_cons, ih, Bool.beq_comm]
    cases p.source == n <;> rfl

theorem lt_size_of_region? {net : Net} {output n : NodeId} {externals : Legs} {trials : List Trial}
    {r : Region} (h : net.Trials output externals trials)
    (hr : (Plan.ofTrials output trials).region? n = some r) : n < net.nodes.size := by
  obtain ⟨p, found, -⟩ := Option.map_eq_some_iff.1 hr
  rw [Plan.node?_ofTrials] at found
  obtain ⟨t, tried, -⟩ := Option.map_eq_some_iff.1 found
  obtain ⟨mem, rfl⟩ := mem_of_trial? tried
  exact Net.lt_size_of_contains (Option.isSome_of_eq_some (h.entry_of_mem mem).1)

theorem Remembers.compile (h : g.Remembers last) (hg : g.net.WellFormed) {context : ContextId}
    {output : NodeId} {externals : Legs} {compiled : Context}
    (hc : g.compile context output externals = .ok (g', compiled)) :
    g'.Remembers (some compiled) := by
  have wiring := sameWiring_compile hc
  obtain ⟨hp, rfl, made⟩ := graph_of_compile hc
  obtain ⟨trials, ht, hplan⟩ := (Net.compile_eq_ok hg).1 hp
  have distinct : ((compiled.plan.nodes.map fun p => (p.source, p.region.length)).map
      (·.1)).Nodup := by
    rw [List.map_map, hplan]
    exact Plan.map_source_ofTrials output trials ▸ ht.nodup
  refine ⟨by rw [made]; rfl, fun n hn => ?_, fun n found hf => ?_⟩
  · rw [wiring.size]
    cases hr : compiled.plan.region? n with
    | none => exact absurd (by simp [lastLengths, hr]) hn
    | some r => exact lt_size_of_region? ht (hplan ▸ hr)
  · rw [made] at hf
    rw [Net.lengths?_remember _ _ distinct] at hf
    obtain ⟨old, ho, rfl⟩ := Option.map_eq_some_iff.1 hf
    rw [h.forgotten ho, List.append_nil, lookup_regions, lastLengths, Option.bind_some,
      Plan.region?, Plan.node?, Option.map_map, Option.map_map]
    rfl

theorem Fresh.remembers (h : g.Fresh) : g.Remembers none := by
  cases h with
  | empty id =>
    refine ⟨rfl, fun n hn => absurd rfl hn, fun n found hf => ?_⟩
    simp [Graph.empty, Net.lengths?, Net.node?, Net.empty] at hf
  | loaded h =>
    obtain ⟨net, hn, rfl⟩ := ofDocument_eq_ok h
    obtain ⟨bare, hr, -, -, -, rfl⟩ := Net.ofDocument_eq_ok hn
    obtain ⟨nodes, sources, rfl, read⟩ := Net.ofRecords_eq_ok hr
    refine ⟨rfl, fun n hn => absurd rfl hn, fun n found hf => ?_⟩
    change Net.lengths? (Net.resolve _) n = some found at hf
    rw [Net.resolve, Net.lengths?_withKinds, Net.lengths?_connect, Net.lengths?,
      Net.node?_ofNodes] at hf
    obtain ⟨node, hnode, rfl⟩ := Option.map_eq_some_iff.1 hf
    obtain ⟨r, -, hnode⟩ := read.node n node hnode
    obtain ⟨op, -, -, -, rfl⟩ := Record.node_eq_ok_iff.1 hnode
    rfl

theorem Fresh.reachable (h : g.Fresh) : g.Reachable fun _ => True := by
  cases h with
  | empty id => exact .empty id
  | loaded h => exact .loaded (fun _ _ => trivial) h

theorem Remembers.lengthIn?_eq_some (h : g.Remembers last) {n : NodeId} {context : ContextId}
    {length : Nat} : g.lengthIn? n context = some length ↔
      ∃ compiled, last = some compiled ∧ compiled.id = context ∧ g.net.contains n = true ∧
        (compiled.plan.region? n).map (·.length) = some length := by
  rw [lengthIn?, Net.contains]
  cases hn : g.net.node? n with
  | none => simp
  | some node =>
    have found := h.lengths n node.lengths (by rw [Net.lengths?, hn]; rfl)
    rw [Option.bind_some, found]
    cases last with
    | none => simp [lastLengths]
    | some compiled =>
      cases hr : compiled.plan.region? n with
      | none => simp [lastLengths, hr]
      | some r =>
        by_cases hc : compiled.id = context
        · simp [lastLengths, hr, hc]
        · have other : (context == compiled.id) = false := beq_false_of_ne (Ne.symm hc)
          simp [lastLengths, hr, hc, other, List.lookup_cons]

end Graph

/-! ### Histories -/

namespace Chronicle
variable {past : Chronicle}

/-- What holds of a graph throughout its history. -/
structure Sound (past : Chronicle) : Prop where
  reachable : past.desk.graph.Reachable fun _ => True
  remembers : past.desk.graph.Remembers past.last

theorem Sound.next (h : past.Sound) (act : Act) : (past.next act).Sound := by
  cases act with
  | call call =>
    rcases Call.outcome_cases h.reachable call with same | ⟨e, compiled, does, reachable, same⟩
    · rw [Chronicle.next, same]
      exact h
    · rw [Chronicle.next, same]
      refine ⟨reachable, ?_⟩
      cases compiled with
      | none => exact h.remembers.keep does.keepsLengths.1 does.keepsLengths.2
      | some compiled =>
        cases does with
        | compile hc => exact h.remembers.compile h.reachable.wellFormed hc
  | resolveInOrder order =>
    exact ⟨.step h.reachable (.resolveInOrder order),
      h.remembers.keep rfl ((Net.keepsLengths_refl _).withKinds _)⟩
  | copy id =>
    exact ⟨.step h.reachable (.copy id), h.remembers.keep rfl (Net.keepsLengths_refl _)⟩
  | watch watched =>
    exact ⟨.step h.reachable (.watch watched), h.remembers.keep rfl (Net.keepsLengths_refl _)⟩

theorem Sound.acts (h : past.Sound) (acts : List Act) : (acts.foldl Chronicle.next past).Sound := by
  induction acts generalizing past with
  | nil => exact h
  | cons act acts ih => exact ih (h.next act)

end Chronicle

namespace Graph
variable {g : Graph}

theorem outputLength_eq_ok {n : NodeId} {context : ContextId} {length : Nat} :
    g.outputLength n context = .ok length ↔ g.lengthIn? n context = some length := by
  rw [outputLength]
  cases g.lengthIn? n context <;> simp

theorem outputLength_eq_error {n : NodeId} {context : ContextId} {cause : NotCompiled} :
    g.outputLength n context = .error cause ↔
      cause = ⟨n, context⟩ ∧ ∀ length, g.lengthIn? n context ≠ some length := by
  rw [outputLength]
  cases g.lengthIn? n context <;> simp [eq_comm]

/-- At any time in its history, a graph knows the length of a live node in the context of the last
compile that was not refused, if the node was compiled in it, and no other length. -/
theorem outputLength_iff_measured (start : g.Fresh) (acts : List Act) :
    let past := acts.foldl Chronicle.next ⟨⟨g, []⟩, none⟩
    ∀ n context,
      (∀ length, past.desk.graph.outputLength n context = .ok length ↔
        past.Measured n context length) ∧
      ∀ cause, past.desk.graph.outputLength n context = .error cause ↔
        cause = ⟨n, context⟩ ∧ ∀ length, ¬past.Measured n context length := by
  intro past n context
  have fresh : Chronicle.Sound ⟨⟨g, []⟩, none⟩ := ⟨start.reachable, start.remembers⟩
  have remembers : past.desk.graph.Remembers past.last := (fresh.acts acts).remembers
  constructor
  · intro length
    rw [outputLength_eq_ok, remembers.lengthIn?_eq_some]
    rfl
  · intro cause
    rw [outputLength_eq_error]
    refine and_congr_right fun _ => forall_congr' fun length => not_congr ?_
    exact remembers.lengthIn?_eq_some

end Graph

end

namespace Graph

/-- A repetition is compiled, its first input is removed, a copy goes on, and a compile of a node
that is not there is refused. The copy knows the length of the repetition and none of the input. -/
theorem outputLength_iff_measured_counted : ∃ g : Graph,
    ofDocument 0 counted Builtin.catalog = .ok g ∧
      let past := [.call (.compile 0 2 [[⟨5⟩], [.ofInteger 2]]), .call (.remove 0), .copy 1,
        .call (.compile 1 7 [])].foldl Chronicle.next ⟨⟨g, []⟩, none⟩
      past.Measured 2 0 2 ∧ ∀ length, ¬past.Measured 0 0 length := by
  have computed : ((ofDocument 0 counted Builtin.catalog).toOption.any fun g =>
      let past := [.call (.compile 0 2 [[⟨5⟩], [.ofInteger 2]]), .call (.remove 0), .copy 1,
        .call (.compile 1 7 [])].foldl Chronicle.next ⟨⟨g, []⟩, none⟩
      (past.desk.graph.outputLength 2 0).toOption == some 2 &&
        failure? (past.desk.graph.outputLength 0 0) == some ⟨0, 0⟩) = true := by cbv
  obtain ⟨g, hg, computed⟩ := (Option.any_eq_true _ _).1 computed
  obtain ⟨known, unknown⟩ := Bool.and_eq_true_iff.1 computed
  rw [beq_iff_eq] at known unknown
  rw [toOption_eq_some] at hg
  have main := outputLength_iff_measured (.loaded hg)
    [.call (.compile 0 2 [[⟨5⟩], [.ofInteger 2]]), .call (.remove 0), .copy 1,
      .call (.compile 1 7 [])]
  refine ⟨g, hg, ?_, ?_⟩
  · exact ((main 2 0).1 2).1 (toOption_eq_some.1 known)
  · exact (((main 0 0).2 _).1 (failure?_eq_some.1 unknown)).2

end Graph
end Patchbay
