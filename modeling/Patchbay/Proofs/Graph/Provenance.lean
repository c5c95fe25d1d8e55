import Patchbay.Generator
import Patchbay.Proofs.Graph.Kinds
import Patchbay.Proofs.Graph.Nesting

/-! # No graph contains itself

Graphs are created, copied, loaded and promoted, and the operators that promotions make are placed
in other graphs, promoted again, and so on. An operator knows the graphs that it was made of, at any
depth. A new graph has an identity that no operator knows yet, and an operator that knows a graph
is never placed in it.
-/

namespace Patchbay

section
variable [Platform]

/-! ### What an operator is made of -/

/-- The template of an operator, and those of the operators inside it, at any depth. -/
inductive Operator.Nests : Operator → Template → Prop
  | own {op : Operator} {t : Template} : op.template? = some t → Nests op t
  | inner {op op' : Operator} {t u : Template} {n : NodeId} : op.template? = some u →
      u.net.operator? n = some op' → Nests op' t → Nests op t

namespace Operator
variable {op op' : Operator} {t u : Template}

theorem nests_iff (h : op.template? = some u) :
    op.Nests t ↔ t = u ∨ ∃ n op', u.net.operator? n = some op' ∧ op'.Nests t := by
  constructor
  · intro hn
    cases hn with
    | own ht => exact .inl (Option.some.inj (ht.symm.trans h))
    | @inner _ op' _ u' n hu ho hn =>
      obtain rfl := Option.some.inj (hu.symm.trans h)
      exact .inr ⟨n, op', ho, hn⟩
  · rintro (rfl | ⟨n, op', ho, hn⟩)
    · exact .own h
    · exact .inner h ho hn

theorem not_nests (h : op.template? = none) : ¬op.Nests t := by
  intro hn
  cases hn with
  | own ht => cases h.symm.trans ht
  | inner ht => cases h.symm.trans ht

/-- The operator knows exactly the graphs that its templates were taken from. -/
def Traced (op : Operator) : Prop := ∀ id, id ∈ op.origins ↔ ∃ t, op.Nests t ∧ t.source = id

theorem Traced.of_template? (h : op'.Traced) (same : op.template? = op'.template?) : op.Traced := by
  intro id
  rw [origins, same, ← origins, h id]
  cases ht : op'.template? with
  | none => simp [not_nests ht, not_nests (same.trans ht)]
  | some u => simp only [nests_iff ht, nests_iff (same.trans ht)]

end Operator

theorem Net.mem_origins {net : Net} {id : GraphId} :
    id ∈ net.origins ↔ ∃ n op, net.operator? n = some op ∧ id ∈ op.origins := by
  simp only [Net.origins, List.mem_eraseDups, List.mem_flatMap, Array.mem_toList_iff,
    Array.mem_iff_getElem?]
  constructor
  · rintro ⟨node, ⟨n, hn⟩, hid⟩
    cases node with
    | none => cases hid
    | some node => exact ⟨n, node.operator, by rw [operator?, node?, hn]; rfl, hid⟩
  · rintro ⟨n, op, ho, hid⟩
    obtain ⟨node, hn, rfl⟩ := Option.map_eq_some_iff.1 ho
    exact ⟨some node, ⟨n, Option.join_eq_some_iff.1 hn⟩, hid⟩

/-- A frozen net is traced to its own graph and to those that its operators are traced to. -/
theorem Operator.traced_of_ofNet {op : Operator} {net : Net} {output : NodeId} {source : GraphId}
    (h : op.template? = some (.ofNet net output source))
    (traced : ∀ n op', net.operator? n = some op' → op'.Traced) : op.Traced := by
  intro id
  simp only [origins, h, Option.elim_some, Template.origins, List.mem_cons, nests_iff h,
    Template.ofNet, Net.mem_origins]
  constructor
  · rintro (rfl | ⟨n, op', ho, hid⟩)
    · exact ⟨_, .inl rfl, rfl⟩
    · obtain ⟨t, hn, rfl⟩ := (traced n op' ho _).1 hid
      exact ⟨t, .inr ⟨n, op', ho, hn⟩, rfl⟩
  · rintro ⟨t, rfl | ⟨n, op', ho, hn⟩, rfl⟩
    · exact .inl rfl
    · exact .inr ⟨n, op', ho, (traced n op' ho _).2 ⟨t, hn, rfl⟩⟩

/-! ### Histories of one graph -/

namespace Graph
variable {placed placed' : Operator → Prop} {g g' : Graph}

theorem add_eq_error_iff {op : Operator} :
    g.add op = .error (.recursivePlacement op.id) ↔ g.id ∈ op.origins := by
  unfold Graph.add
  split <;> simp_all

theorem add_eq_ok_iff {op : Operator} : (∃ e, g.add op = .ok e) ↔ g.id ∉ op.origins := by
  unfold Graph.add
  split <;> simp_all

theorem operator?_of_add {op : Operator} {e : Edited} (h : g.add op = .ok e) :
    e.graph.id = g.id ∧ e.graph.net.operator? g.nextNode = some op := by
  unfold Graph.add at h
  split at h <;> cases h
  refine ⟨rfl, ?_⟩
  rw [Graph.edited, Graph.withNet, Net.operator?_eq_wiring?, (Net.sameWiring_resolve _).wiring,
    ← Net.operator?_eq_wiring?, Net.operator?_push]
  exact if_pos rfl

theorem exists_promote {output : NodeId} (h : g.net.contains output = true) (id : OperatorId)
    (name : String) : ∃ op, g.promote output id name = .ok op :=
  ⟨_, if_pos h⟩

theorem Step.imp (h : g.Step placed g')
    (hp : ∀ op, placed op → g.id ∉ op.origins → placed' op) : g.Step placed' g' := by
  cases h with
  | add hop h => exact .add (hp _ hop (add_eq_ok_iff.1 ⟨_, h⟩)) h
  | remove h => exact .remove h
  | attach h => exact .attach h
  | detach h => exact .detach h
  | setDefault h => exact .setDefault h
  | setConfig h => exact .setConfig h
  | setNumber h => exact .setNumber h
  | setText h => exact .setText h
  | setPlacement h => exact .setPlacement h
  | resolveInOrder order => exact .resolveInOrder order
  | compile h => exact .compile h
  | copy id => exact .copy id
  | watch watched => exact .watch watched

theorem Reachable.imp (h : g.Reachable placed) (hp : ∀ op, placed op → placed' op) :
    g.Reachable placed' := by
  induction h with
  | empty id => exact .empty id
  | loaded hc h => exact .loaded (fun op hop => hp op (hc op hop)) h
  | step _ h ih => exact .step ih (h.imp fun op hop _ => hp op hop)

theorem Reachable.snapshot (h : g.Reachable placed) (id : GraphId) :
    (g.snapshot id).Reachable placed :=
  .step (.step h (.copy id)) (.watch false)

def freeze (g : Graph) (id : GraphId) : Graph := (g.snapshot id).withNet g.net.resolve

theorem Reachable.freeze (h : g.Reachable placed) (id : GraphId) :
    (g.freeze id).Reachable placed := by
  rw [Graph.freeze, h.resolve_eq]
  exact h.snapshot id

end Graph

/-! ### Histories of many graphs -/

/-- All graphs and operators that were made, and the identity that the next graph gets. The copies
that promotions froze are among the graphs. -/
structure Studio where
  graphs : List Graph
  operators : List Operator
  next : GraphId

namespace Studio

def receive (s : Studio) (g : Graph) : Studio :=
  { s with graphs := s.graphs ++ [g], next := s.next + 1 }

def learn (s : Studio) (op : Operator) : Studio := { s with operators := s.operators ++ [op] }

inductive Step (s : Studio) : Studio → Prop
  | create : Step s (s.receive (.empty s.next))
  | copy {g : Graph} : g ∈ s.graphs → Step s (s.receive (g.copy s.next))
  | snapshot {g : Graph} : g ∈ s.graphs → Step s (s.receive (g.snapshot s.next))
  | load {document : Document} {catalog : Catalog} {g : Graph} :
      (∀ op ∈ catalog.operators, op ∈ s.operators) →
      Graph.ofDocument s.next document catalog = .ok g → Step s (s.receive g)
  /-- A document that is refused has used up an identity. -/
  | refuse : Step s { s with next := s.next + 1 }
  | define {op : Operator} : op.template? = none → Step s (s.learn op)
  /-- An operator may be changed, but it keeps the template. -/
  | alter {op op' : Operator} : op' ∈ s.operators → op.template? = op'.template? →
      Step s (s.learn op)
  | promote {g : Graph} {output : NodeId} {id : OperatorId} {name : String} {op : Operator} :
      g ∈ s.graphs → g.promote output id name = .ok op →
      Step s ((s.learn op).receive (g.freeze s.next))
  /-- One change to one graph, which keeps its identity. -/
  | edit {earlier later : List Graph} {g g' : Graph} : s.graphs = earlier ++ g :: later →
      g.Step (· ∈ s.operators) g' → g'.id = g.id →
      Step s { s with graphs := earlier ++ g' :: later }

/-- What many graphs have become. -/
inductive Reachable : Studio → Prop
  | start (next : GraphId) : Reachable ⟨[], [], next⟩
  | step {s s' : Studio} : Reachable s → Step s s' → Reachable s'

/-- Identities are given out once, and every graph was made of operators that do not know it. -/
structure Sound (s : Studio) : Prop where
  distinct : (s.graphs.map (·.id)).Nodup
  graphs : ∀ g ∈ s.graphs,
    g.id < s.next ∧ g.Reachable fun op => op ∈ s.operators ∧ g.id ∉ op.origins
  operators : ∀ op ∈ s.operators, op.Traced ∧ ∀ id ∈ op.origins, id < s.next

namespace Sound
variable {s s' : Studio} {g : Graph} {op : Operator}

theorem start (next : GraphId) : Sound ⟨[], [], next⟩ :=
  ⟨List.nodup_nil, by simp, by simp⟩

theorem operator_mem (h : s.Sound) (hg : g ∈ s.graphs) {n : NodeId}
    (ho : g.net.operator? n = some op) : op ∈ s.operators ∧ g.id ∉ op.origins :=
  (h.graphs g hg).2.operator_placed ho

theorem reachable (h : s.Sound) (hg : g ∈ s.graphs) : g.Reachable (· ∈ s.operators) :=
  (h.graphs g hg).2.imp fun _ hop => hop.1

theorem receive (h : s.Sound) (hid : g.id = s.next) (hg : g.Reachable (· ∈ s.operators)) :
    (s.receive g).Sound := by
  refine ⟨?_, fun g' hg' => ?_, fun op hop => ?_⟩
  · have fresh g' (hg' : g' ∈ s.graphs) : g'.id ≠ g.id :=
      hid ▸ Nat.ne_of_lt (h.graphs g' hg').1
    simpa [Studio.receive, List.nodup_append, h.distinct] using fresh
  · rcases List.mem_append.1 hg' with hg' | hg'
    · obtain ⟨lt, reachable⟩ := h.graphs g' hg'
      exact ⟨Nat.lt_succ_of_lt lt, reachable⟩
    · -- what the operators know was given out before the new identity
      obtain rfl := List.mem_singleton.1 hg'
      refine ⟨hid ▸ Nat.lt_succ_self _, hg.imp fun op hop => ⟨hop, fun known => ?_⟩⟩
      exact Nat.ne_of_lt ((h.operators op hop).2 _ known) hid
  · obtain ⟨traced, known⟩ := h.operators op hop
    exact ⟨traced, fun id hid => Nat.lt_succ_of_lt (known id hid)⟩

theorem learn (h : s.Sound) (traced : op.Traced) (known : ∀ id ∈ op.origins, id < s.next) :
    (s.learn op).Sound := by
  refine ⟨h.distinct, fun g hg => ?_, fun op' hop => ?_⟩
  · obtain ⟨lt, reachable⟩ := h.graphs g hg
    exact ⟨lt, reachable.imp fun op hop => ⟨List.mem_append_left _ hop.1, hop.2⟩⟩
  · rcases List.mem_append.1 hop with hop | hop
    · exact h.operators op' hop
    · obtain rfl := List.mem_singleton.1 hop
      exact ⟨traced, known⟩

/-- A promoted operator knows the graph that it was made of, and what that graph was made of. -/
theorem promote (h : s.Sound) (hg : g ∈ s.graphs) {output : NodeId} {id : OperatorId}
    {name : String} (hp : g.promote output id name = .ok op) : (s.learn op).Sound := by
  have template := Graph.template_of_promote hp
  rw [(h.reachable hg).resolve_eq] at template
  have placed n op' (ho : g.net.operator? n = some op') : op' ∈ s.operators :=
    (h.operator_mem hg ho).1
  refine h.learn (Operator.traced_of_ofNet template fun n op' ho =>
    (h.operators op' (placed n op' ho)).1) fun id hid => ?_
  rw [Operator.origins, template, Option.elim_some, Template.origins, List.mem_cons] at hid
  rcases hid with rfl | hid
  · exact (h.graphs g hg).1
  · obtain ⟨n, op', ho, hid⟩ := Net.mem_origins.1 hid
    exact (h.operators op' (placed n op' ho)).2 id hid

/-- A change to one graph places only operators that do not know it. -/
theorem edit (h : s.Sound) {earlier later : List Graph} {g' : Graph}
    (hs : s.graphs = earlier ++ g :: later) (step : g.Step (· ∈ s.operators) g')
    (same : g'.id = g.id) : Sound { s with graphs := earlier ++ g' :: later } := by
  obtain ⟨distinct, graphs, operators⟩ := h
  rw [hs] at distinct graphs
  refine ⟨?_, fun k hk => ?_, operators⟩
  · simpa [same] using distinct
  · rcases List.mem_append.1 hk with hk | hk
    · exact graphs k (List.mem_append_left _ hk)
    · rcases List.mem_cons.1 hk with rfl | hk
      · obtain ⟨lt, reachable⟩ := graphs g (by simp)
        rw [same]
        exact ⟨lt, .step reachable (step.imp fun op hop known => ⟨hop, known⟩)⟩
      · exact graphs k (List.mem_append_right _ (List.mem_cons_of_mem _ hk))

theorem step (h : s.Sound) (hs : s.Step s') : s'.Sound := by
  cases hs with
  | create => exact h.receive rfl (.empty _)
  | copy hg => exact h.receive rfl (.step (h.reachable hg) (.copy _))
  | snapshot hg => exact h.receive rfl ((h.reachable hg).snapshot _)
  | load hc hl =>
    obtain ⟨net, -, rfl⟩ := Graph.ofDocument_eq_ok hl
    exact h.receive rfl (.loaded hc hl)
  | refuse =>
    exact ⟨h.distinct, fun g hg => ⟨Nat.lt_succ_of_lt (h.graphs g hg).1, (h.graphs g hg).2⟩,
      fun op hop => ⟨(h.operators op hop).1, fun id hid =>
        Nat.lt_succ_of_lt ((h.operators op hop).2 id hid)⟩⟩
  | @define op ht =>
    have none : op.origins = [] := by simp [Operator.origins, ht]
    exact h.learn (fun id => by simp [none, Operator.not_nests ht]) (by simp [none])
  | alter hop same =>
    obtain ⟨traced, known⟩ := h.operators _ hop
    exact h.learn (traced.of_template? same) (by rwa [Operator.origins, same])
  | promote hg hp =>
    refine (h.promote hg hp).receive rfl (((h.reachable hg).freeze _).imp fun op hop => ?_)
    exact List.mem_append_left _ hop
  | edit hs step same => exact h.edit hs step same

end Sound

theorem Reachable.sound {s : Studio} (h : s.Reachable) : s.Sound := by
  induction h with
  | start next => exact .start next
  | step _ hs ih => exact ih.step hs

/-- Whatever is created, copied, loaded, promoted and placed, no graph holds an operator that nests
a template of that graph. An operator is refused by the graphs that it nests a template of, and by
no others. -/
theorem no_graph_in_itself {s : Studio} (h : s.Reachable) :
    (s.graphs.map (·.id)).Nodup ∧
    (∀ g ∈ s.graphs, ∀ n op t, g.net.operator? n = some op → op.Nests t → t.source ≠ g.id) ∧
    ∀ g ∈ s.graphs, ∀ op ∈ s.operators,
      (g.add op = .error (.recursivePlacement op.id) ↔ ∃ t, op.Nests t ∧ t.source = g.id) ∧
      ((∃ e, g.add op = .ok e) ↔ ∀ t, op.Nests t → t.source ≠ g.id) := by
  have sound := h.sound
  have known {g op} (hop : op ∈ s.operators) :
      g ∈ op.origins ↔ ∃ t, op.Nests t ∧ t.source = g := (sound.operators op hop).1 g
  refine ⟨sound.distinct, fun g hg n op t ho ht same => ?_, fun g hg op hop => ⟨?_, ?_⟩⟩
  · obtain ⟨hop, free⟩ := sound.operator_mem hg ho
    exact free ((known hop).2 ⟨t, ht, same⟩)
  · rw [Graph.add_eq_error_iff, known hop]
  · rw [Graph.add_eq_ok_iff, known hop]
    simp

/-- Any operator can be placed in a new graph, and that graph promoted. -/
theorem Reachable.wrap {s : Studio} (h : s.Reachable) {op : Operator} (hop : op ∈ s.operators) :
    ∃ (s' : Studio) (g : Graph) (op' : Operator), s'.Reachable ∧ s'.next = s.next + 2 ∧
      g ∈ s'.graphs ∧ (∀ k ∈ s.graphs, k ∈ s'.graphs) ∧ op' ∈ s'.operators ∧ g.id = s.next ∧
      g.net.operator? 0 = some op ∧ op'.template? = some (.ofNet g.net 0 g.id) := by
  have new : (Graph.empty s.next).id ∉ op.origins := fun known =>
    Nat.lt_irrefl s.next ((h.sound.operators op hop).2 _ known)
  obtain ⟨e, he⟩ := Graph.add_eq_ok_iff.2 new
  obtain ⟨hid, ho⟩ := Graph.operator?_of_add he
  have created : Reachable (s.receive (.empty s.next)) := h.step .create
  have placed : Reachable ⟨s.graphs ++ e.graph :: [], s.operators, s.next + 1⟩ :=
    created.step (.edit rfl (.add hop he) hid)
  have hg : e.graph ∈ s.graphs ++ [e.graph] := by simp
  obtain ⟨op', hp⟩ := e.graph.exists_promote (Net.contains_of_operator? ho) ⟨1, 0⟩ "wrapped"
  have template := Graph.template_of_promote hp
  rw [(placed.sound.reachable hg).resolve_eq] at template
  refine ⟨_, e.graph, op', placed.step (.promote hg hp), rfl, ?_, fun k hk => ?_, ?_, hid, ho,
    template⟩
  · exact List.mem_append_left _ hg
  · exact List.mem_append_left _ (List.mem_append_left _ hk)
  · exact List.mem_append_right _ (List.mem_singleton_self op')

end Studio

end

namespace Studio

/-- An input is promoted with a graph around it, and the operator with a second graph around that.
The first graph refuses what comes out, though it was not the one to be promoted last. -/
theorem no_graph_in_itself_wrapped :
    ∃ s : Studio, s.Reachable ∧ ∃ g ∈ s.graphs, ∃ op ∈ s.operators,
      (∃ t, op.template? = some t ∧ t.source ≠ g.id) ∧ (∃ t, op.Nests t ∧ t.source = g.id) ∧
      g.add op = .error (.recursivePlacement op.id) := by
  have started : Reachable ⟨[], [.input (.builtin 2)], 0⟩ := (Reachable.start 0).step (.define rfl)
  obtain ⟨s, g, op, h, next, hg, -, hop, hid, -, ht⟩ := started.wrap (List.mem_singleton_self _)
  obtain ⟨s', g', op', h', -, -, kept, hop', hid', ho, ht'⟩ := h.wrap hop
  have nested : op'.Nests (.ofNet g.net 0 g.id) := .inner ht' ho (.own ht)
  have refused := (((no_graph_in_itself h').2.2 g (kept g hg) op' hop').1).2 ⟨_, nested, rfl⟩
  refine ⟨s', h', g, kept g hg, op', hop', ⟨_, ht', ?_⟩, ⟨_, nested, rfl⟩, refused⟩
  change g'.id ≠ g.id
  rw [hid', hid, next]
  exact Nat.succ_ne_zero 1

end Studio

end Patchbay
