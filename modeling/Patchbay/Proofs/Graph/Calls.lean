import Patchbay.Proofs.Graph.Editing

/-! # What calls leave behind

A call that is refused leaves everything as it was. Any other call makes one of a few changes to the
net, tells the watcher of one event or of none, and comes back with a context if it was a compile.
-/

namespace Patchbay

variable [Platform]

def Answer.compiled? : Answer → Option Context
  | .compiled context => some context
  | _ => none

/-- What a call leaves on a desk, whether it is refused or not, and the context that it compiled. -/
def Call.outcome (call : Call) (desk : Desk) : Desk × Option Context :=
  match call.perform desk with
  | .ok answer desk => (desk, answer.compiled?)
  | .error _ desk => (desk, none)

/-- The node differs in its properties alone: it keeps its operator, its edges and its lengths. -/
structure Node.Kept (node node' : Node) : Prop where
  operator : node'.operator = node.operator
  sources : node'.inlets.map (·.source) = node.inlets.map (·.source)
  outlets : node'.outlets = node.outlets
  lengths : node'.lengths = node.lengths

/-- What a call that is not refused does to a graph, what its watcher hears, and what is compiled.
-/
inductive Graph.Does (g : Graph) : Edited → Option Context → Prop
  | add (op : Operator) : Does g (g.edited (g.net.push op) (.added g.nextNode)) none
  | remove {n : NodeId} (live : g.net.contains n = true) :
      Does g (g.edited (g.net.erase n) (.removed n)) none
  | attach {n : NodeId} {slot : Nat} {p : NodeId} (inlet : (g.net.inlet? n slot).isSome) :
      Does g (g.edited (g.net.setSource n slot (some p)) (.attached n slot p)) none
  | detach (n : NodeId) (slot : Nat) :
      Does g (g.edited (g.net.setSource n slot none) (.detached n slot)) none
  /-- A slot is detached that is open already. -/
  | vacant : Does g ⟨g, none⟩ none
  | adjust (n : NodeId) {f : Node → Node} (kept : ∀ node : Node, node.Kept (f node)) :
      Does g ⟨g.withNet (g.net.modify n f), none⟩ none
  | compile {context : ContextId} {output : NodeId} {externals : Legs} {g' : Graph}
      {compiled : Context} (h : g.compile context output externals = .ok (g', compiled)) :
      Does g ⟨g', none⟩ (some compiled)

namespace Call
variable {g : Graph} {e : Edited} {a answer' : Answer}

theorem edit_eq_ok {result : Except GraphError Edited} :
    answer.edit result answer' = .ok (e, a) ↔ result = .ok e ∧ a = answer' := by
  cases result <;> simp [answer.edit, Except.mapError, Except.map, eq_comm]

theorem property_eq_ok {result : Except GraphError Graph} :
    answer.property result = .ok (e, a) ↔
      ∃ g', result = .ok g' ∧ e = ⟨g', none⟩ ∧ a = .done := by
  cases result <;>
    simp [answer.property, answer.edit, Except.mapError, Except.map, eq_comm]

theorem compile_eq_ok {context : ContextId} {output : NodeId} {externals : Legs} :
    answer g (.compile context output externals) = .ok (e, a) ↔
      ∃ c, g.compile context output externals = .ok c ∧ e = ⟨c.1, none⟩ ∧ a = .compiled c.2 := by
  rw [answer]
  cases g.compile context output externals <;> simp [Except.mapError, Except.map, eq_comm]

theorem does_of_adjust {n : NodeId} {f : Node → Node}
    (h : answer.property (g.adjust n f) = .ok (e, a))
    (kept : ∀ node : Node, node.Kept (f node)) : g.Does e a.compiled? := by
  obtain ⟨g', made, rfl, rfl⟩ := property_eq_ok.1 h
  unfold Graph.adjust at made
  split at made
  · cases made
    exact .adjust n kept
  · cases made

/-- A call that is not refused is a step in the history of the graph. -/
theorem step_of_answer {call : Call} (h : call.answer g = .ok (e, a)) :
    Graph.Step (fun _ => True) g e.graph := by
  cases call with
  | add op => exact .add trivial (edit_eq_ok.1 h).1
  | remove n => exact .remove (edit_eq_ok.1 h).1
  | attach n slot p => exact .attach (edit_eq_ok.1 h).1
  | detach n slot => exact .detach (edit_eq_ok.1 h).1
  | setDefault n slot value =>
    obtain ⟨g', made, rfl, -⟩ := property_eq_ok.1 h
    exact .setDefault made
  | setNumber n key value =>
    obtain ⟨g', made, rfl, -⟩ := property_eq_ok.1 h
    exact .setNumber made
  | setText n key value =>
    obtain ⟨g', made, rfl, -⟩ := property_eq_ok.1 h
    exact .setText made
  | setConfig n config =>
    obtain ⟨g', made, rfl, -⟩ := property_eq_ok.1 h
    exact .setConfig made
  | setPlacement n placement =>
    obtain ⟨g', made, rfl, -⟩ := property_eq_ok.1 h
    exact .setPlacement made
  | compile context output externals =>
    obtain ⟨c, made, rfl, -⟩ := compile_eq_ok.1 h
    exact .compile made

theorem does_of_answer (hg : g.net.WellFormed) {call : Call} (h : call.answer g = .ok (e, a)) :
    g.Does e a.compiled? := by
  cases call with
  | add op =>
    obtain ⟨made, rfl⟩ := edit_eq_ok.1 h
    unfold Graph.add at made
    split at made
    · cases made
    · cases made
      exact .add op
  | remove n =>
    obtain ⟨made, rfl⟩ := edit_eq_ok.1 h
    unfold Graph.remove at made
    split at made
    · rename_i live
      cases made
      exact .remove live
    · cases made
  | attach n slot p =>
    obtain ⟨made, rfl⟩ := edit_eq_ok.1 h
    obtain ⟨checked, rfl⟩ := Graph.attach_eq_ok.1 made
    exact .attach (Graph.checkEdge_eq_ok hg checked).1.1
  | detach n slot =>
    obtain ⟨made, rfl⟩ := edit_eq_ok.1 h
    unfold Graph.detach at made
    split at made
    · cases made
    split at made
    · cases made
    split at made
    · cases made
      exact .vacant
    · cases made
      exact .detach n slot
  | setDefault n slot value =>
    rw [answer, Graph.setDefault] at h
    split at h
    · cases h
    split at h
    · exact does_of_adjust h fun node =>
        ⟨rfl, Graph.map_source_modify_default node.inlets slot value, rfl, rfl⟩
    · cases h
  | setNumber | setText | setConfig | setPlacement =>
    exact does_of_adjust h fun node => ⟨rfl, rfl, rfl, rfl⟩
  | compile context output externals =>
    obtain ⟨c, made, rfl, rfl⟩ := compile_eq_ok.1 h
    exact .compile made

theorem outcome_cases {desk : Desk} (hg : desk.graph.Reachable fun _ => True) (call : Call) :
    call.outcome desk = (desk, none) ∨
      ∃ (e : Edited) (compiled : Option Context), desk.graph.Does e compiled ∧
        e.graph.Reachable (fun _ => True) ∧
        call.outcome desk = (⟨e.graph, desk.heard ++ e.event.toList⟩, compiled) := by
  rw [outcome, (perform_eq_settle hg call).1]
  cases h : call.answer desk.graph with
  | error cause => exact .inl rfl
  | ok result =>
    obtain ⟨e, a⟩ := result
    exact .inr ⟨e, a.compiled?, does_of_answer hg.wellFormed h, hg.step (step_of_answer h), rfl⟩

end Call
end Patchbay
