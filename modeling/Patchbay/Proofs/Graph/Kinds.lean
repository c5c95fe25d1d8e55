import Patchbay.Proofs.Graph.History
import Patchbay.Proofs.Net.Passes

/-! # The kinds that a graph stores

An edit settles the kinds of all nodes anew, and what touches no edge leaves them alone. So the
stored kinds are at all times those that settling anew would give.
-/

namespace Patchbay

variable [Platform]

namespace Net
variable {net net' : Net}

/-- The stored kinds are the settled ones. -/
def Resolved (net : Net) : Prop := ∀ n, net.contains n = true → net.kind? n = net.settled.kind? n

theorem kind?_withKinds (net : Net) (settled : Settled) {n : NodeId}
    (hn : net.contains n = true) : (net.withKinds settled).kind? n = settled.kind? n := by
  obtain ⟨node, hnode⟩ := Option.isSome_iff_exists.1 hn
  rw [kind?, withKinds, node?_mapIdx, hnode]
  rfl

theorem Resolved.resolve (h : net.Resolved) : net.resolve = net := by
  refine eq_of_node? Array.size_mapIdx rfl fun n => ?_
  rw [Net.resolve, withKinds, node?_mapIdx]
  cases hnode : net.node? n with
  | none => rfl
  | some node =>
    have kind := h n (Option.isSome_of_eq_some hnode)
    rw [kind?, hnode, Option.bind_some] at kind
    rw [Option.map_some, ← kind]
    cases node
    rfl

theorem SameWiring.kind?_settled (h : net.SameWiring net') (hl : net.Linked) {n : NodeId}
    (hn : net.contains n = true) : net'.settled.kind? n = net.settled.kind? n :=
  h.renamed.kind?_settledBy hl (fun _ => mem_ids) (fun _ => mem_ids) hn

theorem Renamed.kind?_rename {φ : NodeId → NodeId} (h : net.Renamed φ net') (hl : net.Linked)
    (hr : net.Resolved) (hr' : net'.Resolved) {n : NodeId} (hn : net.contains n = true) :
    net'.kind? (φ n) = net.kind? n := by
  rw [hr' _ (h.contains_rename hn), hr n hn]
  exact h.kind?_settledBy hl (fun _ => mem_ids) (fun _ => mem_ids) hn

theorem Resolved.of_sameWiring (h : net.Resolved) (hw : net.SameWiring net') (hl : net.Linked)
    (hk : ∀ n, net'.kind? n = net.kind? n) : net'.Resolved := by
  intro n hn
  rw [hw.contains] at hn
  rw [hk, h n hn, hw.kind?_settled hl hn]

theorem resolved_resolve (hl : net.Linked) : net.resolve.Resolved := by
  intro n hn
  rw [(sameWiring_resolve net).contains] at hn
  rw [(sameWiring_resolve net).kind?_settled hl hn]
  exact kind?_withKinds net _ hn

theorem kind?_eq_of_view (h : ∀ n, (net'.node? n).map (·.kind) = (net.node? n).map (·.kind))
    (n : NodeId) : net'.kind? n = net.kind? n := by
  have view (net : Net) : net.kind? n = ((net.node? n).map (·.kind)).join := by
    rw [kind?]
    cases net.node? n <;> rfl
  rw [view, h, ← view]

theorem kind?_modify {f : Node → Node} (h : ∀ node, (f node).kind = node.kind) (net : Net)
    (n m : NodeId) : (net.modify n f).kind? m = net.kind? m :=
  kind?_eq_of_view (fun m => view_modify h net n m) m

theorem kind?_forget (net : Net) (context : ContextId) (n : NodeId) :
    (net.forget context).kind? n = net.kind? n :=
  kind?_eq_of_view (fun n => by rw [node?_forget, Option.map_map]; rfl) n

theorem kind?_remember (net : Net) (context : ContextId) (lengths : List (NodeId × Nat))
    (n : NodeId) : (net.remember context lengths).kind? n = net.kind? n := by
  induction lengths generalizing net with
  | nil => rfl
  | cons found lengths ih =>
    rw [remember, List.foldl_cons, ← remember, ih]
    obtain ⟨m, length⟩ := found
    exact kind?_modify (by exact fun _ => rfl) net m n

end Net

namespace Graph
variable {placed : Operator → Prop} {g g' : Graph} {n : NodeId}

theorem kind?_adjust {f : Node → Node} (h : g.adjust n f = .ok g')
    (hf : ∀ node, (f node).kind = node.kind) (m : NodeId) : g'.net.kind? m = g.net.kind? m := by
  unfold adjust at h
  split at h
  · cases h
    exact Net.kind?_modify hf g.net n m
  · cases h

theorem kind?_setDefault {slot : Nat} {value : Cell} (h : g.setDefault n slot value = .ok g')
    (m : NodeId) : g'.net.kind? m = g.net.kind? m := by
  unfold setDefault at h
  split at h
  · cases h
  split at h
  · exact kind?_adjust h (fun _ => rfl) m
  · cases h

theorem kind?_compile {context : ContextId} {output : NodeId} {externals : Legs}
    {compiled : Context} (h : g.compile context output externals = .ok (g', compiled))
    (m : NodeId) : g'.net.kind? m = g.net.kind? m := by
  rw [(graph_of_compile h).2.2]
  refine (Net.kind?_remember _ _ _ m).trans ?_
  cases g.compiled with
  | none => rfl
  | some old => exact Net.kind?_forget g.net old m

/-- A step settles all kinds, or it touches neither them nor an edge. -/
theorem Step.resolved_or (h : Step placed g g') :
    (∃ net : Net, g'.net = net.resolve) ∨
      g.net.SameWiring g'.net ∧ ∀ m, g'.net.kind? m = g.net.kind? m := by
  cases h with
  | add hop h =>
    unfold Graph.add at h
    split at h <;> cases h
    exact .inl ⟨_, rfl⟩
  | remove h =>
    unfold Graph.remove at h
    split at h <;> cases h
    exact .inl ⟨_, rfl⟩
  | @attach n slot p _ h =>
    obtain ⟨_, rfl⟩ := attach_eq_ok.1 h
    exact .inl ⟨_, rfl⟩
  | detach h =>
    unfold Graph.detach at h
    split at h
    · cases h
    split at h
    · cases h
    split at h <;> cases h
    · exact .inr ⟨Net.sameWiring_refl _, fun _ => rfl⟩
    · exact .inl ⟨_, rfl⟩
  | setDefault h => exact .inr ⟨sameWiring_setDefault h, kind?_setDefault h⟩
  | setConfig h | setNumber h | setText h | setPlacement h =>
    exact .inr ⟨sameWiring_adjust h fun _ => ⟨rfl, rfl, rfl⟩, kind?_adjust h fun _ => rfl⟩
  | resolveInOrder order => exact .inl ⟨g.net, Net.resolveInOrder_eq order⟩
  | compile h => exact .inr ⟨sameWiring_compile h, kind?_compile h⟩
  | copy id => exact .inr ⟨Net.sameWiring_refl _, fun _ => rfl⟩
  | watch watched => exact .inr ⟨Net.sameWiring_refl _, fun _ => rfl⟩

/-- A graph with a history stores the kinds that settling anew gives. -/
theorem Reachable.resolved (h : g.Reachable placed) : g.net.Resolved := by
  have settled {net bare : Net} (hw : net.WellFormed) (he : net = bare.resolve) :
      net.Resolved := by
    have same := Net.sameWiring_resolve bare
    rw [he] at hw ⊢
    exact Net.resolved_resolve (hw.of_sameWiring same.symm).linked
  induction h with
  | empty id =>
    intro n hn
    simp [Graph.empty, Net.contains, Net.node?, Net.empty] at hn
  | loaded _ h =>
    obtain ⟨net, hn, rfl⟩ := ofDocument_eq_ok h
    obtain ⟨_, _, _, _, _, he⟩ := Net.ofDocument_eq_ok hn
    exact settled (Net.wellFormed_ofDocument hn).1 he
  | @step g g' hg hs ih =>
    rcases hs.resolved_or with ⟨net, he⟩ | ⟨same, kinds⟩
    · exact settled (hs.wellFormed hg.wellFormed) he
    · exact ih.of_sameWiring same hg.wellFormed.linked kinds

theorem Reachable.resolve_eq (h : g.Reachable placed) : g.net.resolve = g.net :=
  h.resolved.resolve

end Graph
end Patchbay
