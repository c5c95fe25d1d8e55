import Patchbay.Proofs.Net.Order

/-! # Changes to the edges of a net

Each unchecked change is described by what it does to the live nodes, to the producer of a slot and
to the ports that a node knows. Detaching and attaching update both ends of an edge, so they keep
them in agreement, also where a slot is fed anew by the producer that it had.
-/

namespace Patchbay
open Relation

namespace Port
variable {p q r : Port}

theorem before_iff : p.before q = true ↔ p.node < q.node ∨ p.node = q.node ∧ p.slot < q.slot := by
  simp [before]

theorem not_before_self (p : Port) : ¬p.before p = true := by simp [before]

theorem before_trans (hpq : p.before q = true) (hqr : q.before r = true) : p.before r = true := by
  rw [before_iff] at *
  rcases hpq with h | ⟨h, hs⟩ <;> rcases hqr with h' | ⟨h', hs'⟩
  · exact .inl (h.trans h')
  · exact .inl (h' ▸ h)
  · exact .inl (h ▸ h')
  · exact .inr ⟨h.trans h', hs.trans hs'⟩

theorem before_of_not_before (h : ¬p.before q = true) (hne : p ≠ q) : q.before p = true := by
  rw [before_iff] at *
  rcases Nat.lt_trichotomy q.node p.node with hlt | heq | hlt
  · exact .inl hlt
  · refine .inr ⟨heq, ?_⟩
    have hs : ¬p.slot < q.slot := fun hs => h (.inr ⟨heq.symm, hs⟩)
    have hne : p.slot ≠ q.slot := by
      intro hs
      cases p
      cases q
      simp_all
    omega
  · exact absurd (.inl hlt) h

theorem mem_insert {ports : List Port} : q ∈ p.insert ports ↔ q = p ∨ q ∈ ports := by
  induction ports with
  | nil => simp [Port.insert]
  | cons r ports ih =>
    rw [Port.insert]
    split
    · exact List.mem_cons
    split
    · rename_i h
      simp [h]
    · rw [List.mem_cons, ih, List.mem_cons]
      tauto

theorem pairwise_insert {ports : List Port} (h : ports.Pairwise fun p q => p.before q = true) :
    (p.insert ports).Pairwise fun p q => p.before q = true := by
  induction ports with
  | nil => simp [Port.insert]
  | cons r ports ih =>
    rw [List.pairwise_cons] at h
    rw [Port.insert]
    split
    · rename_i hpr
      refine List.pairwise_cons.2 ⟨fun q hq => ?_, List.pairwise_cons.2 h⟩
      rcases List.mem_cons.1 hq with rfl | hq
      · exact hpr
      · exact before_trans hpr (h.1 q hq)
    split
    · exact List.pairwise_cons.2 h
    · rename_i hpr hne
      refine List.pairwise_cons.2 ⟨fun q hq => ?_, ih h.2⟩
      rcases mem_insert.1 hq with rfl | hq
      · exact before_of_not_before hpr hne
      · exact h.1 q hq

end Port

variable [Platform]

namespace Net
variable {net : Net} {n m p : NodeId} {slot : Nat} {source : Option NodeId}

theorem node?_modify (net : Net) (n : NodeId) (f : Node → Node) (m : NodeId) :
    (net.modify n f).node? m = if n = m then (net.node? m).map f else net.node? m := by
  rw [node?, modify, Array.getElem?_modify]
  split
  · rw [node?]
    cases net.nodes[m]? with
    | none => rfl
    | some node => cases node <;> rfl
  · rfl

/-- A change to one node that keeps what the rest of the net sees of it. -/
theorem view_modify {α : Type*} {f : Node → Node} {view : Node → α}
    (h : ∀ node, view (f node) = view node) (net : Net) (n m : NodeId) :
    ((net.modify n f).node? m).map view = (net.node? m).map view := by
  rw [node?_modify]
  split
  · rw [Option.map_map]
    exact congrArg (Option.map · (net.node? m)) (funext h)
  · rfl

theorem contains_modify (net : Net) (n : NodeId) (f : Node → Node) (m : NodeId) :
    (net.modify n f).contains m = net.contains m := by
  rw [contains, node?_modify, contains]
  split
  · exact Option.isSome_map
  · rfl

theorem size_modify (net : Net) (n : NodeId) (f : Node → Node) :
    (net.modify n f).nodes.size = net.nodes.size := Array.size_modify

/-! ### Both ends of an edge -/

theorem source?_congr {net net' : Net}
    (h : (net'.node? n).map (·.inlets) = (net.node? n).map (·.inlets)) (slot : Nat) :
    net'.source? n slot = net.source? n slot := by
  have inlets (net : Net) : net.inlet? n slot = ((net.node? n).map (·.inlets)).bind (·[slot]?) := by
    rw [inlet?, Option.bind_map]
    rfl
  rw [source?, inlets, h, ← inlets, source?]

theorem outlets_congr {net net' : Net}
    (h : (net'.node? n).map (·.outlets) = (net.node? n).map (·.outlets)) :
    net'.outlets n = net.outlets n := by
  have view (net : Net) : net.outlets n = ((net.node? n).map (·.outlets)).getD [] := by
    rw [outlets]
    cases net.node? n <;> rfl
  rw [view, h, ← view]

theorem source?_link (net : Net) (p : NodeId) (q : Port) (n : NodeId) (slot : Nat) :
    (net.link p q).source? n slot = net.source? n slot := by
  refine source?_congr ?_ slot
  rw [link]
  exact view_modify (by exact fun _ => rfl) net p n

theorem source?_unlink (net : Net) (p : NodeId) (q : Port) (n : NodeId) (slot : Nat) :
    (net.unlink p q).source? n slot = net.source? n slot := by
  refine source?_congr ?_ slot
  rw [unlink]
  exact view_modify (by exact fun _ => rfl) net p n

theorem outlets_link (net : Net) (p : NodeId) (q : Port) (n : NodeId) :
    (net.link p q).outlets n =
      if p = n ∧ net.contains n = true then q.insert (net.outlets n) else net.outlets n := by
  rw [outlets, link, node?_modify, outlets, contains]
  cases net.node? n <;> by_cases h : p = n <;> simp [h]

theorem outlets_unlink (net : Net) (p : NodeId) (q : Port) (n : NodeId) :
    (net.unlink p q).outlets n =
      if p = n then (net.outlets n).filter (· != q) else net.outlets n := by
  rw [outlets, unlink, node?_modify, outlets]
  cases net.node? n <;> by_cases h : p = n <;> simp [h]

theorem source?_feed (net : Net) (n : NodeId) (slot : Nat) (source : Option NodeId) (q : Port) :
    (net.feed n slot source).source? q.node q.slot =
      if q = ⟨n, slot⟩ then (net.inlet? n slot).bind fun _ => source
      else net.source? q.node q.slot := by
  obtain ⟨m, s⟩ := q
  simp only [source?, inlet?, feed, node?_modify, Port.mk.injEq]
  by_cases hn : n = m
  · subst hn
    cases net.node? n with
    | none => simp
    | some node =>
      by_cases hs : slot = s
      · subst hs
        cases h : node.inlets[slot]? <;> simp [h]
      · cases h : node.inlets[s]? <;> simp [h, hs, Ne.symm hs]
  · simp [hn, Ne.symm hn]

theorem outlets_feed (net : Net) (n : NodeId) (slot : Nat) (source : Option NodeId) (p : NodeId) :
    (net.feed n slot source).outlets p = net.outlets p := by
  rw [feed]
  exact outlets_congr (view_modify (by exact fun _ => rfl) net n p)

theorem source?_setSource (net : Net) (n : NodeId) (slot : Nat) (source : Option NodeId)
    (q : Port) :
    (net.setSource n slot source).source? q.node q.slot =
      if q = ⟨n, slot⟩ then (net.inlet? n slot).bind fun _ => source
      else net.source? q.node q.slot := by
  rw [setSource, ← source?_feed]
  cases net.source? n slot <;> cases source <;>
    simp only [Option.elim_none, Option.elim_some, source?_link, source?_unlink]

theorem outlets_setSource (net : Net) (n : NodeId) (slot : Nat) (source : Option NodeId)
    (p : NodeId) :
    (net.setSource n slot source).outlets p =
      let kept := if net.source? n slot = some p then (net.outlets p).filter (· != ⟨n, slot⟩)
        else net.outlets p
      if source = some p ∧ net.contains p = true then Port.insert ⟨n, slot⟩ kept else kept := by
  have there (net : Net) (q : NodeId) : (net.unlink q ⟨n, slot⟩).contains p = net.contains p :=
    contains_modify _ _ _ _
  have fed : (net.feed n slot source).contains p = net.contains p := contains_modify _ _ _ _
  rw [setSource]
  cases net.source? n slot <;> cases source <;>
    simp [outlets_link, outlets_unlink, outlets_feed, fed, there]

/-- A view of the nodes that sees no edges does not change with the source of a slot. -/
theorem view_setSource {α : Type*} {view : Node → α}
    (hi : ∀ (node : Node) (slot : Nat) (source : Option NodeId),
      view { node with inlets := node.inlets.modify slot fun inlet => { inlet with source } } =
        view node)
    (ho : ∀ (node : Node) (outlets : List Port), view { node with outlets } = view node)
    (net : Net) (n : NodeId) (slot : Nat) (source : Option NodeId) (m : NodeId) :
    ((net.setSource n slot source).node? m).map view = (net.node? m).map view := by
  have fed : ((net.feed n slot source).node? m).map view = (net.node? m).map view :=
    view_modify (fun node => hi node slot source) net n m
  have unlinked (net : Net) (p : NodeId) :
      ((net.unlink p ⟨n, slot⟩).node? m).map view = (net.node? m).map view :=
    view_modify (fun node => ho node _) net p m
  have linked (net : Net) (p : NodeId) :
      ((net.link p ⟨n, slot⟩).node? m).map view = (net.node? m).map view :=
    view_modify (fun node => ho node _) net p m
  rw [setSource, ← fed]
  cases net.source? n slot <;> cases source <;>
    simp only [Option.elim_none, Option.elim_some, unlinked, linked]

def frame? (net : Net) (n : NodeId) : Option (Operator × Nat) :=
  (net.node? n).map fun node => (node.operator, node.inlets.length)

theorem frame?_setSource (net : Net) (n : NodeId) (slot : Nat) (source : Option NodeId)
    (m : NodeId) : (net.setSource n slot source).frame? m = net.frame? m := by
  refine view_setSource ?_ ?_ net n slot source m
  · intro node slot source
    rw [List.length_modify]
  · intro node outlets
    rfl

theorem contains_eq_frame? (net : Net) (n : NodeId) : net.contains n = (net.frame? n).isSome := by
  rw [contains, frame?, Option.isSome_map]

theorem contains_setSource (net : Net) (n : NodeId) (slot : Nat) (source : Option NodeId)
    (m : NodeId) : (net.setSource n slot source).contains m = net.contains m := by
  rw [contains_eq_frame?, frame?_setSource, contains_eq_frame?]

theorem size_setSource (net : Net) (n : NodeId) (slot : Nat) (source : Option NodeId) :
    (net.setSource n slot source).nodes.size = net.nodes.size := by
  rw [setSource]
  cases net.source? n slot <;> cases source <;>
    simp only [Option.elim_none, Option.elim_some, feed, link, unlink, size_modify]

theorem count_setSource (net : Net) (n : NodeId) (slot : Nat) (source : Option NodeId) :
    (net.setSource n slot source).count = net.count := by
  rw [setSource]
  cases net.source? n slot <;> cases source <;> rfl

/-- Attaching and detaching keep both ends of every edge in agreement. -/
theorem Linked.setSource (h : net.Linked)
    (hp : ∀ p, source = some p → (net.inlet? n slot).isSome ∧ net.contains p = true) :
    (net.setSource n slot source).Linked := by
  refine ⟨fun p q => ?_, fun p => ?_⟩
  · rw [source?_setSource, outlets_setSource]
    have kept : q ∈ (if net.source? n slot = some p then (net.outlets p).filter (· != ⟨n, slot⟩)
        else net.outlets p) ↔ q ≠ ⟨n, slot⟩ ∧ net.source? q.node q.slot = some p := by
      have old := h.outlets p q
      split
      · rw [List.mem_filter, old, bne_iff_ne, and_comm]
      · rename_i hn
        rw [old]
        refine ⟨fun hs => ⟨?_, hs⟩, And.right⟩
        rintro rfl
        exact hn hs
    by_cases hs : source = some p
    · obtain ⟨hi, hc⟩ := hp p hs
      obtain ⟨inlet, hi⟩ := Option.isSome_iff_exists.1 hi
      simp only [hs, hc, and_self, if_true, Port.mem_insert, kept, hi, Option.bind_some]
      by_cases hq : q = ⟨n, slot⟩ <;> simp [hq]
    · simp only [hs, false_and, if_false, kept]
      by_cases hq : q = ⟨n, slot⟩
      · cases net.inlet? n slot <;> simp [hq, hs]
      · simp [hq]
  · rw [outlets_setSource]
    have kept : (if net.source? n slot = some p then (net.outlets p).filter (· != ⟨n, slot⟩)
        else net.outlets p).Pairwise fun p q => p.before q = true := by
      split
      · exact (h.ordered p).filter _
      · exact h.ordered p
    simp only []
    split
    · exact Port.pairwise_insert kept
    · exact kept

/-- A new edge closes a cycle only if its producer lies behind its consumer. -/
theorem Acyclic.of_edge {net net' : Net} {p : NodeId} (h : net.Acyclic)
    (hn : ¬ReflTransGen net.Feeds n p)
    (hf : ∀ a b, net'.Feeds a b → net.Feeds a b ∨ a = p ∧ b = n) : net'.Acyclic := by
  have walks {a b : NodeId} (walk : TransGen net'.Feeds a b) :
      TransGen net.Feeds a b ∨
        ReflTransGen net.Feeds a p ∧ ReflTransGen net.Feeds n b := by
    induction walk with
    | single hab =>
      rcases hf _ _ hab with hab | ⟨rfl, rfl⟩
      · exact .inl (.single hab)
      · exact .inr ⟨.refl, .refl⟩
    | tail _ hbc ih =>
      rcases hf _ _ hbc with hbc | ⟨rfl, rfl⟩ <;> rcases ih with walk | ⟨up, down⟩
      · exact .inl (walk.tail hbc)
      · exact .inr ⟨up, down.tail hbc⟩
      · exact .inr ⟨walk.to_reflTransGen, .refl⟩
      · exact absurd down hn
  intro a ha
  rcases walks ha with walk | ⟨up, down⟩
  · exact h a walk
  · exact hn (down.trans up)

theorem Acyclic.mono {net net' : Net} (h : net.Acyclic)
    (hf : ∀ a b, net'.Feeds a b → net.Feeds a b) : net'.Acyclic :=
  fun a ha => h a (TransGen.mono hf a a ha)

end Net
end Patchbay
