import Patchbay.Generator
import Patchbay.Graph.Editing
import Patchbay.Proofs.Graph.Reloadable

/-! # Refused edits change nothing

An operation in place checks before it writes, so it fails on the graph it found, and what it looks
up between its writes is there. It ends where the same operation on a graph that is a value ends.
-/

namespace Patchbay
open Relation

section
variable [Platform]

namespace Net
variable {net net' : Net} {n m p : NodeId} {slot : Nat} {f : Node → Node}

/-! ### Nets that differ in one node -/

/-- Two nets of the same nodes, one of which may be another node. -/
structure SameBut (n : NodeId) (net net' : Net) : Prop where
  size : net'.nodes.size = net.nodes.size
  count : net'.count = net.count
  node : ∀ m, m ≠ n → net'.node? m = net.node? m

namespace SameBut

theorem refl (n : NodeId) (net : Net) : net.SameBut n net := ⟨rfl, rfl, fun _ _ => rfl⟩

variable (h : net.SameBut n net')
include h

theorem modify (p : NodeId) (f : Node → Node) : (net.modify p f).SameBut n (net'.modify p f) where
  size := by rw [size_modify, size_modify, h.size]
  count := h.count
  node m hm := by rw [node?_modify, node?_modify, h.node m hm]

theorem modify_right (f : Node → Node) : net.SameBut n (net'.modify n f) where
  size := by rw [size_modify, h.size]
  count := h.count
  node m hm := by rw [node?_modify, if_neg (Ne.symm hm), h.node m hm]

theorem vacate : net'.vacate n = net.vacate n := by
  refine eq_of_node? ?_ (congrArg (· - 1) h.count) fun m => ?_
  · rw [Net.vacate, Net.vacate, Array.size_setIfInBounds, Array.size_setIfInBounds, h.size]
  · rw [Net.vacate, node?_vacate, Net.vacate, node?_vacate]
    split
    · rfl
    · rename_i hm
      exact h.node m hm

end SameBut

/-- Telling the producer of a slot that the slot is gone detaches the slot, as far as the other
nodes see it. -/
theorem SameBut.unlink (h : net.SameBut n net') :
    (((net'.source? n slot).elim net fun p => net.unlink p ⟨n, slot⟩)).SameBut n
      (net'.setSource n slot none) := by
  rw [Net.setSource]
  cases net'.source? n slot with
  | none => exact h.modify_right _
  | some p => exact (h.modify_right _).modify p _

theorem SameBut.feed {q : Port} (h : net.SameBut n net')
    (hs : ∀ p, net'.source? q.node q.slot = some p → p = n) :
    (net.feed q.node q.slot none).SameBut n (net'.setSource q.node q.slot none) := by
  rw [Net.setSource]
  cases hp : net'.source? q.node q.slot with
  | none => exact h.modify q.node _
  | some p =>
    obtain rfl := hs p hp
    exact (h.modify q.node _).modify_right _

theorem SameBut.foldl_unlink (h : net.SameBut n net') (inlets : List (Inlet × Nat))
    (distinct : (inlets.map (·.2)).Nodup)
    (sources : ∀ x ∈ inlets, net'.source? n x.2 = x.1.source) :
    (inlets.foldl (fun net x => x.1.source.elim net fun p => net.unlink p ⟨n, x.2⟩) net).SameBut n
      (net'.sever (inlets.map fun x => ⟨n, x.2⟩)) := by
  induction inlets generalizing net net' with
  | nil => exact h
  | cons x inlets ih =>
    rw [List.forall_mem_cons] at sources
    rw [List.map_cons, List.nodup_cons] at distinct
    rw [List.foldl_cons, List.map_cons, sever, List.foldl_cons, ← sever]
    refine ih ?_ distinct.2 fun y hy => ?_
    · rw [← sources.1]
      exact h.unlink
    · refine (source?_setSource net' n x.2 none ⟨n, y.2⟩).trans ?_
      rw [if_neg, sources.2 y hy]
      intro he
      exact distinct.1 ((Port.mk.inj he).2 ▸ List.mem_map_of_mem hy)

theorem SameBut.foldl_feed (h : net.SameBut n net') (ports : List Port)
    (sources : ∀ q ∈ ports, ∀ p, net'.source? q.node q.slot = some p → p = n) :
    (ports.foldl (fun net q => net.feed q.node q.slot none) net).SameBut n (net'.sever ports) := by
  induction ports generalizing net net' with
  | nil => exact h
  | cons q ports ih =>
    rw [List.forall_mem_cons] at sources
    refine ih (h.feed sources.1) fun r hr p hp => sources.2 r hr p ?_
    have after := source?_setSource net' q.node q.slot none r
    rw [hp] at after
    split at after
    · obtain ⟨_, _, he⟩ := Option.bind_eq_some_iff.1 after.symm
      cases he
    · exact after.symm

theorem sever_append (net : Net) (ports ports' : List Port) :
    net.sever (ports ++ ports') = (net.sever ports).sever ports' := List.foldl_append

/-- Telling first the producers of a node, then its readers, takes it out with all its edges. -/
theorem vacate_eq_erase (hl : net.Linked) {node : Node} (hn : net.node? n = some node) :
    (node.outlets.foldl (fun net q => net.feed q.node q.slot none)
      (node.inlets.zipIdx.foldl
        (fun net x => x.1.source.elim net fun p => net.unlink p ⟨n, x.2⟩) net)).vacate n =
      net.erase n := by
  have slots : (node.inlets.zipIdx.map fun x => x.2) = List.range node.inlets.length := by
    rw [List.zipIdx_map_snd, List.range_eq_range']
  have ports : net.portsOf n = (node.inlets.zipIdx.map fun x => ⟨n, x.2⟩) ++ node.outlets := by
    rw [portsOf, hn, outlets, hn, Option.elim_some, Option.elim_some, ← slots, List.map_map]
    rfl
  have own := (SameBut.refl n net).foldl_unlink node.inlets.zipIdx
    (by rw [slots]; exact List.nodup_range) fun x hx =>
      source?_of_inlet hn (List.mem_zipIdx_iff_getElem?.1 hx)
  have all := own.foldl_feed node.outlets fun q hq p hp => by
    rw [source?_sever] at hp
    split at hp
    · cases hp
    · have reads := (hl.outlets n q).1 (by rw [outlets, hn]; exact hq)
      exact Option.some.inj (hp.symm.trans reads)
  rw [← all.vacate, ← sever_append, ← ports]
  rfl

theorem modify_eq_self (h : ∀ node, net.node? n = some node → f node = node) :
    net.modify n f = net := by
  refine eq_of_node? (size_modify net n f) rfl fun m => ?_
  rw [node?_modify]
  split
  · rename_i he
    subst he
    cases hnode : net.node? n with
    | none => rfl
    | some node => rw [Option.map_some, h node hnode]
  · rfl

theorem feed_none (h : net.source? n slot = none) : net.feed n slot none = net := by
  refine modify_eq_self fun node hn => ?_
  have inlets : (node.inlets.modify slot fun inlet => { inlet with source := none }) =
      node.inlets := by
    refine List.ext_getElem (List.length_modify _ _ _) fun i _ hi => ?_
    rw [List.getElem_modify]
    split
    · rename_i he
      subst he
      rw [source?_of_inlet hn (List.getElem?_eq_getElem hi)] at h
      cases hinlet : node.inlets[slot] with
      | mk source default =>
        rw [hinlet] at h
        cases h
        rfl
    · rfl
  rw [inlets]
  cases node
  rfl

end Net

/-! ### Steps on a desk -/

namespace Desk
variable {ε α : Type}

def withNet (desk : Desk) (net : Net) : Desk := { desk with graph := desk.graph.withNet net }

/-- What becomes of a desk when an edit of its graph comes to a result. -/
def settle (desk : Desk) : Except ε (Edited × α) → EStateM.Result ε Desk α
  | .ok (edited, a) => .ok a ⟨edited.graph, desk.heard ++ edited.event.toList⟩
  | .error cause => .error cause desk

theorem settle_quiet (desk : Desk) (g : Graph) (a : α) :
    desk.settle (.ok (⟨g, none⟩, a) : Except ε _) = .ok a { desk with graph := g } := by
  rw [settle, Option.toList_none, List.append_nil]

end Desk

namespace Editing
variable {ε α β : Type} {desk desk' : Desk} {n p : NodeId} {slot : Nat}

theorem bind_ok {x : Editing ε α} {a : α} (h : x desk = .ok a desk') (f : α → Editing ε β) :
    (x >>= f) desk = f a desk' := by
  change EStateM.bind x f desk = _
  rw [EStateM.bind, h]

theorem bind_error {x : Editing ε α} {e : ε} (h : x desk = .error e desk') (f : α → Editing ε β) :
    (x >>= f) desk = .error e desk' := by
  change EStateM.bind x f desk = _
  rw [EStateM.bind, h]

theorem get_bind (f : Desk → Editing ε α) : ((get : Editing ε Desk) >>= f) desk = f desk desk := rfl

theorem find_run (n : NodeId) (desk : Desk) : find n desk =
    (desk.graph.net.node? n).elim (.error (.nodeNotFound n) desk) (.ok · desk) := by
  rw [find, get_bind]
  cases desk.graph.net.node? n <;> rfl

theorem find_ok {node : Node} (h : desk.graph.net.node? n = some node) :
    find n desk = .ok node desk := by
  rw [find_run, h, Option.elim_some]

theorem discard_ok {x : Editing ε α} {a : α} (h : x desk = .ok a desk') :
    (discard x : Editing ε PUnit) desk = .ok () desk' := by
  change EStateM.map _ x desk = _
  rw [EStateM.map, h]

theorem discard_error {x : Editing ε α} {e : ε} (h : x desk = .error e desk') :
    (discard x : Editing ε PUnit) desk = .error e desk' := by
  change EStateM.map _ x desk = _
  rw [EStateM.map, h]

theorem inlet_run (n : NodeId) (slot : Nat) (desk : Desk) : inlet n slot desk =
    (desk.graph.net.node? n).elim (.error (.nodeNotFound n) desk) fun node =>
      node.inlets[slot]?.elim (.error (.slotOutOfRange n slot node.inlets.length) desk)
        (.ok · desk) := by
  have found := find_run n desk
  cases hn : desk.graph.net.node? n with
  | none =>
    rw [hn] at found
    exact bind_error found _
  | some node =>
    rw [hn] at found
    refine (bind_ok found _).trans ?_
    dsimp only [Option.elim_some]
    cases node.inlets[slot]? <;> rfl

theorem write_run (f : Net → Net) (desk : Desk) :
    (write f : Editing ε Unit) desk = .ok () (desk.withNet (f desk.graph.net)) := rfl

theorem forM_run {f : α → Editing ε Unit} {g : Net → α → Net}
    (h : ∀ a desk, f a desk = .ok () (desk.withNet (g desk.graph.net a))) (l : List α)
    (desk : Desk) : l.forM f desk = .ok () (desk.withNet (l.foldl g desk.graph.net)) := by
  induction l generalizing desk with
  | nil => rfl
  | cons a l ih => exact (bind_ok (h a desk) _).trans (ih _)

theorem forM_write (f : α → Net → Net) (x : Option α) (desk : Desk) :
    (x.forM fun a => write (f a) : Editing ε Unit) desk =
      .ok () (desk.withNet (x.elim desk.graph.net fun a => f a desk.graph.net)) := by
  cases x <;> rfl

/-- The last steps of an edit give the graph and the event of the same edit of a value. -/
theorem finish_withNet (net : Net) (event : Event) (desk : Desk) :
    (finish event : Editing ε Unit) (desk.withNet net) =
      desk.settle (.ok (desk.graph.edited net event, ())) := by
  obtain ⟨⟨id, net', compiled, watched⟩, heard⟩ := desk
  cases watched with
  | true => rfl
  | false =>
    change EStateM.Result.ok () (Desk.mk _ heard) = .ok () (Desk.mk _ (heard ++ []))
    rw [List.append_nil]
    rfl

/-! ### The operations -/

theorem add_run (op : Operator) (desk : Desk) :
    add op desk = desk.settle ((desk.graph.add op).map (·, desk.graph.nextNode)) := by
  rw [add, get_bind, Graph.add]
  split
  · rfl
  · refine (bind_ok (write_run _ desk) _).trans ?_
    exact bind_ok (finish_withNet _ _ desk) _

theorem remove_run (hl : desk.graph.net.Linked) (n : NodeId) :
    remove n desk = desk.settle ((desk.graph.remove n).map (·, ())) := by
  have found := find_run n desk
  rw [Graph.remove, Net.contains]
  cases hn : desk.graph.net.node? n with
  | none =>
    rw [hn] at found
    exact bind_error found _
  | some node =>
    rw [hn] at found
    refine (bind_ok found _).trans ?_
    refine (bind_ok (forM_run
      (g := fun net x => x.1.source.elim net fun p => net.unlink p ⟨n, x.2⟩)
      (fun x => forM_write (fun p net => net.unlink p ⟨n, x.2⟩) x.1.source)
      _ desk) _).trans ?_
    refine (bind_ok (forM_run (g := fun net q => net.feed q.node q.slot none)
      (fun q => write_run fun net => net.feed q.node q.slot none) _ _) _).trans ?_
    refine (bind_ok (write_run _ _) _).trans ?_
    rw [← Net.vacate_eq_erase hl hn]
    exact finish_withNet _ _ desk

/-- The producer that is looked up after the slot is written is there. -/
theorem attach_run (hw : desk.graph.net.WellFormed) (n : NodeId) (slot : Nat) (p : NodeId) :
    attach n slot p desk = desk.settle ((desk.graph.attach n slot p).map (·, ())) := by
  rw [attach, get_bind, Graph.attach]
  cases hc : desk.graph.net.checkEdge n slot p with
  | error cause => rfl
  | ok _ =>
    obtain ⟨⟨inlet, live, _⟩, _⟩ := Graph.checkEdge_eq_ok hw hc
    obtain ⟨previous, hi⟩ := Option.isSome_iff_exists.1 inlet
    obtain ⟨node, hn, hi⟩ := Option.bind_eq_some_iff.1 hi
    have looked := inlet_run n slot desk
    rw [hn, Option.elim_some, hi] at looked
    have source := Net.source?_of_inlet hn hi
    refine (bind_ok looked _).trans ?_
    refine (bind_ok (write_run _ desk) _).trans ?_
    refine (bind_ok (forM_write _ previous.source _) _).trans ?_
    have there : Net.contains (previous.source.elim (desk.graph.net.feed n slot (some p)) fun old =>
        (desk.graph.net.feed n slot (some p)).unlink old ⟨n, slot⟩) p = true := by
      cases previous.source <;>
        simp only [Option.elim_none, Option.elim_some, Net.feed, Net.unlink, Net.contains_modify,
          live]
    obtain ⟨producer, hp⟩ := Option.isSome_iff_exists.1 there
    refine (bind_ok (discard_ok (find_ok hp)) _).trans ?_
    refine (bind_ok (write_run _ _) _).trans ?_
    rw [Net.setSource, source]
    exact finish_withNet _ _ desk

theorem detach_run (n : NodeId) (slot : Nat) (desk : Desk) :
    detach n slot desk = desk.settle ((desk.graph.detach n slot).map (·, ())) := by
  have looked := inlet_run n slot desk
  rw [Graph.detach]
  cases hn : desk.graph.net.node? n with
  | none =>
    rw [hn] at looked
    exact bind_error looked _
  | some node =>
    rw [hn, Option.elim_some] at looked
    dsimp only
    cases hi : node.inlets[slot]? with
    | none =>
      rw [hi] at looked
      exact bind_error looked _
    | some previous =>
      rw [hi] at looked
      have source := Net.source?_of_inlet hn hi
      refine (bind_ok looked _).trans ?_
      refine (bind_ok (write_run _ desk) _).trans ?_
      dsimp only
      cases hs : previous.source with
      | none =>
        rw [hs] at source
        rw [Net.feed_none source]
        exact (desk.settle_quiet desk.graph ()).symm
      | some old =>
        rw [hs] at source
        rw [Net.setSource, source]
        refine (bind_ok (write_run _ _) _).trans ?_
        exact finish_withNet _ _ desk

theorem adjust_run (n : NodeId) (f : Node → Node) (desk : Desk) :
    adjust n f desk = desk.settle ((desk.graph.adjust n f).map (⟨·, none⟩, ())) := by
  have found := find_run n desk
  rw [Graph.adjust, Net.contains]
  cases hn : desk.graph.net.node? n with
  | none =>
    rw [hn] at found
    exact bind_error (discard_error found) _
  | some node =>
    rw [hn] at found
    refine (bind_ok (discard_ok found) _).trans ?_
    exact (desk.settle_quiet _ ()).symm

theorem setDefault_run (n : NodeId) (slot : Nat) (value : Cell) (desk : Desk) :
    setDefault n slot value desk =
      desk.settle ((desk.graph.setDefault n slot value).map (⟨·, none⟩, ())) := by
  have looked := inlet_run n slot desk
  rw [Graph.setDefault]
  cases hn : desk.graph.net.node? n with
  | none =>
    rw [hn] at looked
    exact bind_error (discard_error looked) _
  | some node =>
    rw [hn, Option.elim_some] at looked
    have live : desk.graph.net.contains n = true := Option.isSome_of_eq_some hn
    dsimp only
    rw [Graph.adjust, if_pos live]
    cases hi : node.inlets[slot]? with
    | none =>
      rw [hi] at looked
      rw [if_neg (Nat.not_lt.2 (List.getElem?_eq_none_iff.1 hi))]
      exact bind_error (discard_error looked) _
    | some previous =>
      rw [hi] at looked
      rw [if_pos (List.getElem?_eq_some_iff.1 hi).choose]
      refine (bind_ok (discard_ok looked) _).trans ?_
      exact (desk.settle_quiet _ ()).symm

theorem compile_run (context : ContextId) (output : NodeId) (externals : Legs) (desk : Desk) :
    compile context output externals desk = desk.settle
      ((desk.graph.compile context output externals).map fun c => (⟨c.1, none⟩, c.2)) := by
  rw [compile, get_bind, Graph.compile]
  cases hp : desk.graph.net.compile output externals with
  | error cause => rfl
  | ok plan =>
    let started : Desk := { desk with graph := { desk.graph with compiled := some context } }
    refine (bind_ok (forM_write (fun old net => net.forget old) desk.graph.compiled started)
      _).trans ?_
    refine (bind_ok (forM_run
      (g := fun net p => net.modify p.source fun node =>
        { node with lengths := (context, p.region.length) :: node.lengths })
      (fun p => write_run fun net => net.modify p.source fun node =>
        { node with lengths := (context, p.region.length) :: node.lengths }) plan.nodes _)
      _).trans ?_
    refine Eq.trans ?_ (desk.settle_quiet _ _).symm
    dsimp only
    rw [Net.remember, List.foldl_map]
    rfl

end Editing

/-! ### Calls -/

namespace Call
variable {placed : Operator → Prop} {desk : Desk}

/-- An operation that comes to a result on the desk answers for it. -/
theorem answer_run {ε α : Type} {act : Editing ε α} {result : Except ε (Edited × α)}
    (h : act desk = desk.settle result) (refuse : ε → Refusal) (answer : α → Answer) :
    (act.adaptExcept refuse >>= fun a => return answer a : Editing Refusal Answer) desk =
      desk.settle ((result.mapError refuse).map fun r => (r.1, answer r.2)) := by
  change EStateM.bind (act.adaptExcept refuse) _ desk = _
  rw [EStateM.bind, EStateM.adaptExcept, h]
  cases result <;> rfl

theorem done_run {act : Editing GraphError Unit} {result : Except GraphError Edited}
    (h : act desk = desk.settle (result.map (·, ()))) :
    perform.done act desk = desk.settle (answer.edit result .done) := by
  refine (answer_run h _ _).trans ?_
  cases result <;> rfl

theorem property_run {act : Editing GraphError Unit} {result : Except GraphError Graph}
    (h : act desk = desk.settle (result.map (⟨·, none⟩, ()))) :
    perform.done act desk = desk.settle (answer.property result) := by
  refine done_run (h.trans ?_)
  cases result <;> rfl

/-- A call ends where the same operation on a value ends. When it is refused, nothing was written:
the graph is as it was, with its nodes, edges, defaults, properties, kinds, lengths and last
compile, and the watcher has heard nothing. -/
theorem perform_eq_settle (hg : desk.graph.Reachable placed) (call : Call) :
    call.perform desk = desk.settle (call.answer desk.graph) ∧
      ∀ cause desk', call.perform desk = .error cause desk' → desk' = desk := by
  have settled : call.perform desk = desk.settle (call.answer desk.graph) := by
    cases call with
    | add op =>
      refine (answer_run (Editing.add_run op desk) _ _).trans ?_
      rw [answer]
      cases desk.graph.add op <;> rfl
    | remove n => exact done_run (Editing.remove_run hg.wellFormed.linked n)
    | attach n slot producer => exact done_run (Editing.attach_run hg.wellFormed n slot producer)
    | detach n slot => exact done_run (Editing.detach_run n slot desk)
    | setDefault n slot value => exact property_run (Editing.setDefault_run n slot value desk)
    | setNumber | setText | setConfig | setPlacement =>
      exact property_run (Editing.adjust_run _ _ desk)
    | compile context output externals =>
      refine (answer_run (Editing.compile_run context output externals desk) _ _).trans ?_
      rw [answer]
      cases desk.graph.compile context output externals <;> rfl
  refine ⟨settled, fun cause desk' h => ?_⟩
  rw [settled] at h
  cases result : call.answer desk.graph with
  | error _ =>
    rw [result] at h
    cases h
    rfl
  | ok _ =>
    rw [result] at h
    cases h

end Call

end

namespace Call

/-- A list of two literals is compiled, found too long for the start of a range, and all is as it
was. -/
theorem perform_eq_settle_mismatch : ∃ (g : Graph) (desk : Desk),
    ((Graph.assembled [13, 43] []).bind fun g => (g.setText 0 "values" "1,2").toOption) = some g ∧
      desk = ⟨{ g with watched := true }, []⟩ ∧
      (Call.attach 1 0 0).perform desk = .error (.edit (.lengthMismatch 1 0 0 1 2)) desk := by
  have computed : (((Graph.assembled [13, 43] []).bind fun g =>
      (g.setText 0 "values" "1,2").toOption).filter fun g =>
        failure? (Graph.attach { g with watched := true } 1 0 0) ==
          some (.lengthMismatch 1 0 0 1 2)).isSome = true := by cbv
  obtain ⟨g, hr⟩ := Option.isSome_iff_exists.1 computed
  obtain ⟨hg, refused⟩ := Option.filter_eq_some_iff.1 hr
  have refusal := failure?_eq_some.1 (eq_of_beq refused)
  obtain ⟨whole, hw, hs⟩ := Option.bind_eq_some_iff.1 hg
  rw [toOption_eq_some] at hs
  have reachable := ((Graph.reachable_assembled hw).step (.setText hs)).step (.watch true)
  have main : (Call.attach 1 0 0).perform ⟨{ g with watched := true }, []⟩ = _ :=
    (perform_eq_settle reachable (.attach 1 0 0)).1
  rw [answer, refusal] at main
  exact ⟨g, _, hg, rfl, main⟩

end Call
end Patchbay
