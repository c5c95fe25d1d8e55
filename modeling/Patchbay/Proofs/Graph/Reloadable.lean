import Patchbay.Generator
import Patchbay.Proofs.Graph.Checks
import Patchbay.Proofs.Graph.Records
import Patchbay.Proofs.Graph.Reloading

/-! # Saved graphs that can be loaded again

A load checks the saved net as a whole, where each edge was checked by itself when it was made. That
the values come in time holds at all times, so it holds of what is saved. The length of a producer
may have changed since, and whether it still fits decides whether the graph is loaded.
-/

namespace Patchbay
open Relation

section
variable [Platform]

/-- What a slot reads while it is open, once this was written as a literal and read again. -/
def Inlet.rounded (slot : Slot) (inlet : Inlet) : Inlet :=
  { inlet with default := .ofLiteral (inlet.default.literal slot.kind) slot.kind }

def Node.rounded (node : Node) : Node :=
  { node with inlets := node.operator.slots.zipWith Inlet.rounded node.inlets }

namespace Net

/-- The net with everything that open slots read written as literals and read again. -/
def rounded (net : Net) : Net :=
  { net with nodes := net.nodes.mapIdx fun _ node => node.map Node.rounded }

variable {net net' bare : Net} {catalog : Catalog} {n p : NodeId} {node : Node}
  {φ : NodeId → NodeId}

/-! ### Literals -/

theorem node?_rounded (net : Net) (n : NodeId) :
    net.rounded.node? n = (net.node? n).map Node.rounded := node?_mapIdx (fun _ => Node.rounded) n

theorem sameWiring_rounded (hw : net.Wired) : net.SameWiring net.rounded := by
  refine ⟨Array.size_mapIdx, rfl, fun n => ?_⟩
  rw [wiring?, node?_rounded, Option.map_map, wiring?]
  cases hn : net.node? n with
  | none => rfl
  | some node =>
    have arity := hw.arity n node hn
    rw [Operator.arity] at arity
    have sources : node.rounded.inlets.map (·.source) = node.inlets.map (·.source) := by
      rw [Node.rounded]
      apply List.ext_getElem
      · simp [arity]
      · intro slot _ _
        simp [Inlet.rounded]
    rw [Option.map_some, Option.map_some, Function.comp_apply, sources]
    rfl

theorem settings?_rounded (net : Net) (n : NodeId) :
    net.rounded.settings? n = net.settings? n := by
  rw [settings?, node?_rounded, Option.map_map, settings?]
  rfl

theorem Resolved.rounded (h : net.Resolved) (hw : net.Wired) : net.rounded.Resolved := by
  refine h.of_sameWiring (sameWiring_rounded hw) hw.linked (kind?_eq_of_view fun n => ?_)
  rw [node?_rounded, Option.map_map]
  rfl

/-! ### Records that are read -/

theorem exists_of_getElem?_document {r : Record} {index : Nat}
    (h : net.document[index]? = some r) :
    ∃ n node, net.node? n = some node ∧ net.ids.idxOf n = index ∧ r = net.record node := by
  rw [document, List.getElem?_map] at h
  obtain ⟨⟨n, node⟩, hn, rfl⟩ := Option.map_eq_some_iff.1 h
  refine ⟨n, node, mem_live.1 (List.mem_of_getElem? hn), ?_, rfl⟩
  have listed : net.ids[index]? = some n := by rw [ids, List.getElem?_map, hn, Option.map_some]
  obtain ⟨bound, rfl⟩ := List.getElem?_eq_some_iff.1 listed
  exact net.nodup_ids.idxOf_getElem index bound

/-- The record of a node is read as a node whose open slots read the literals. -/
theorem bare_record (hw : net.Wired) (hn : net.node? n = some node) :
    ((net.record node).bare node.operator).inlets.map (·.default) =
      node.rounded.inlets.map (·.default) := by
  have arity := hw.arity n node hn
  rw [Operator.arity] at arity
  apply List.ext_getElem
  · simp [Record.bare, Node.rounded, arity]
  · intro slot hs _
    have bound : slot < node.operator.slots.length := by simpa [Record.bare] using hs
    simp [Record.bare, Node.rounded, Inlet.rounded, record, Node.sockets, bound, arity ▸ bound]

/-- A record names nodes of the document, and not its own where the node does not feed itself. -/
theorem inRange_record (hl : net.Linked) (hn : net.node? n = some node) (loop : ¬net.Feeds n n) :
    ∀ i ∈ (net.record node).inputs,
      Record.InRange net.document.length (net.ids.idxOf n) i := by
  intro i hi
  obtain ⟨inlet, hinlet, rfl⟩ := List.mem_map.1 hi
  cases hs : inlet.source with
  | none => exact .inl (by decide : (-1 : Int) < 0)
  | some p =>
    have feeds : net.Feeds p n := by
      rw [← mem_sources, sources, hn]
      exact List.mem_filterMap.2 ⟨inlet, hinlet, hs⟩
    have live := hl.noDangling p n feeds
    rw [Option.bind_some, position?_eq live, Option.elim_some, length_document]
    refine .inr ⟨Int.ofNat_lt.2 (List.idxOf_lt_length_iff.2 (mem_ids.2 live)), fun he => loop ?_⟩
    rwa [(List.idxOf_inj (mem_ids.2 live)).1 (Int.ofNat_inj.1 he)] at feeds

section Held
variable (hw : net.Wired)
  (held : ∀ n op, net.operator? n = some op → catalog.find? op.id = some op)
include hw held

theorem exists_ofRecords (loop : ∀ n, ¬net.Feeds n n) :
    ∃ bare, ofRecords net.document catalog = .ok bare := by
  refine exists_ofRecords_iff.2 fun index r hr => ?_
  obtain ⟨n, node, hn, rfl, rfl⟩ := exists_of_getElem?_document hr
  have arity := hw.arity n node hn
  refine ⟨node.operator, held n node.operator (operator?_of_node? hn), ?_, ?_,
    inRange_record hw.linked hn (loop n)⟩
  · rw [record, List.length_map, arity]
  · rw [record, List.length_map, Node.sockets, List.length_zip, arity, Operator.arity, min_self]

theorem defaults_ofRecords (h : ofRecords net.document catalog = .ok bare)
    (hn : net.node? n = some node) :
    (bare.node? (net.ids.idxOf n)).map (·.inlets.map (·.default)) =
      some (node.rounded.inlets.map (·.default)) := by
  obtain ⟨op, known, same⟩ := view_ofRecords (·.inlets.map (·.default)) defaults_feed
    (fun _ _ => rfl) h (getElem?_document hn)
  cases (held n node.operator (operator?_of_node? hn)).symm.trans known
  rw [same, bare_record hw hn]

/-- The net of the records is the net with its literals, under other handles. -/
theorem isomorphic_ofRecords (h : ofRecords net.document catalog = .ok bare) :
    net.rounded.resolve.Isomorphic net.ids.idxOf bare.resolve ∧
      net.rounded.resolve.SameDefaults net.ids.idxOf bare.resolve := by
  have same := (sameWiring_rounded hw).trans (sameWiring_resolve net.rounded)
  have there := sameWiring_resolve bare
  have wired := (wired_ofRecords h).1
  have live (n : NodeId) (hn : net.rounded.resolve.contains n = true) :
      ∃ node, net.node? n = some node := by
    rw [same.contains] at hn
    exact Option.isSome_iff_exists.1 hn
  constructor
  · refine ((same.symm.renamed.trans (renamed_ofRecords hw held h)).trans there.renamed).isomorphic
      (hw.of_sameWiring same).linked
      (resolved_resolve (hw.of_sameWiring (sameWiring_rounded hw)).linked)
      (resolved_resolve wired.linked) fun n hn => ?_
    obtain ⟨node, hn⟩ := live n hn
    obtain ⟨_, nodes⟩ := ofRecords_document hw.linked.noDangling held h
    rw [settings?_resolve, settings?_resolve, settings?_rounded]
    refine (nodes n node hn).1.trans ?_
    rw [settings?, hn]
    rfl
  · intro n loaded loaded' hn hn'
    obtain ⟨node, hnode⟩ := live n (Option.isSome_of_eq_some hn)
    have defaults := defaults_ofRecords hw held h hnode
    have kept (net : Net) (m : NodeId) :
        (net.resolve.node? m).map (·.inlets.map (·.default)) =
          (net.node? m).map (·.inlets.map (·.default)) := by
      rw [resolve, withKinds, node?_mapIdx, Option.map_map]
      rfl
    rw [← kept, hn'] at defaults
    have here := kept net.rounded n
    rw [hn, node?_rounded, hnode] at here
    exact (Option.some.inj defaults).trans (Option.some.inj here).symm

end Held

/-! ### Lengths under other handles -/

theorem mem_nodes_of_compile (hw : net.WellFormed) {output : NodeId} {externals : Legs}
    {plan : Plan} (h : net.compile output externals = .ok plan) {m : PlanNode}
    (hm : m ∈ plan.nodes) :
    net.contains m.source = true := by
  obtain ⟨trials, ht, rfl⟩ := (compile_eq_ok hw).1 h
  obtain ⟨t, mem, rfl⟩ := List.mem_map.1 hm
  exact Option.isSome_of_eq_some (ht.entry_of_mem mem).1

section Isomorphic
variable (h : net.Isomorphic φ net') (defaults : net.SameDefaults φ net') (hw : net.WellFormed)
  (hw' : net'.WellFormed)
include h defaults hw hw'

theorem Isomorphic.probe_eq_ok (hp : net.contains p = true) {length : Nat} :
    net'.probe (φ p) = .ok length ↔ net.probe p = .ok length := by
  have compiled := h.compile defaults hw hw' hp []
  rw [probe, probe]
  generalize hx : net.compile p [] = x, net'.compile (φ p) [] = x' at compiled ⊢
  cases compiled with
  | error cause => exact iff_of_false (fun he => by cases he) fun he => by cases he
  | @ok plan plan' he =>
    obtain ⟨trials, ht, hplan⟩ := (compile_eq_ok hw).1 hx
    have output : plan.output = p := by rw [hplan]; rfl
    have region : plan'.outputRegion = plan.outputRegion := by
      rw [he, Plan.outputRegion, Plan.region?, show (plan.rename φ net).output = φ plan.output from
        rfl, Plan.node?_rename, Option.map_map, Plan.outputRegion, Plan.region?]
      · rfl
      · intro m hm
        rw [output]
        exact h.injective (mem_nodes_of_compile hw hx hm) hp
    dsimp only
    rw [region]

/-- Slots of fixed length fit under other handles where they fit under these. -/
theorem Isomorphic.measured_iff : net'.Measured ↔ net.Measured := by
  refine h.forall_source?_iff hw.linked.noDangling fun c slot p hc hp => ?_
  rw [LengthFits, h.slot?_rename hc, LengthFits]
  simp only [h.probe_eq_ok defaults hw hw' hp]

end Isomorphic

/-- A saved net is loaded exactly when it has no cycle, its values come in time, and with the
defaults that were written its lengths fit. -/
theorem exists_ofDocument_iff (hw : net.Wired)
    (held : ∀ n op, net.operator? n = some op → catalog.find? op.id = some op) :
    (∃ net', Net.ofDocument net.document catalog = .ok net') ↔
      net.Acyclic ∧ net.Timely ∧ net.rounded.resolve.Measured := by
  have transfer {bare : Net} (hr : ofRecords net.document catalog = .ok bare) :
      bare.Acyclic ∧ bare.Timely ∧ bare.resolve.Measured ↔
        net.Acyclic ∧ net.Timely ∧ net.rounded.resolve.Measured := by
    have wired := (wired_ofRecords hr).1
    have renamed := renamed_ofRecords hw held hr
    obtain ⟨isomorphic, defaults⟩ := isomorphic_ofRecords hw held hr
    have same := (sameWiring_rounded hw).trans (sameWiring_resolve net.rounded)
    rw [renamed.acyclic_iff hw.linked.noDangling]
    refine and_congr_right fun acyclic => ?_
    have acyclic' := (renamed.acyclic_iff hw.linked.noDangling).2 acyclic
    have wellFormed : net.WellFormed := ⟨hw, acyclic⟩
    have wellFormed' : bare.WellFormed := ⟨wired, acyclic'⟩
    rw [renamed.timely_iff wellFormed wellFormed',
      isomorphic.measured_iff defaults (wellFormed.of_sameWiring same)
        (wellFormed'.of_sameWiring (sameWiring_resolve bare))]
  simp only [ofDocument_eq_ok_iff]
  constructor
  · rintro ⟨net', bare, hr, acyclic, timely, measured, rfl⟩
    exact (transfer hr).1 ⟨acyclic, timely, measured⟩
  · intro checked
    obtain ⟨bare, hr⟩ := exists_ofRecords hw held fun n loop => checked.1 n (.single loop)
    obtain ⟨acyclic, timely, measured⟩ := (transfer hr).2 checked
    exact ⟨bare.resolve, bare, hr, acyclic, timely, measured, rfl⟩

end Net

namespace Graph
variable {placed : Operator → Prop} {g : Graph} {catalog : Catalog}

theorem loads_iff {document : Document} {id : GraphId} :
    (∃ g, ofDocument id document catalog = .ok g) ↔
      ∃ net, Net.ofDocument document catalog = .ok net := by
  unfold ofDocument
  cases Net.ofDocument document catalog with
  | error cause => exact iff_of_false (fun ⟨_, h⟩ => nomatch h) fun ⟨_, h⟩ => nomatch h
  | ok net => exact iff_of_true ⟨_, rfl⟩ ⟨net, rfl⟩

/-- A graph with a history that is saved, with a catalog that holds its operators, can be loaded
again exactly when, with the defaults that were written, every slot of fixed length still has a
producer of that length. Nothing else stands in the way. -/
theorem reloads_iff_measured (hg : g.Reachable placed)
    (hp : ∀ op, placed op → op.isInput = true → op.slots = [] ∧ op.live = false)
    (held : ∀ n op, g.net.operator? n = some op → catalog.find? op.id = some op) (id : GraphId) :
    (∃ g', ofDocument id g.net.document catalog = .ok g') ↔ g.net.rounded.Measured := by
  have wellFormed := hg.wellFormed
  have timely := (hg.punctual hp).timely wellFormed
  rw [loads_iff, Net.exists_ofDocument_iff wellFormed.toWired held,
    (hg.resolved.rounded wellFormed.toWired).resolve, and_iff_right wellFormed.acyclic,
    and_iff_right timely]

end Graph

end

namespace Graph

def ranged : Option Graph := assembled [13, 43] [⟨0, 1, 0⟩]

/-- There is one literal, as many as the start of a range takes. -/
theorem reloads_ranged : ∃ g g' : Graph, ranged = some g ∧ g.net.rounded.Measured ∧
    ofDocument 1 g.net.document Builtin.catalog = .ok g' := by
  have computed : (ranged.bind fun g =>
      (g.net.rounded.edges.foldlM g.net.rounded.checkFixedLength []).toOption).isSome = true := by
    cbv
  obtain ⟨found, hr⟩ := Option.isSome_iff_exists.1 computed
  obtain ⟨g, hg, hm⟩ := Option.bind_eq_some_iff.1 hr
  have reachable := reachable_assembled hg
  have measured : g.net.rounded.Measured := Net.measured_iff.2 ⟨found, toOption_eq_some.1 hm⟩
  obtain ⟨g', loaded⟩ := (reloads_iff_measured reachable
    (fun op hop => (Builtin.regular_of_mem (Builtin.mem_operators hop)).1.input)
    (fun n op ho => Builtin.find?_catalog (reachable.operator_placed ho)) 1).2 measured
  exact ⟨g, g', hg, measured, loaded⟩

/-- With a second literal the saved graph is refused. -/
theorem not_reloads_ranged : ∃ g g' : Graph, ranged = some g ∧
    g.setText 0 "values" "1,2" = .ok g' ∧ g'.Reachable (· ∈ Builtin.catalog.operators) ∧
    (∀ n op, g'.net.operator? n = some op → Builtin.catalog.find? op.id = some op) ∧
    ofDocument 1 g'.net.document Builtin.catalog = .error (.lengthMismatch 1 0 0 1 2) := by
  have computed : (ranged.bind fun g => (g.setText 0 "values" "1,2").toOption.filter fun g' =>
      failure? (ofDocument 1 g'.net.document Builtin.catalog) ==
        some (.lengthMismatch 1 0 0 1 2)).isSome = true := by cbv
  obtain ⟨g', hr⟩ := Option.isSome_iff_exists.1 computed
  obtain ⟨g, hg, hr⟩ := Option.bind_eq_some_iff.1 hr
  obtain ⟨hs, refused⟩ := Option.filter_eq_some_iff.1 hr
  rw [toOption_eq_some] at hs
  have reachable := (reachable_assembled hg).step (.setText hs)
  refine ⟨g, g', hg, hs, reachable, fun n op ho => ?_, failure?_eq_some.1 (eq_of_beq refused)⟩
  exact Builtin.find?_catalog (reachable.operator_placed ho)

end Graph
end Patchbay
