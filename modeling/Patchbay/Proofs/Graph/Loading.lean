import Patchbay.Graph.Document
import Patchbay.Proofs.ListSteps
import Patchbay.Proofs.Net.WellFormed

/-! # Loading a document

The records become nodes without edges, then the edges are made, then the net is checked as a whole.
What passes the checks is well formed, and all its operators come from the catalog.
-/

namespace Patchbay
open Relation

variable [Platform]

namespace Net
variable {net : Net} {document : Document} {catalog : Catalog}

/-- A view of the nodes that sees no edges does not change when edges are made. -/
theorem view_connect {α : Type*} {view : Node → α}
    (hi : ∀ (node : Node) (slot : Nat) (source : Option NodeId),
      view { node with inlets := node.inlets.modify slot fun inlet => { inlet with source } } =
        view node)
    (ho : ∀ (node : Node) (outlets : List Port), view { node with outlets } = view node)
    (net : Net) (edges : List Edge) (m : NodeId) :
    ((net.connect edges).node? m).map view = (net.node? m).map view := by
  induction edges generalizing net with
  | nil => rfl
  | cons e edges ih =>
    rw [connect, List.foldl_cons, ← connect, ih]
    exact view_setSource hi ho net e.consumer e.slot (some e.producer) m

theorem frame?_connect (net : Net) (edges : List Edge) (m : NodeId) :
    (net.connect edges).frame? m = net.frame? m := by
  refine view_connect ?_ ?_ net edges m
  · intro node slot source
    rw [List.length_modify]
  · intro node outlets
    rfl

theorem source?_connect_of_forall_ne {edges : List Edge} {q : Port}
    (h : ∀ e ∈ edges, q ≠ ⟨e.consumer, e.slot⟩) :
    (net.connect edges).source? q.node q.slot = net.source? q.node q.slot := by
  induction edges generalizing net with
  | nil => rfl
  | cons e edges ih =>
    rw [List.forall_mem_cons] at h
    rw [connect, List.foldl_cons, ← connect, ih h.2, source?_setSource, if_neg h.1]

theorem source?_connect_of_mem {edges : List Edge} {e : Edge} (he : e ∈ edges)
    (hi : (net.inlet? e.consumer e.slot).isSome)
    (only : ∀ e' ∈ edges, e'.consumer = e.consumer → e'.slot = e.slot → e' = e) :
    (net.connect edges).source? e.consumer e.slot = some e.producer := by
  induction edges generalizing net with
  | nil => cases he
  | cons a edges ih =>
    rw [List.forall_mem_cons] at only
    rw [connect, List.foldl_cons, ← connect]
    by_cases hm : e ∈ edges
    · refine ih hm ?_ only.2
      rw [inlet?_isSome_iff, frame?_setSource, ← inlet?_isSome_iff]
      exact hi
    · obtain rfl := (List.mem_cons.1 he).resolve_right hm
      obtain ⟨inlet, hi⟩ := Option.isSome_iff_exists.1 hi
      have last : ∀ e' ∈ edges, (⟨e.consumer, e.slot⟩ : Port) ≠ ⟨e'.consumer, e'.slot⟩ := by
        intro e' he' hq
        obtain ⟨consumer, slot⟩ := Port.mk.inj hq
        exact hm (only.2 e' he' consumer.symm slot.symm ▸ he')
      rw [source?_connect_of_forall_ne last, source?_setSource, if_pos rfl, hi]
      rfl

theorem Wired.connect (h : net.Wired) {edges : List Edge}
    (he : ∀ e ∈ edges, (net.inlet? e.consumer e.slot).isSome ∧ net.contains e.producer = true) :
    (net.connect edges).Wired := by
  induction edges generalizing net with
  | nil => exact h
  | cons e edges ih =>
    refine ih (h.setSource fun p hp => ?_) fun e' he' => ?_
    · cases hp
      exact he e List.mem_cons_self
    · rw [inlet?_isSome_iff, frame?_setSource, ← inlet?_isSome_iff, contains_setSource]
      exact he e' (List.mem_cons_of_mem e he')

def ofNodes (nodes : List Node) : Net := ⟨(nodes.map some).toArray, nodes.length⟩

theorem node?_ofNodes (nodes : List Node) (n : NodeId) : (ofNodes nodes).node? n = nodes[n]? := by
  rw [node?, ofNodes, List.getElem?_toArray, List.getElem?_map]
  cases nodes[n]? <;> rfl

theorem source?_ofNodes {nodes : List Node}
    (h : ∀ node ∈ nodes, ∀ inlet ∈ node.inlets, inlet.source = none) (n : NodeId) (slot : Nat) :
    (ofNodes nodes).source? n slot = none := by
  rw [Option.eq_none_iff_forall_ne_some]
  intro p hs
  obtain ⟨node, inlet, hnode, hinlet, hs⟩ := exists_inlet_of_source? hs
  rw [node?_ofNodes] at hnode
  rw [h node (List.mem_of_getElem? hnode) inlet (List.mem_of_getElem? hinlet)] at hs
  cases hs

theorem wired_ofNodes {nodes : List Node}
    (h : ∀ node ∈ nodes, node.inlets.length = node.operator.arity ∧ node.outlets = [] ∧
      ∀ inlet ∈ node.inlets, inlet.source = none) : (ofNodes nodes).Wired where
  linked := by
    have outlets (n : NodeId) : (ofNodes nodes).outlets n = [] := by
      rw [Net.outlets, node?_ofNodes]
      cases hn : nodes[n]? with
      | none => rfl
      | some node => exact (h node (List.mem_of_getElem? hn)).2.1
    refine ⟨fun n q => ?_, fun n => by rw [outlets]; exact .nil⟩
    rw [outlets, source?_ofNodes fun node hm => (h node hm).2.2]
    exact iff_of_false List.not_mem_nil fun hs => by cases hs
  arity n node hnode := by
    rw [node?_ofNodes] at hnode
    exact (h node (List.mem_of_getElem? hnode)).1
  count := by
    rw [length_live, ofNodes, List.countP_map]
    exact (List.countP_eq_length.2 fun _ _ => rfl).symm

omit [Platform] in
theorem mem_edgesOf {sources : List (List (Option NodeId))} {e : Edge} :
    e ∈ edgesOf sources ↔
      ∃ slots, sources[e.consumer]? = some slots ∧ slots[e.slot]? = some (some e.producer) := by
  simp only [edgesOf, List.mem_flatMap, List.mem_filterMap, Prod.exists,
    List.mem_zipIdx_iff_getElem?, Option.map_eq_some_iff]
  constructor
  · rintro ⟨slots, n, hn, source, slot, hs, p, rfl, rfl⟩
    exact ⟨slots, hn, hs⟩
  · rintro ⟨slots, hn, hs⟩
    exact ⟨slots, e.consumer, hn, some e.producer, e.slot, hs, e.producer, rfl, rfl⟩

theorem source?_connect_edgesOf {sources : List (List (Option NodeId))}
    (bare : ∀ n slot, net.source? n slot = none)
    (there : ∀ (n : NodeId) slots (slot : Nat) (p : NodeId), sources[n]? = some slots →
      slots[slot]? = some (some p) → (net.inlet? n slot).isSome) (n : NodeId) (slot : Nat) :
    (net.connect (edgesOf sources)).source? n slot = ((sources[n]?).bind (·[slot]?)).join := by
  cases found : ((sources[n]?).bind (·[slot]?)).join with
  | some p =>
    obtain ⟨slots, hslots, hslot⟩ := Option.bind_eq_some_iff.1 (Option.join_eq_some_iff.1 found)
    have mem : ⟨p, n, slot⟩ ∈ edgesOf sources := mem_edgesOf.2 ⟨slots, hslots, hslot⟩
    refine source?_connect_of_mem mem (there n slots slot p hslots hslot) ?_
    rintro ⟨p', _, _⟩ he rfl rfl
    obtain ⟨slots', hslots', hslot'⟩ := mem_edgesOf.1 he
    cases hslots.symm.trans hslots'
    cases hslot.symm.trans hslot'
    rfl
  | none =>
    refine (source?_connect_of_forall_ne (q := ⟨n, slot⟩) fun e he hq => ?_).trans (bare n slot)
    obtain ⟨rfl, rfl⟩ := Port.mk.inj hq
    obtain ⟨slots, hslots, hslot⟩ := mem_edgesOf.1 he
    rw [hslots, Option.bind_some, hslot] at found
    cases found

end Net

namespace Record
variable {r : Record} {catalog : Catalog} {index count : Nat}

/-- The position that an input names; a negative one names none. -/
def named (i : Int) : Option NodeId := if i < 0 then none else some i.toNat

omit [Platform] in
theorem named_eq_some_iff {i : Int} {p : NodeId} : named i = some p ↔ i = p := by
  rw [named]
  split
  · exact iff_of_false nofun fun he => by omega
  · rename_i h
    rw [Option.some.injEq]
    constructor
    · rintro rfl
      exact (Int.toNat_of_nonneg (Int.not_lt.1 h)).symm
    · rintro rfl
      exact Int.toNat_natCast p

/-- The input names no record but another one among `count`. -/
def InRange (count index : Nat) (i : Int) : Prop := i < 0 ∨ i < count ∧ i ≠ index

def Readable (r : Record) (catalog : Catalog) (count index : Nat) : Prop :=
  ∃ op, catalog.find? r.operator = some op ∧ r.inputs.length ≤ op.arity ∧
    r.defaults.length ≤ op.arity ∧ ∀ i ∈ r.inputs, InRange count index i

omit [Platform] in
theorem producers_eq_ok_iff {sources : List (Option NodeId)} :
    r.producers count index = .ok sources ↔
      (∀ i ∈ r.inputs, InRange count index i) ∧ sources = r.inputs.map named := by
  have step (x : Int × Nat) (source : Option NodeId) :
      (if x.1 < 0 then .ok none
        else if count ≤ x.1.toNat ∨ x.1.toNat = index then
          .error (.invalidRecord index (.reads x.2 x.1.toNat))
        else .ok (some x.1.toNat) : Except GraphError (Option NodeId)) = .ok source ↔
      InRange count index x.1 ∧ source = named x.1 := by
    rw [InRange, named]
    split
    · rename_i hi
      simp only [hi, true_or, true_and, Except.ok.injEq]
      exact eq_comm
    split
    · exact iff_of_false (fun h => nomatch h) fun h => by omega
    · rename_i hi hr
      have inside : x.1 < 0 ∨ x.1 < count ∧ x.1 ≠ index := by omega
      simp only [inside, true_and, Except.ok.injEq]
      exact eq_comm
  rw [← map_zipIdx, ← forall_mem_zipIdx]
  exact mapM_eq_ok_of_map fun x _ => step x

def bare (r : Record) (op : Operator) : Node :=
  { operator := op
    inlets := op.slots.zipIdx.map fun (slot, s) =>
      ⟨none, (r.defaults[s]?).elim slot.default (.ofLiteral · slot.kind)⟩
    outlets := []
    kind := op.output.fixed?
    lengths := []
    config := r.config
    placement := r.placement }

theorem node_eq_ok_iff {node : Node} : r.node catalog index = .ok node ↔
    ∃ op, catalog.find? r.operator = some op ∧ r.inputs.length ≤ op.arity ∧
      r.defaults.length ≤ op.arity ∧ node = r.bare op := by
  unfold Record.node
  cases catalog.find? r.operator with
  | none => exact iff_of_false (fun h => nomatch h) fun ⟨_, h, _⟩ => nomatch h
  | some op =>
    simp only [Option.some.injEq, exists_eq_left']
    split
    · exact iff_of_false (fun h => nomatch h) fun h => by omega
    split
    · exact iff_of_false (fun h => nomatch h) fun h => by omega
    · rename_i inputs defaults
      rw [and_iff_right (Nat.not_lt.1 inputs), and_iff_right (Nat.not_lt.1 defaults),
        Except.ok.injEq]
      exact eq_comm

/-- A node made from a record has no edges yet, and its operator is the one the catalog holds. -/
theorem node_eq_ok {node : Node} (h : r.node catalog index = .ok node) :
    node.operator ∈ catalog.operators ∧ node.inlets.length = node.operator.arity ∧
      node.outlets = [] ∧ (∀ inlet ∈ node.inlets, inlet.source = none) ∧
      r.inputs.length ≤ node.operator.arity := by
  obtain ⟨op, known, inputs, -, rfl⟩ := node_eq_ok_iff.1 h
  refine ⟨List.mem_of_find?_eq_some known, by simp [bare, Operator.arity], rfl, fun inlet hm => ?_,
    inputs⟩
  obtain ⟨_, _, rfl⟩ := List.mem_map.1 hm
  rfl

omit [Platform] in
theorem producers_eq_ok {sources : List (Option NodeId)}
    (h : r.producers count index = .ok sources) :
    sources.length = r.inputs.length ∧ ∀ (slot : Nat) (p : NodeId),
      sources[slot]? = some (some p) → p < count := by
  obtain ⟨inside, rfl⟩ := producers_eq_ok_iff.1 h
  refine ⟨List.length_map named, fun slot p hp => ?_⟩
  rw [List.getElem?_map] at hp
  obtain ⟨i, hi, hp⟩ := Option.map_eq_some_iff.1 hp
  rw [named_eq_some_iff] at hp
  rcases inside i (List.mem_of_getElem? hi) with negative | ⟨bound, -⟩
  · omega
  · exact Int.ofNat_lt.1 (hp ▸ bound)

/-- The operator of the node is looked up in the catalog, and the rest is as the record says. -/
theorem stored_of_node {node : Node} (h : r.node catalog index = .ok node) :
    catalog.find? r.operator = some node.operator ∧ node.config = r.config ∧
      node.placement = r.placement := by
  obtain ⟨op, known, -, -, rfl⟩ := node_eq_ok_iff.1 h
  exact ⟨known, rfl, rfl⟩

end Record

namespace Net
variable {net : Net} {document : Document} {catalog : Catalog}

/-- The nodes and their producers that a document was read as. -/
structure Read (document : Document) (catalog : Catalog) (nodes : List Node)
    (sources : List (List (Option NodeId))) : Prop where
  length_nodes : nodes.length = document.length
  length_sources : sources.length = document.length
  node : ∀ (n : Nat) node, nodes[n]? = some node →
    ∃ r, document[n]? = some r ∧ r.node catalog n = .ok node
  producers : ∀ (n : Nat) slots, sources[n]? = some slots →
    ∃ r, document[n]? = some r ∧ r.producers document.length n = .ok slots

theorem ofRecords_eq_ok (h : ofRecords document catalog = .ok net) :
    ∃ nodes sources, net = (ofNodes nodes).connect (edgesOf sources) ∧
      Read document catalog nodes sources := by
  unfold ofRecords at h
  simp only [bind, Except.bind] at h
  split at h
  · cases h
  · rename_i nodes hn
    split at h
    · cases h
    · rename_i sources hs
      cases h
      refine ⟨nodes, sources, rfl, ?_, ?_, fun _ _ => getElem?_of_mapM_zipIdx hn,
        fun _ _ => getElem?_of_mapM_zipIdx hs⟩
      · simpa using length_of_mapM hn
      · simpa using length_of_mapM hs

namespace Read
variable {nodes : List Node} {sources : List (List (Option NodeId))}
  (h : Read document catalog nodes sources)
include h

theorem bare : ∀ node ∈ nodes, node.inlets.length = node.operator.arity ∧ node.outlets = [] ∧
    ∀ inlet ∈ node.inlets, inlet.source = none := by
  intro node hm
  obtain ⟨n, hnode⟩ := List.getElem?_of_mem hm
  obtain ⟨r, _, hr⟩ := h.node n node hnode
  obtain ⟨_, arity, outlets, inlets, _⟩ := Record.node_eq_ok hr
  exact ⟨arity, outlets, inlets⟩

theorem ends {n : NodeId} {slots : List (Option NodeId)} {slot : Nat} {p : NodeId}
    (hslots : sources[n]? = some slots) (hslot : slots[slot]? = some (some p)) :
    ((ofNodes nodes).inlet? n slot).isSome ∧ (ofNodes nodes).contains p = true := by
  obtain ⟨r, hr, hok⟩ := h.producers _ _ hslots
  obtain ⟨len, bound⟩ := Record.producers_eq_ok hok
  have hc := (List.getElem?_eq_some_iff.1 hr).choose
  obtain ⟨node, hnode⟩ : ∃ node, nodes[n]? = some node := by
    rw [← h.length_nodes] at hc
    exact ⟨_, List.getElem?_eq_getElem hc⟩
  obtain ⟨r', hr', hrnode⟩ := h.node _ _ hnode
  cases hr.symm.trans hr'
  obtain ⟨_, arity, _, _, inputs⟩ := Record.node_eq_ok hrnode
  constructor
  · have hslot := (List.getElem?_eq_some_iff.1 hslot).choose
    rw [inlet?, node?_ofNodes, hnode, Option.bind_some, isSome_getElem?]
    omega
  · rw [contains, node?_ofNodes, isSome_getElem?, h.length_nodes]
    exact bound slot p hslot

theorem source?_eq (n : NodeId) (slot : Nat) :
    ((ofNodes nodes).connect (edgesOf sources)).source? n slot =
      ((sources[n]?).bind (·[slot]?)).join :=
  source?_connect_edgesOf (source?_ofNodes fun node hm => (h.bare node hm).2.2)
    (fun _ _ _ _ hslots hslot => (h.ends hslots hslot).1) n slot

end Read

/-- The net of some records before it is checked: both ends of every edge agree. -/
theorem wired_ofRecords (h : ofRecords document catalog = .ok net) :
    net.Wired ∧ ∀ n node, net.node? n = some node → node.operator ∈ catalog.operators := by
  obtain ⟨nodes, sources, rfl, read⟩ := ofRecords_eq_ok h
  refine ⟨(wired_ofNodes read.bare).connect fun e he => ?_, fun n node hnode => ?_⟩
  · obtain ⟨slots, hslots, hslot⟩ := mem_edgesOf.1 he
    exact read.ends hslots hslot
  · have same := frame?_connect (ofNodes nodes) (edgesOf sources) n
    rw [frame?, frame?, hnode, node?_ofNodes, Option.map_some] at same
    obtain ⟨node', hnode', same⟩ := Option.map_eq_some_iff.1 same.symm
    obtain ⟨r, _, hr⟩ := read.node n node' hnode'
    simp only [Prod.mk.injEq] at same
    rw [← same.1]
    exact (Record.node_eq_ok hr).1

theorem acyclic_of_checkAcyclic (h : net.Wired) (hc : net.checkAcyclic = .ok ()) :
    net.Acyclic := by
  apply acyclic_of_inOrder h.linked (nodup_ids net) (fun _ => lt_size_of_mem_ids)
  intro n hn
  unfold checkAcyclic at hc
  dsimp only at hc
  split at hc
  · rename_i hf
    have := List.find?_eq_none.1 hf n (mem_ids.2 hn)
    simpa using this
  · cases hc

theorem ofDocument_eq_ok (h : Net.ofDocument document catalog = .ok net) :
    ∃ bare, ofRecords document catalog = .ok bare ∧ bare.checkAcyclic = .ok () ∧
      (∀ e ∈ bare.edges,
        bare.checkInTime bare.demanded (bare.knownEarly bare.demanded) e = .ok ()) ∧
      (∃ found, bare.resolve.edges.foldlM bare.resolve.checkFixedLength [] = .ok found) ∧
      net = bare.resolve := by
  unfold Net.ofDocument at h
  cases hr : ofRecords document catalog with
  | error e => simp [hr, bind, Except.bind] at h
  | ok bare =>
    cases hc : bare.checkAcyclic with
    | error e => simp [hr, hc, bind, Except.bind] at h
    | ok _ =>
      cases hm : bare.edges.forM
          (bare.checkInTime bare.demanded (bare.knownEarly bare.demanded)) with
      | error e => simp [hr, hc, hm, bind, Except.bind] at h
      | ok _ =>
        refine ⟨bare, rfl, hc, forM_eq_ok.1 hm, ?_⟩
        simp only [hr, hc, hm, bind, Except.bind] at h
        cases hf : bare.resolve.edges.foldlM bare.resolve.checkFixedLength [] with
        | error e => simp [hf, discard, Functor.discard, Functor.mapConst, Except.map] at h
        | ok found =>
          simp only [hf, discard, Functor.discard, Functor.mapConst] at h
          cases h
          exact ⟨⟨found, rfl⟩, rfl⟩

/-- A loaded net is well formed. -/
theorem wellFormed_ofDocument (h : Net.ofDocument document catalog = .ok net) :
    net.WellFormed ∧ ∀ n node, net.node? n = some node → node.operator ∈ catalog.operators := by
  obtain ⟨bare, hr, hc, _, _, rfl⟩ := ofDocument_eq_ok h
  obtain ⟨wired, operators⟩ := wired_ofRecords hr
  have wellFormed : bare.WellFormed := ⟨wired, acyclic_of_checkAcyclic wired hc⟩
  refine ⟨wellFormed.of_sameWiring (sameWiring_resolve bare), fun n node hnode => ?_⟩
  have same := (sameWiring_resolve bare).wiring n
  rw [wiring?, wiring?, hnode, Option.map_some] at same
  obtain ⟨node', hnode', same⟩ := Option.map_eq_some_iff.1 same.symm
  simp only [Prod.mk.injEq] at same
  rw [← same.1]
  exact operators n node' hnode'

end Net
end Patchbay
