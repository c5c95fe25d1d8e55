import Patchbay.Proofs.Graph.Loading

/-! # Records that are read

A record is read when the catalog knows its operator, when it gives no more inputs and defaults than
the operator has slots, and when no input names the record itself or a record that is not there. The
records of a document make a net exactly when all of them are read.
-/

namespace Patchbay

variable [Platform]

def Document.source? (document : Document) (n : NodeId) (slot : Nat) : Option NodeId :=
  ((document[n]?).bind fun r => r.inputs[slot]?).bind Record.named

def Document.Readable (document : Document) (catalog : Catalog) : Prop :=
  ∀ (index : Nat) (r : Record), document[index]? = some r →
    r.Readable catalog document.length index

namespace Net
variable {net : Net} {document : Document} {catalog : Catalog}

omit [Platform] in
/-- The producers that the records name, when every input is in range. -/
theorem sources_eq_ok_iff {sources : List (List (Option NodeId))} :
    document.zipIdx.mapM (fun (r, index) => r.producers document.length index) = .ok sources ↔
      (∀ x ∈ document.zipIdx, ∀ i ∈ x.1.inputs, Record.InRange document.length x.2 i) ∧
        sources = document.map fun r => r.inputs.map Record.named := by
  rw [← map_zipIdx]
  exact mapM_eq_ok_of_map fun x _ sources => Record.producers_eq_ok_iff

theorem ofRecords_eq_ok_iff : ofRecords document catalog = .ok net ↔
    ∃ nodes, document.zipIdx.mapM (fun (r, index) => r.node catalog index) = .ok nodes ∧
      (∀ x ∈ document.zipIdx, ∀ i ∈ x.1.inputs, Record.InRange document.length x.2 i) ∧
      net = (ofNodes nodes).connect
        (edgesOf (document.map fun r => r.inputs.map Record.named)) := by
  have made : ofRecords document catalog = (do
      let nodes ← document.zipIdx.mapM fun (r, index) => r.node catalog index
      let sources ← document.zipIdx.mapM fun (r, index) => r.producers document.length index
      .ok ((ofNodes nodes).connect (edgesOf sources))) := rfl
  rw [made]
  cases hn : document.zipIdx.mapM fun (r, index) => r.node catalog index with
  | error cause => exact iff_of_false (fun h => nomatch h) fun ⟨_, h, _⟩ => nomatch h
  | ok nodes =>
    simp only [Except.ok.injEq, exists_eq_left', bind, Except.bind]
    cases hs : document.zipIdx.mapM fun (r, index) => r.producers document.length index with
    | error cause =>
      refine iff_of_false (fun h => nomatch h) fun ⟨inside, _⟩ => ?_
      rw [sources_eq_ok_iff.2 ⟨inside, rfl⟩] at hs
      cases hs
    | ok sources =>
      obtain ⟨inside, rfl⟩ := sources_eq_ok_iff.1 hs
      simp only [Except.ok.injEq]
      exact ⟨fun h => ⟨inside, h.symm⟩, fun h => h.2.symm⟩

theorem exists_ofRecords_iff :
    (∃ net, ofRecords document catalog = .ok net) ↔ document.Readable catalog := by
  simp only [ofRecords_eq_ok_iff]
  constructor
  · rintro ⟨_, nodes, hn, inside, -⟩ index r hr
    have mem : (r, index) ∈ document.zipIdx := List.mem_zipIdx_iff_getElem?.2 hr
    obtain ⟨node, -, ok⟩ := exists_of_forall₂ (mapM_eq_ok_iff.1 hn) mem
    obtain ⟨op, known, inputs, defaults, -⟩ := Record.node_eq_ok_iff.1 ok
    exact ⟨op, known, inputs, defaults, inside _ mem⟩
  · intro readable
    have all (x : Record × Nat) (hx : x ∈ document.zipIdx) :
        x.1.Readable catalog document.length x.2 :=
      readable x.2 x.1 (List.mem_zipIdx_iff_getElem?.1 hx)
    obtain ⟨nodes, hn⟩ := exists_mapM (f := fun x : Record × Nat => x.1.node catalog x.2)
      fun x hx => by
        obtain ⟨op, known, inputs, defaults, -⟩ := all x hx
        exact ⟨_, Record.node_eq_ok_iff.2 ⟨op, known, inputs, defaults, rfl⟩⟩
    exact ⟨_, nodes, hn, fun x hx => (all x hx).choose_spec.2.2.2, rfl⟩

/-! ### The net of the records -/

theorem defaults_feed (node : Node) (slot : Nat) (source : Option NodeId) :
    (node.inlets.modify slot fun inlet => { inlet with source }).map (·.default) =
      node.inlets.map (·.default) := by
  apply List.ext_getElem
  · simp
  · intro i _ _
    rw [List.getElem_map, List.getElem_map, List.getElem_modify]
    split <;> rfl

theorem view_ofRecords {α : Type*} (view : Node → α)
    (hi : ∀ (node : Node) (slot : Nat) (source : Option NodeId),
      view { node with inlets := node.inlets.modify slot fun inlet => { inlet with source } } =
        view node)
    (ho : ∀ (node : Node) (outlets : List Port), view { node with outlets } = view node)
    (h : ofRecords document catalog = .ok net) {index : Nat} {r : Record}
    (hr : document[index]? = some r) :
    ∃ op, catalog.find? r.operator = some op ∧
      (net.node? index).map view = some (view (r.bare op)) := by
  obtain ⟨nodes, hn, -, rfl⟩ := ofRecords_eq_ok_iff.1 h
  obtain ⟨node, hnode, ok⟩ := getElem?_of_forall₂ (mapM_eq_ok_iff.1 hn) (i := index)
    (by rw [List.getElem?_zipIdx, hr, Option.map_some])
  rw [Nat.zero_add] at ok
  obtain ⟨op, known, -, -, rfl⟩ := Record.node_eq_ok_iff.1 ok
  exact ⟨op, known, by rw [view_connect hi ho, node?_ofNodes, hnode, Option.map_some]⟩

theorem ids_ofRecords (h : ofRecords document catalog = .ok net) :
    net.ids = List.range document.length := by
  obtain ⟨nodes, hn, -, rfl⟩ := ofRecords_eq_ok_iff.1 h
  have length : nodes.length = document.length := by simpa using length_of_mapM hn
  refine ids_eq_of_mem List.pairwise_lt_range fun m => ?_
  rw [contains_eq_frame?, frame?_connect, ← contains_eq_frame?, contains, node?_ofNodes,
    isSome_getElem?, length, List.mem_range]

theorem source?_ofRecords (h : ofRecords document catalog = .ok net) (n : NodeId) (slot : Nat) :
    net.source? n slot = document.source? n slot := by
  obtain ⟨nodes, sources, rfl, read⟩ := ofRecords_eq_ok h
  rw [read.source?_eq, Document.source?]
  cases hs : sources[n]? with
  | none =>
    have past : document[n]? = none := by
      rwa [List.getElem?_eq_none_iff, ← read.length_sources, ← List.getElem?_eq_none_iff]
    rw [past]
    rfl
  | some slots =>
    obtain ⟨r, hr, ok⟩ := read.producers n slots hs
    rw [hr, (Record.producers_eq_ok_iff.1 ok).2, Option.bind_some, Option.bind_some,
      List.getElem?_map]
    cases r.inputs[slot]? <;> rfl

end Net
end Patchbay
