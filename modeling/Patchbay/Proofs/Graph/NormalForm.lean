import Patchbay.Generator
import Patchbay.Proofs.Graph.Literals
import Patchbay.Proofs.Graph.Records
import Patchbay.Proofs.Graph.Reloadable

/-! # The normal form of a document

A loaded net is saved as a document in which every record lists all its slots: an open one as minus
one, and every default as the literal of the cell that is read. This document is read as the same
net, so it is loaded with the same answers of all checks and saved as itself.
-/

namespace Patchbay
open Relation

section
variable [Platform]

/-- The literal of what a slot reads, when a default is given for it or not. -/
def Slot.literal (slot : Slot) (given : Option Decimal) : Decimal :=
  (given.elim slot.default (.ofLiteral · slot.kind)).literal slot.kind

/-- The record with an input and a default for every slot: minus one for an input that is missing or
negative, the default of the operator for one that is missing, and for one that is given the literal
of the cell that it stands for. -/
def Record.completed (catalog : Catalog) (r : Record) : Record :=
  (catalog.find? r.operator).elim r fun op =>
    { r with
      inputs := op.slots.zipIdx.map fun (_, s) =>
        (r.inputs[s]?).elim (-1) fun i => if i < 0 then -1 else i
      defaults := op.slots.zipIdx.map fun (slot, s) => slot.literal r.defaults[s]? }

namespace Record
variable {r : Record} {catalog : Catalog} {op : Operator} {count index : Nat}

theorem completed_eq (known : catalog.find? r.operator = some op) : r.completed catalog =
    { r with
      inputs := op.slots.zipIdx.map fun (_, s) =>
        (r.inputs[s]?).elim (-1) fun i => if i < 0 then -1 else i
      defaults := op.slots.zipIdx.map fun (slot, s) => slot.literal r.defaults[s]? } := by
  rw [completed, known, Option.elim_some]

theorem node_completed (literal : ∀ op ∈ catalog.operators, op.Literal) {node : Node}
    (h : r.node catalog index = .ok node) :
    (r.completed catalog).node catalog index = .ok node := by
  obtain ⟨op, known, -, -, rfl⟩ := node_eq_ok_iff.1 h
  have lists : (op.slots.zipIdx).length = op.arity := List.length_zipIdx
  refine node_eq_ok_iff.2 ⟨op, ?_, ?_, ?_, ?_⟩
  · rw [completed_eq known, known]
  · rw [completed_eq known, List.length_map, lists]
  · rw [completed_eq known, List.length_map, lists]
  have cells : ∀ x ∈ op.slots.zipIdx,
      ((r.completed catalog).defaults[x.2]?).elim x.1.default (Cell.ofLiteral · x.1.kind) =
        (r.defaults[x.2]?).elim x.1.default (Cell.ofLiteral · x.1.kind) := by
    rintro ⟨slot, s⟩ hx
    rw [List.mem_zipIdx_iff_getElem?] at hx
    dsimp only at hx ⊢
    rw [completed_eq known, List.getElem?_map, List.getElem?_zipIdx, hx]
    simp only [Option.map_some, Nat.zero_add, Option.elim_some, Slot.literal]
    cases r.defaults[s]? with
    | none =>
      exact (literal op (List.mem_of_find?_eq_some known)).ofLiteral_default
        (List.mem_of_getElem? hx)
    | some x => exact Cell.ofLiteral_literal_ofLiteral x slot.kind
  have inlets := List.map_congr_left fun x hx => congrArg (Inlet.mk none) (cells x hx)
  rw [bare, bare, inlets, completed_eq known]

/-- A completed record lists the inputs that are given, then the open slots. -/
theorem inputs_completed (known : catalog.find? r.operator = some op)
    (h : r.inputs.length ≤ op.arity) : (r.completed catalog).inputs =
      (r.inputs.map fun i => if i < 0 then -1 else i) ++
        List.replicate (op.arity - r.inputs.length) (-1) := by
  rw [completed_eq known]
  dsimp only
  rw [Operator.arity] at h ⊢
  refine List.ext_getElem (by simp; omega) fun s hs _ => ?_
  simp only [List.length_map, List.length_zipIdx] at hs
  rw [List.getElem_map, List.getElem_zipIdx, List.getElem_append]
  by_cases given : s < r.inputs.length
  · simp [given]
  · simp [given]

omit [Platform] in
theorem named_completed (i : Int) : named (if i < 0 then -1 else i) = named i := by
  by_cases h : i < 0 <;> simp [named, h]

theorem inRange_completed (known : catalog.find? r.operator = some op)
    (h : r.inputs.length ≤ op.arity) (inside : ∀ i ∈ r.inputs, InRange count index i) :
    ∀ i ∈ (r.completed catalog).inputs, InRange count index i := by
  rw [inputs_completed known h]
  intro i hi
  rcases List.mem_append.1 hi with hi | hi
  · obtain ⟨j, hj, rfl⟩ := List.mem_map.1 hi
    split
    · exact .inl (by decide)
    · exact inside j hj
  · rw [List.eq_of_mem_replicate hi]
    exact .inl (by decide)

theorem edgesInto_completed (known : catalog.find? r.operator = some op)
    (h : r.inputs.length ≤ op.arity) (f : Option NodeId × Nat → Option Edge)
    (open_none : ∀ slot, f (none, slot) = none) :
    ((r.completed catalog).inputs.map named).zipIdx.filterMap f =
      (r.inputs.map named).zipIdx.filterMap f := by
  have past : ∀ x ∈ (List.replicate (op.arity - r.inputs.length) (named (-1))).zipIdx
      (0 + (r.inputs.map named).length), f x = none := by
    rintro ⟨source, slot⟩ hx
    obtain rfl : source = named (-1) :=
      List.eq_of_mem_replicate (List.fst_mem_of_mem_zipIdx hx)
    exact open_none slot
  have given : named ∘ (fun i => if i < 0 then -1 else i) = named := funext named_completed
  rw [inputs_completed known h, List.map_append, List.map_map, given, List.map_replicate,
    List.zipIdx_append, List.filterMap_append, List.filterMap_eq_nil_iff.2 past, List.append_nil]

/-- What a node reads from defaults, written as literals, completes them. -/
theorem literals_bare {node : Node}
    (h : node.inlets.map (·.default) = (r.bare op).inlets.map (·.default)) :
    (op.slots.zip node.inlets).map (fun x => x.2.default.literal x.1.kind) =
      op.slots.zipIdx.map fun x => x.1.literal r.defaults[x.2]? := by
  have length : node.inlets.length = op.slots.length := by
    simpa [bare] using congrArg List.length h
  apply List.ext_getElem
  · simp [length]
  · intro s hs _
    have bound : s < node.inlets.length := by
      rw [List.length_map, List.length_zip] at hs
      omega
    have default := congrArg (·[s]?) h
    simp only [bare, List.map_map, List.getElem?_map, List.getElem?_zipIdx, Nat.zero_add,
      List.getElem?_eq_getElem bound, List.getElem?_eq_getElem (length ▸ bound), Option.map_some,
      Function.comp_apply, Option.some.injEq] at default
    simp only [List.getElem_map, List.getElem_zip, List.getElem_zipIdx, Nat.zero_add, default,
      Slot.literal]

end Record

namespace Net
variable {net bare : Net} {document : Document} {catalog : Catalog}

theorem ofRecords_completed (literal : ∀ op ∈ catalog.operators, op.Literal)
    (h : ofRecords document catalog = .ok bare) :
    ofRecords (document.map (Record.completed catalog)) catalog = .ok bare := by
  obtain ⟨nodes, hn, inside, rfl⟩ := ofRecords_eq_ok_iff.1 h
  have readable := exists_ofRecords_iff.1 ⟨_, h⟩
  refine ofRecords_eq_ok_iff.2 ⟨nodes, ?_, ?_, ?_⟩
  · rw [List.zipIdx_map, mapM_eq_ok_iff, List.forall₂_map_left_iff]
    exact (mapM_eq_ok_iff.1 hn).imp fun x node hx => Record.node_completed literal hx
  · rw [List.zipIdx_map, List.forall_mem_map]
    rintro ⟨r, index⟩ hx
    obtain ⟨op, known, inputs, -, range⟩ :=
      readable index r (List.mem_zipIdx_iff_getElem?.1 hx)
    rw [List.length_map]
    exact Record.inRange_completed known inputs range
  · congr 1
    rw [edgesOf, edgesOf, List.map_map, List.zipIdx_map, List.zipIdx_map, List.flatMap_map,
      List.flatMap_map]
    refine List.flatMap_congr fun x hx => ?_
    obtain ⟨op, known, inputs, -⟩ := readable x.2 x.1 (List.mem_zipIdx_iff_getElem?.1 hx)
    exact (Record.edgesInto_completed known inputs _ fun slot => rfl).symm

/-! ### What a loaded net is saved as -/

theorem ids_ofDocument (h : Net.ofDocument document catalog = .ok net) :
    net.ids = List.range document.length := by
  obtain ⟨bare, hr, -, -, -, rfl⟩ := ofDocument_eq_ok h
  rw [← ids_ofRecords hr]
  exact (sameWiring_resolve bare).ids

theorem position_named (range : net.ids = List.range document.length) {index : Nat} {i : Int}
    (inside : Record.InRange document.length index i) :
    ((Record.named i).bind net.position?).elim (-1) Int.ofNat = if i < 0 then -1 else i := by
  rw [Record.named]
  split
  · rfl
  · have bound : i.toNat < document.length := by
      rcases inside with h | ⟨h, -⟩ <;> omega
    rw [Option.bind_some, position?, range,
      idxOf?_of_getElem? List.nodup_range (List.getElem?_range bound), Option.elim_some]
    exact Int.toNat_of_nonneg (by omega)

/-- What a node keeps when edges are made. -/
def core (node : Node) : Operator × Config × Int × List Cell :=
  (node.operator, node.config, node.placement, node.inlets.map (·.default))

theorem core_feed (node : Node) (slot : Nat) (source : Option NodeId) :
    core { node with inlets := node.inlets.modify slot fun inlet => { inlet with source } } =
      core node := by
  rw [core, defaults_feed, core]

/-- The inputs of a loaded node are saved as those of the completed record. -/
theorem inputs_ofRecords (h : ofRecords document catalog = .ok bare)
    (range : net.ids = List.range document.length) {index : Nat} {r : Record} {node : Node}
    {op : Operator} (hr : document[index]? = some r) (hn : bare.node? index = some node)
    (length : node.inlets.length = op.slots.length) :
    node.inlets.map (fun inlet => (inlet.source.bind net.position?).elim (-1) Int.ofNat) =
      op.slots.zipIdx.map fun x =>
        (r.inputs[x.2]?).elim (-1) fun i => if i < 0 then -1 else i := by
  obtain ⟨-, -, -, -, inside⟩ := exists_ofRecords_iff.1 ⟨_, h⟩ index r hr
  apply List.ext_getElem
  · simp [length]
  · intro s hs _
    rw [List.length_map] at hs
    have source := source?_of_inlet hn (List.getElem?_eq_getElem hs)
    rw [source?_ofRecords h, Document.source?, hr, Option.bind_some] at source
    rw [List.getElem_map, ← source, List.getElem_map, List.getElem_zipIdx]
    simp only [Nat.zero_add]
    cases given : r.inputs[s]? with
    | none => rfl
    | some i => exact position_named range (inside i (List.mem_of_getElem? given))

theorem record_ofDocument (h : Net.ofDocument document catalog = .ok net) {index : Nat} {r : Record}
    (hr : document[index]? = some r) :
    ∃ node, net.node? index = some node ∧ net.record node = r.completed catalog := by
  have range := ids_ofDocument h
  obtain ⟨bare, hrecords, -, -, -, rfl⟩ := ofDocument_eq_ok h
  obtain ⟨op, known, same⟩ := view_ofRecords core core_feed (fun _ _ => rfl) hrecords hr
  obtain ⟨node, hn, same⟩ := Option.map_eq_some_iff.1 same
  simp only [core, Prod.mk.injEq] at same
  obtain ⟨operator, config, placement, defaults⟩ := same
  change node.operator = op at operator
  change node.config = r.config at config
  change node.placement = r.placement at placement
  have length : node.inlets.length = op.slots.length := by
    simpa [Record.bare] using congrArg List.length defaults
  have inputs := inputs_ofRecords hrecords range hr hn length
  have literals := Record.literals_bare defaults
  have id : op.id = r.operator := by
    have found := List.find?_some known
    exact eq_of_beq found
  refine ⟨{ node with kind := bare.settled.kind? index }, ?_, ?_⟩
  · rw [resolve, withKinds, node?_mapIdx, hn, Option.map_some]
  · rw [Record.completed_eq known, ← inputs, ← literals, ← id, ← config, ← placement, ← operator]
    rfl

theorem document_ofDocument (h : Net.ofDocument document catalog = .ok net) :
    net.document = document.map (Record.completed catalog) := by
  have range := ids_ofDocument h
  refine List.ext_getElem? fun index => ?_
  rw [List.getElem?_map]
  cases hr : document[index]? with
  | none =>
    rw [List.getElem?_eq_none_iff] at hr
    rw [Option.map_none, List.getElem?_eq_none_iff, length_document, range, List.length_range]
    exact hr
  | some r =>
    obtain ⟨node, hn, record⟩ := record_ofDocument h hr
    have bound : index < document.length := (List.getElem?_eq_some_iff.1 hr).1
    have index_eq : net.ids.idxOf index = index := by
      have there := idxOf?_of_getElem? List.nodup_range (List.getElem?_range bound)
      rw [range, List.idxOf_eq_getD_idxOf?, there, Option.getD_some]
    have saved := getElem?_document hn
    rw [index_eq] at saved
    rw [saved, record, Option.map_some]

theorem ofDocument_completed (literal : ∀ op ∈ catalog.operators, op.Literal)
    (h : Net.ofDocument document catalog = .ok net) :
    Net.ofDocument (document.map (Record.completed catalog)) catalog = .ok net := by
  obtain ⟨bare, hr, checked⟩ := ofDocument_eq_ok_iff.1 h
  exact ofDocument_eq_ok_iff.2 ⟨bare, ofRecords_completed literal hr, checked⟩

end Net

namespace Graph

/-- A loaded graph is saved as the completed records of its document: nothing else of a record is
changed. They are loaded again as the same net, and saved as they are. It is asked of the catalog
that literals stand for what slots read by themselves, as it is with the built-in operators and with
promoted graphs. -/
theorem document_loaded :
    ((∀ op ∈ Builtin.catalog.operators, op.Literal) ∧
      ∀ (g : Graph) (output : NodeId) (id : OperatorId) (name : String) (op : Operator),
        g.promote output id name = .ok op → op.Literal) ∧
    ∀ catalog : Catalog, (∀ op ∈ catalog.operators, op.Literal) →
      ∀ (id : GraphId) (document : Document) (g : Graph), ofDocument id document catalog = .ok g →
        g.net.document = document.map (Record.completed catalog) ∧
        ∀ id', ∃ g', ofDocument id' g.net.document catalog = .ok g' ∧ g'.net = g.net ∧
          g'.net.document = g.net.document := by
  refine ⟨⟨fun op => Builtin.literal_of_mem, fun g output id name op => literal_of_promote⟩, ?_⟩
  intro catalog literal id document g h
  obtain ⟨net, hn, rfl⟩ := ofDocument_eq_ok h
  have saved : net.document = document.map (Record.completed catalog) := Net.document_ofDocument hn
  refine ⟨saved, fun id' => ⟨(Graph.empty id').withNet net, ?_, rfl, rfl⟩⟩
  change ofDocument id' net.document catalog = _
  rw [saved, ofDocument, Net.ofDocument_completed literal hn]
  rfl

end Graph

end

namespace Graph

/-- A range that names no producer of its start and gives two and a half as its count. -/
def halfway : Document :=
  [⟨.builtin 43, [-5], [⟨0x3fe0000000000000⟩, ⟨0x4004000000000000⟩], .empty, 7⟩]

/-- The count is saved as three, and the step, which is not given, as one. -/
theorem document_loaded_halfway : ∃ g g' : Graph,
    ofDocument 0 halfway Builtin.catalog = .ok g ∧
      g.net.document = [⟨.builtin 43, [-1, -1, -1], [⟨0x3fe0000000000000⟩, 3, 1], .empty, 7⟩] ∧
      ofDocument 1 g.net.document Builtin.catalog = .ok g' ∧
      g'.net.document = g.net.document := by
  have computed : (ofDocument 0 halfway Builtin.catalog).toOption.isSome = true := by decide +kernel
  obtain ⟨g, hg⟩ := Option.isSome_iff_exists.1 computed
  rw [toOption_eq_some] at hg
  obtain ⟨saved, again⟩ := document_loaded.2 Builtin.catalog (fun op => Builtin.literal_of_mem) 0
    halfway g hg
  obtain ⟨g', hg', -, same⟩ := again 1
  refine ⟨g, g', hg, saved.trans ?_, hg', same⟩
  decide +kernel

end Graph
end Patchbay
