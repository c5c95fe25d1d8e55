import Patchbay.Proofs.Net.RenamedOrder
import Patchbay.Proofs.Plan.Alike

/-! # Trials under other handles

Nets that differ in the handles alone are tried alike. Corresponding nodes are tried in
corresponding order and on the same legs, so they give the same cells. Where one takes over the
fault of a producer, the other takes over that of the corresponding producer.
-/

namespace Patchbay

variable [Platform]

def Inlet.rename (φ : NodeId → NodeId) (i : Inlet) : Inlet := { i with source := i.source.map φ }

def CompileError.rename (φ : NodeId → NodeId) : CompileError → CompileError
  | outputNotFound n => outputNotFound (φ n)
  | lengthMismatch n slot expected found => lengthMismatch (φ n) slot expected found

/-- A fault names a node of the net only where it is taken over from a producer. A body that gives
this fault by itself means no node of the net, and neither does a promoted node. -/
def Fault.rename (φ : NodeId → NodeId) (inherits : Bool) : Fault → Fault
  | inherited n => inherited (if inherits then φ n else n)
  | f => f

omit [Platform] in
theorem Fault.rename_false (φ : NodeId → NodeId) (f : Fault) : f.rename φ false = f := by
  cases f <;> rfl

/-- Two results of which one is the other under other handles. -/
inductive CompileError.Renamed {α β : Type*} (φ : NodeId → NodeId) (R : α → β → Prop) :
    Except CompileError α → Except CompileError β → Prop
  | ok {a b} (h : R a b) : Renamed φ R (.ok a) (.ok b)
  | error (cause : CompileError) : Renamed φ R (.error cause) (.error (cause.rename φ))

/-- What a compile reads of two nodes, one of which is the other under other handles. -/
structure Node.Renamed (φ : NodeId → NodeId) (node node' : Node) : Prop where
  operator : node'.operator = node.operator
  inlets : node'.inlets = node.inlets.map (Inlet.rename φ)
  kind : node'.kind = node.kind
  config : node'.config = node.config

structure Entry.Renamed (φ : NodeId → NodeId) (net : Net) (e e' : Entry) : Prop where
  node : net.node? e.source = some e.node
  renamed : e.node.Renamed φ e'.node
  source : e'.source = φ e.source
  index : e'.index = e.index
  known : e'.known = e.known

structure Trial.Renamed (φ : NodeId → NodeId) (net : Net) (t t' : Trial) : Prop extends
    Entry.Renamed φ net t.toEntry t'.toEntry where
  outcome : ∃ inherits, t'.outcome = t.outcome.mapError (Fault.rename φ inherits)

section Node
variable {φ : NodeId → NodeId} {node node' : Node} (h : node.Renamed φ node')
include h

theorem Node.Renamed.written : node'.written = node.written := by
  rw [Node.written, h.kind, Node.written]

theorem Node.Renamed.reads (slot : Slot) : node'.reads slot = node.reads slot := by
  rw [Node.reads, h.operator, h.written, Node.reads]

theorem Node.Renamed.fallback : node'.fallback = node.fallback := by
  rw [Node.fallback, h.config, h.written, Node.fallback]

theorem Node.Renamed.sockets :
    node'.sockets = node.sockets.map fun s => (s.1, s.2.rename φ) := by
  rw [Node.sockets, h.operator, h.inlets, List.zip_map_right]
  rfl

theorem Node.Renamed.sources : node'.sources = node.sources.map φ := by
  rw [Node.sources, h.inlets, List.filterMap_map, Node.sources, List.map_filterMap]
  rfl

end Node

namespace Trial.Renamed
variable {φ : NodeId → NodeId} {net : Net} {t t' : Trial} (h : t.Renamed φ net t')
include h

theorem cells : t'.cells = t.cells := by
  obtain ⟨_, outcome⟩ := h.outcome
  rw [Trial.cells, outcome, Trial.cells]
  cases t.outcome <;> rfl

theorem inner : t'.inner = t.inner := by
  obtain ⟨_, outcome⟩ := h.outcome
  rw [Trial.inner, outcome, Trial.inner]
  cases t.outcome <;> rfl

theorem fault : t'.fault.isSome = t.fault.isSome := by
  obtain ⟨_, outcome⟩ := h.outcome
  rw [Trial.fault, outcome, Trial.fault]
  cases t.outcome <;> rfl

theorem kind : t'.kind = t.kind := h.renamed.written

theorem reads (slot : Slot) : t'.reads slot = t.reads slot := h.renamed.reads slot

theorem folded : t'.folded = t.folded := by
  rw [Trial.folded, h.known, ← Option.not_isSome, h.fault, Option.not_isSome, Trial.folded]

theorem live : t'.live = t.live := by
  rw [Trial.live, h.known, ← Option.not_isSome, h.fault, Option.not_isSome, Trial.live]

theorem isInput : t'.isInput = t.isInput := by
  rw [Trial.isInput, h.renamed.operator, Trial.isInput]

theorem contains : net.contains t.source = true := Option.isSome_of_eq_some h.node

end Trial.Renamed

/-! ### Producers and legs -/

section Legs
variable {φ : NodeId → NodeId} {net net' : Net} {e e' : Entry} {done done' : List Trial}
  (hr : net.Renamed φ net') (hd : List.Forall₂ (Trial.Renamed φ net) done done')
include hr hd

theorem trial?_renamed {n : NodeId} (hn : net.contains n = true) :
    Option.Rel (Trial.Renamed φ net) (trial? done n) (trial? done' (φ n)) := by
  refine trial?_of_forall₂ hd fun t t' ht => ?_
  rw [ht.source]
  exact ⟨hr.injective ht.contains hn, congrArg φ⟩

variable (hs : net.NoDangling) (he : e.Renamed φ net e')
include hs he

omit hr hd in
theorem contains_of_mem_sources {p : NodeId} (hp : p ∈ e.node.sources) :
    net.contains p = true := by
  refine hs p e.source (Net.mem_sources.1 ?_)
  rw [Net.sources, he.node]
  exact hp

theorem producer?_renamed {s : Slot × Inlet} (hm : s ∈ e.node.sockets) :
    Option.Rel (Trial.Renamed φ net) (Entry.producer? done s.2)
      (Entry.producer? done' (s.2.rename φ)) := by
  rw [Entry.producer?, Entry.producer?, Inlet.rename]
  cases hp : s.2.source with
  | none => exact .none
  | some p =>
    refine trial?_renamed hr hd (contains_of_mem_sources hs he ?_)
    exact List.mem_filterMap.2 ⟨s.2, (List.of_mem_zip hm).2, hp⟩

theorem leg_renamed {x : (Slot × Inlet) × Nat} (hx : x.1 ∈ e.node.sockets) :
    e'.leg done' ((x.1.1, x.1.2.rename φ), x.2) =
      (e.leg done x).mapError (CompileError.rename φ) := by
  obtain ⟨⟨slot, inlet⟩, number⟩ := x
  have producers := producer?_renamed hr hd hs he hx
  simp only [Entry.leg]
  generalize Entry.producer? done inlet = o, Entry.producer? done' (inlet.rename φ) = o'
    at producers ⊢
  cases producers with
  | none => rfl
  | @some q q' hq =>
    dsimp only
    rw [hq.cells, hq.kind, he.source, Entry.reads, he.renamed.reads]
    split <;> rfl

theorem legs_renamed : e'.legs done' = (e.legs done).mapError (CompileError.rename φ) := by
  rw [Entry.legs, Entry.legs, he.renamed.sockets, List.zipIdx_map, List.mapM_map]
  refine mapM_mapError fun x hx => ?_
  exact leg_renamed hr hd hs he (List.mem_of_getElem? (List.mem_zipIdx_iff_getElem?.1 hx))

theorem attached_renamed : e'.attached done' = e.attached done := by
  rw [Entry.attached, he.renamed.sockets, List.map_map, Entry.attached]
  refine List.map_congr_left fun s hm => ?_
  rw [Function.comp_apply]
  have producers := producer?_renamed hr hd hs he hm
  generalize Entry.producer? done s.2 = o, Entry.producer? done' (s.2.rename φ) = o'
    at producers ⊢
  cases producers <;> rfl

theorem faultedSource?_renamed : e'.faultedSource? done' = (e.faultedSource? done).map φ := by
  rw [Entry.faultedSource?, he.renamed.sources, List.find?_map, Entry.faultedSource?]
  congr 1
  refine List.find?_congr fun p hp => ?_
  have trials := trial?_renamed hr hd (contains_of_mem_sources hs he hp)
  rw [Function.comp_apply]
  generalize trial? done p = o, trial? done' (φ p) = o' at trials ⊢
  cases trials with
  | none => rfl
  | some hq => exact hq.fault

/-! ### Trials -/

variable (externals : Legs)

omit hd hs in
theorem yield_renamed (legs : Legs) (attached : List Bool) :
    e'.yield net'.expand externals legs attached = e.yield net.expand externals legs attached := by
  rw [Entry.yield, Entry.yield, he.renamed.operator, he.renamed.config]
  cases hb : e.node.operator.body with
  | kernel k => rfl
  | input =>
    dsimp only
    rw [he.index, Entry.fallback, he.renamed.fallback, Entry.fallback]
  | promoted u =>
    have operator : net.operator? e.source = some e.node.operator := by
      rw [Net.operator?, he.node, Option.map_some]
    have template := Operator.template?_eq_some.2 hb
    dsimp only
    rw [Net.expand, Net.expand, Net.template?, Net.template?, he.source,
      hr.operator?_rename (Option.isSome_of_eq_some he.node), operator, Option.bind_some, template]

/-- Under other handles a node gives the same, or fails for the same reason. -/
theorem tryAfter_renamed :
    e'.tryAfter net'.expand externals done' =
      ((e.tryAfter net.expand externals done).map fun t => { e' with
        outcome := t.outcome.mapError (Fault.rename φ (e.faultedSource? done).isSome)
      }).mapError (CompileError.rename φ) := by
  rw [Entry.tryAfter, faultedSource?_renamed hr hd hs he, legs_renamed hr hd hs he,
    attached_renamed hr hd hs he, Entry.tryAfter]
  cases e.faultedSource? done with
  | some p => rfl
  | none =>
    dsimp only [Option.map_none]
    cases e.legs done with
    | error cause => rfl
    | ok legs =>
      dsimp only [Except.mapError, Except.map, Option.isSome_none]
      rw [yield_renamed hr he externals]
      cases e.yield net.expand externals legs (e.attached done) with
      | error f => simp only [Fault.rename_false]
      | ok => rfl

end Legs

theorem tryAll_renamed {φ : NodeId → NodeId} {net net' : Net} (externals : Legs)
    (hr : net.Renamed φ net') (hs : net.NoDangling) {entries entries' : List Entry}
    (he : List.Forall₂ (Entry.Renamed φ net) entries entries') {done done' : List Trial}
    (hd : List.Forall₂ (Trial.Renamed φ net) done done') :
    CompileError.Renamed φ (List.Forall₂ (Trial.Renamed φ net))
      (Net.tryAll net.expand externals entries done)
      (Net.tryAll net'.expand externals entries' done') := by
  induction he generalizing done done' with
  | nil => exact .ok (List.forall₂_reverse_iff.2 hd)
  | @cons e e' _ _ he _ ih =>
    rw [Net.tryAll, Net.tryAll, tryAfter_renamed hr hd hs he externals]
    cases ht : e.tryAfter net.expand externals done with
    | error cause => exact .error cause
    | ok t =>
      refine ih (.cons ?_ hd)
      have entry := entry_of_tryAfter ht
      subst entry
      exact { toRenamed := he, outcome := ⟨_, rfl⟩ }

/-! ### Entries -/

namespace Net
variable {φ : NodeId → NodeId} {net net' : Net}

theorem Isomorphic.node_renamed (h : net.Isomorphic φ net') (defaults : net.SameDefaults φ net')
    {n : NodeId} {node node' : Node} (hn : net.node? n = some node)
    (hn' : net'.node? (φ n) = some node') : node.Renamed φ node' := by
  obtain ⟨_, found, operator, sources, _⟩ := h.wiring n node hn
  cases hn'.symm.trans found
  obtain ⟨config, _, kind⟩ := h.stored n node node' hn hn'
  refine ⟨operator, ?_, kind, config⟩
  have rebuilt (inlets : List Inlet) :
      inlets = (inlets.map (·.source)).zipWith Inlet.mk (inlets.map (·.default)) := by
    rw [List.zipWith_map, List.zipWith_self, List.map_id']
  rw [rebuilt node'.inlets, sources, defaults n node node' hn hn', List.zipWith_map,
    List.zipWith_self]
  rfl

section Isomorphic
variable (h : net.Isomorphic φ net')
include h

theorem Isomorphic.placementOf_rename {n : NodeId} (hn : net.contains n = true) :
    net'.placementOf (φ n) = net.placementOf n := by
  obtain ⟨node, hnode⟩ := Option.isSome_iff_exists.1 hn
  obtain ⟨node', hnode', _⟩ := h.wiring n node hnode
  rw [placementOf_eq hnode', placementOf_eq hnode, (h.stored n node node' hnode hnode').2.1]

variable (defaults : net.SameDefaults φ net') (hw : net.WellFormed) (hw' : net'.WellFormed)
  {output : NodeId} (hc : net.contains output = true)
include defaults hw hw' hc

/-- A lineage keeps its order, the positions of its inputs and what is known of it. -/
theorem Isomorphic.entries_rename :
    List.Forall₂ (Entry.Renamed φ net) (net.entries output) (net'.entries (φ output)) := by
  have inside (n : NodeId) (hn : n ∈ net.lineage output) : net.contains n = true :=
    contains_of_mem_lineage hw.linked hw.acyclic hc hn
  rw [Net.entries, Net.entries, h.lineage_rename hw.linked hc]
  refine List.rel_filterMap (R := fun n m => n ∈ net.lineage output ∧ m = φ n) ?_ ?_
  · rintro n _ ⟨hn, rfl⟩
    obtain ⟨node, hnode⟩ := Option.isSome_iff_exists.1 (inside n hn)
    obtain ⟨node', hnode', _⟩ := h.wiring n node hnode
    dsimp only
    rw [hnode, hnode', Option.map_some, Option.map_some]
    refine .some ⟨hnode, h.node_renamed defaults hnode hnode', rfl, ?_, ?_⟩
    · exact h.idxOf?_inputs (fun _ => h.placementOf_rename) (inside n hn)
    · have grounded := grounded_lineage hw'.linked (φ output)
      rw [h.lineage_rename hw.linked hc] at grounded
      rw [Bool.eq_iff_iff, List.contains_iff_mem, List.contains_iff_mem,
        mem_knownAmong hw'.linked.noDangling grounded,
        mem_knownAmong hw.linked.noDangling (grounded_lineage hw.linked output),
        h.known_rename hw.linked.noDangling (inside n hn),
        and_iff_right (List.mem_map_of_mem hn), and_iff_right hn]
  · rw [List.forall₂_map_right_iff, List.forall₂_same]
    exact fun n hn => ⟨hn, rfl⟩

end Isomorphic
end Net
end Patchbay
