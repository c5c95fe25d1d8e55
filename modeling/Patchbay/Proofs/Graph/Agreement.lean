import Patchbay.Generator
import Patchbay.Proofs.Graph.Reloadable

/-! # Attaching an edge and loading a document that has it

An edit judges one new edge by the graph before it, a load judges all edges of the finished graph.
They refuse the same cycles. They differ in what is known early, since the new edge itself makes the
inputs behind its producer known, and in what is measured, since a load measures all producers again
and the edge may have changed their lengths.
-/

namespace Patchbay
open Relation

section
variable [Platform]

def Document.fill (document : Document) (index slot producer : Nat) : Document :=
  document.modify index fun r => { r with inputs := r.inputs.set slot producer }

namespace Net
variable {net net' : Net} {n p q c : NodeId} {slot s : Nat}

/-! ### The document with the new edge -/

theorem record_congr (h : net'.ids = net.ids) (node : Node) :
    net'.record node = net.record node := by
  have position : net'.position? = net.position? := by
    funext m
    rw [position?, h, position?]
  rw [record, position, record]

theorem record_feed (hp : net.contains p = true) (node : Node) (slot : Nat) :
    net.record { node with
      inlets := node.inlets.modify slot fun inlet => { inlet with source := some p } } =
    { net.record node with
      inputs := (net.record node).inputs.set slot (net.ids.idxOf p) } := by
  have inputs : (node.inlets.modify slot fun inlet => { inlet with source := some p }).map
      (fun inlet => (inlet.source.bind net.position?).elim (-1) Int.ofNat) =
      (node.inlets.map fun inlet => (inlet.source.bind net.position?).elim (-1) Int.ofNat).set slot
        (net.ids.idxOf p : Int) := by
    refine List.ext_getElem (by simp) fun i _ _ => ?_
    rw [List.getElem_map, List.getElem_modify, List.getElem_set, List.getElem_map]
    split
    · rw [Option.bind_some, position?_eq hp]
      rfl
    · rfl
  have defaults : (node.operator.slots.zip
      (node.inlets.modify slot fun inlet => { inlet with source := some p })).map
        (fun x => x.2.default.literal x.1.kind) =
      (node.operator.slots.zip node.inlets).map fun x => x.2.default.literal x.1.kind := by
    refine List.ext_getElem (by simp) fun i _ _ => ?_
    rw [List.getElem_map, List.getElem_map, List.getElem_zip, List.getElem_zip,
      List.getElem_modify]
    split <;> rfl
  rw [record, record, inputs, Node.sockets, defaults]
  rfl

section Open
variable (vacant : net.source? n slot = none)
include vacant

theorem record_setSource (hp : net.contains p = true) (m : NodeId) :
    ((net.setSource n slot (some p)).node? m).map net.record = (net.node? m).map fun node =>
      if n = m then { net.record node with
        inputs := (net.record node).inputs.set slot (net.ids.idxOf p) }
      else net.record node := by
  have linked : ((net.setSource n slot (some p)).node? m).map net.record =
      ((net.feed n slot (some p)).node? m).map net.record := by
    rw [setSource, vacant]
    exact view_modify (by exact fun _ => rfl) _ p m
  rw [linked, feed, node?_modify]
  split
  · rw [Option.map_map]
    exact congrArg (Option.map · _) (funext fun node => record_feed hp node slot)
  · rfl

theorem document_setSource (hn : net.contains n = true) (hp : net.contains p = true) :
    (net.setSource n slot (some p)).document =
      net.document.fill (net.ids.idxOf n) slot (net.ids.idxOf p) := by
  apply List.ext_getElem?
  intro i
  rw [Document.fill, List.getElem?_modify]
  rcases Nat.lt_or_ge i net.ids.length with bound | bound
  · obtain ⟨m, hm, rfl⟩ : ∃ m, net.contains m = true ∧ net.ids.idxOf m = i :=
      ⟨net.ids[i], mem_ids.1 (List.getElem_mem bound), net.nodup_ids.idxOf_getElem i bound⟩
    have there : (net.setSource n slot (some p)).contains m = true := by rwa [contains_setSource]
    obtain ⟨node, hnode⟩ := Option.isSome_iff_exists.1 hm
    obtain ⟨node', hnode'⟩ := Option.isSome_iff_exists.1 there
    have found := getElem?_document hnode'
    have filled := record_setSource vacant hp m
    rw [hnode', hnode, Option.map_some, Option.map_some, Option.some.injEq] at filled
    rw [ids_setSource, record_congr (ids_setSource _ _ _ _), filled] at found
    rw [found, getElem?_document hnode]
    simp only [List.idxOf_inj (mem_ids.2 hn)]
    split <;> rfl
  · rw [List.getElem?_eq_none, List.getElem?_eq_none]
    · rfl
    · rwa [length_document]
    · rwa [length_document, ids_setSource]

/-! ### What the new edge changes -/

theorem source?_setSource_of_source? (h : net.source? c s = some q) :
    (net.setSource n slot (some p)).source? c s = some q := by
  refine (source?_setSource net n slot (some p) ⟨c, s⟩).trans ?_
  rw [if_neg, h]
  intro he
  obtain ⟨rfl, rfl⟩ := Port.mk.inj he
  rw [vacant] at h
  cases h

theorem upstream_setSource (h : ReflTransGen net.Feeds q c) :
    ReflTransGen (net.setSource n slot (some p)).Feeds q c :=
  ReflTransGen.mono (fun _ _ ⟨s, hs⟩ => ⟨s, source?_setSource_of_source? vacant hs⟩) q c h

theorem Urgent.setSource (h : net.Urgent c s) : (net.setSource n slot (some p)).Urgent c s := by
  have operator (m : NodeId) := operator?_setSource net n slot (some p) m
  refine h.imp (fun early => ?_) fun demanded => ?_
  · rw [slot?, operator]
    exact early
  · exact demanded.mono fun d t q hs =>
      ⟨source?_setSource_of_source? vacant hs, (operator d).symm⟩

omit vacant in
theorem source?_setSource_self (hi : (net.inlet? n slot).isSome) :
    (net.setSource n slot (some p)).source? n slot = some p := by
  obtain ⟨inlet, hi⟩ := Option.isSome_iff_exists.1 hi
  refine (source?_setSource net n slot (some p) ⟨n, slot⟩).trans ?_
  rw [if_pos rfl, hi]
  rfl

omit vacant in
/-- An edge into `n` is no part of a path that starts there, whatever its slot reads afterwards. -/
theorem path_setSource (acyclic : net.Acyclic) (path : ReflTransGen net.Feeds n q) :
    ReflTransGen (net.setSource n slot (some p)).Feeds n q := by
  induction path with
  | refl => exact .refl
  | @tail b c path last ih =>
    obtain ⟨s, hs⟩ := last
    refine ih.tail ⟨s, (source?_setSource net n slot (some p) ⟨c, s⟩).trans ?_⟩
    rw [if_neg, hs]
    intro he
    obtain ⟨rfl, -⟩ := Port.mk.inj he
    exact acyclic c (TransGen.tail' path ⟨s, hs⟩)

variable (hw : net.WellFormed) (hi : (net.inlet? n slot).isSome) (hp : net.contains p = true)
include hw hi hp

omit vacant in
theorem wellFormed_setSource (path : ¬ReflTransGen net.Feeds n p) :
    (net.setSource n slot (some p)).WellFormed := by
  apply hw.setSource
  intro q hq
  cases hq
  exact ⟨hi, hp, path⟩

omit vacant in
theorem acyclic_setSource_iff :
    (net.setSource n slot (some p)).Acyclic ↔ ¬ReflTransGen net.Feeds n p := by
  constructor
  · intro acyclic path
    have edge : (net.setSource n slot (some p)).Feeds p n :=
      ⟨slot, source?_setSource_self hi⟩
    exact acyclic n (TransGen.tail' (path_setSource hw.acyclic path) edge)
  · intro path
    exact (wellFormed_setSource hw hi hp path).acyclic

/-- With a new edge all values come in time exactly when a value that is needed early through the
edge depends on nothing that has to run in every block. -/
theorem timely_setSource_iff (punctual : net.Punctual) (rooted : net.Rooted)
    (path : ¬ReflTransGen net.Feeds n p) : (net.setSource n slot (some p)).Timely ↔
      (net.Urgent n slot → net.Still p) := by
  have wellFormed := wellFormed_setSource hw hi hp path
  have operator (m : NodeId) := operator?_setSource net n slot (some p) m
  constructor
  · intro timely urgent m op up ho
    have early := (timely_iff wellFormed).1 timely n slot p
      (source?_setSource_self hi) (urgent.setSource vacant)
    have rooted' : (net.setSource n slot (some p)).Rooted := fun m op ho => by
      rw [operator] at ho
      exact rooted m op ho
    exact rooted'.still wellFormed.toWired early m op (upstream_setSource vacant up)
      ((operator m).trans ho)
  · intro still
    exact (punctual.attach_still still).timely wellFormed

end Open
end Net

namespace Graph
variable {placed : Operator → Prop} {g : Graph} {catalog : Catalog} {n p : NodeId} {slot : Nat}

section Rules
variable (hg : g.Reachable placed)
  (regular : ∀ op, placed op → op.isInput = true → op.slots = [] ∧ op.live = false)
  (hi : (g.net.inlet? n slot).isSome) (hp : g.net.contains p = true)
include hg regular hi hp

theorem attach_iff : (∃ e, g.attach n slot p = .ok e) ↔
    ¬ReflTransGen g.net.Feeds n p ∧
    (g.net.Urgent n slot → g.net.Still p ∧ ((g.net.operator? p).any Operator.isInput = true ∨
      ∀ m op, ReflTransGen g.net.Feeds m p → g.net.operator? m = some op → op.isInput = true →
        g.net.Demanded m)) ∧
    g.net.LengthFits n slot p := by
  have wellFormed := hg.wellFormed
  have rooted := hg.rooted regular
  have accepted : (∃ e, g.attach n slot p = .ok e) ↔ g.net.checkEdge n slot p = .ok () := by
    simp [attach_eq_ok]
  rw [accepted, Net.checkEdge_eq_ok_iff wellFormed, Net.inTime_edge_iff wellFormed hi hp,
    Net.known_iff wellFormed rooted hp]
  have still := rooted.still (n := p) wellFormed.toWired
  tauto

theorem load_fill_iff (vacant : g.net.source? n slot = none)
    (held : ∀ n op, g.net.operator? n = some op → catalog.find? op.id = some op) (id : GraphId) :
    (∃ g', ofDocument id (g.net.document.fill (g.net.ids.idxOf n) slot (g.net.ids.idxOf p))
      catalog = .ok g') ↔
    ¬ReflTransGen g.net.Feeds n p ∧ (g.net.Urgent n slot → g.net.Still p) ∧
      (g.net.setSource n slot (some p)).rounded.resolve.Measured := by
  have wellFormed := hg.wellFormed
  have live : g.net.contains n = true := by
    obtain ⟨_, hi⟩ := Option.isSome_iff_exists.1 hi
    obtain ⟨node, hn, _⟩ := Option.bind_eq_some_iff.1 hi
    exact Option.isSome_of_eq_some hn
  have wired : (g.net.setSource n slot (some p)).Wired :=
    wellFormed.toWired.setSource fun q hq => Option.some.inj hq ▸ ⟨hi, hp⟩
  rw [← Net.document_setSource vacant live hp, loads_iff, Net.exists_ofDocument_iff wired,
    Net.acyclic_setSource_iff wellFormed hi hp]
  · refine and_congr_right fun path => and_congr_left fun _ => ?_
    exact Net.timely_setSource_iff vacant wellFormed hi hp (hg.punctual regular)
      (hg.rooted regular) path
  · intro m op ho
    rw [Net.operator?_setSource] at ho
    exact held m op ho

/-- For an edge into an open slot, the edit and the load of the document with this edge agree
exactly when they do where both could still accept it: where it closes no cycle, and a value that is
needed early through it depends on nothing that has to run in every block. There the edit asks that
the inputs upstream of such a producer are known already and that the producer fits the slot, and
the load asks that afterwards all lengths fit. -/
theorem attach_iff_load_iff (vacant : g.net.source? n slot = none)
    (held : ∀ n op, g.net.operator? n = some op → catalog.find? op.id = some op) (id : GraphId) :
    ((∃ e, g.attach n slot p = .ok e) ↔ ∃ g', ofDocument id
      (g.net.document.fill (g.net.ids.idxOf n) slot (g.net.ids.idxOf p)) catalog = .ok g') ↔
    (¬ReflTransGen g.net.Feeds n p → (g.net.Urgent n slot → g.net.Still p) →
      ((g.net.Urgent n slot → (g.net.operator? p).any Operator.isInput = true ∨
        ∀ m op, ReflTransGen g.net.Feeds m p → g.net.operator? m = some op → op.isInput = true →
          g.net.Demanded m) ∧ g.net.LengthFits n slot p ↔
        (g.net.setSource n slot (some p)).rounded.resolve.Measured)) := by
  rw [attach_iff hg regular hi hp, load_fill_iff hg regular hi hp vacant held]
  constructor
  · intro agree path still
    constructor
    · rintro ⟨inputs, fits⟩
      exact (agree.1 ⟨path, fun urgent => ⟨still urgent, inputs urgent⟩, fits⟩).2.2
    · intro measured
      obtain ⟨_, early, fits⟩ := agree.2 ⟨path, still, measured⟩
      exact ⟨fun urgent => (early urgent).2, fits⟩
  · intro rules
    constructor
    · rintro ⟨path, early, fits⟩
      have still := fun urgent => (early urgent).1
      exact ⟨path, still, (rules path still).1 ⟨fun urgent => (early urgent).2, fits⟩⟩
    · rintro ⟨path, still, measured⟩
      obtain ⟨inputs, fits⟩ := (rules path still).2 measured
      exact ⟨path, fun urgent => ⟨still urgent, inputs urgent⟩, fits⟩

end Rules

end Graph

end

namespace Graph

/-- Of an input that feeds a count, both say that its value comes early and that it is one cell. -/
theorem attach_iff_load_counted : ∃ g : Graph, assembled [2, 44] [] = some g ∧
    ((∃ e, g.attach 1 1 0 = .ok e) ↔ ∃ g', ofDocument 1
      (g.net.document.fill (g.net.ids.idxOf 1) 1 (g.net.ids.idxOf 0)) Builtin.catalog =
        .ok g') := by
  have computed : ((assembled [2, 44] []).bind fun g =>
      let after := (g.net.setSource 1 1 (some 0)).rounded.resolve
      (after.edges.foldlM after.checkFixedLength []).toOption.filter fun _ =>
        g.net.source? 1 1 == none && (g.net.inlet? 1 1).isSome && g.net.contains 0 &&
          (g.net.operator? 0).any Operator.isInput &&
          g.net.slot? 1 1 == some (Builtin.countSlot "n") &&
          (g.net.probe 0).toOption == some 1).isSome = true := by cbv
  obtain ⟨found, hr⟩ := Option.isSome_iff_exists.1 computed
  obtain ⟨g, hg, hr⟩ := Option.bind_eq_some_iff.1 hr
  obtain ⟨hm, hr⟩ := Option.filter_eq_some_iff.1 hr
  simp only [Bool.and_eq_true, beq_iff_eq] at hr
  obtain ⟨⟨⟨⟨⟨vacant, inlet⟩, live⟩, input⟩, slot⟩, length⟩ := hr
  have reachable := reachable_assembled hg
  have fits : g.net.LengthFits 1 1 0 := by
    intro s hs _
    cases slot.symm.trans hs
    exact toOption_eq_some.1 length
  refine ⟨g, hg, (attach_iff_load_iff reachable
    (fun op hop => (Builtin.regular_of_mem (Builtin.mem_operators hop)).1.input) inlet live vacant
    (fun n op ho => Builtin.find?_catalog (reachable.operator_placed ho)) 1).2 fun _ _ => ?_⟩
  exact iff_of_true ⟨fun _ => .inl input, fits⟩
    (Net.measured_iff.2 ⟨found, toOption_eq_some.1 hm⟩)

/-- They disagree both ways. The input behind a rounding becomes known only by the edge that makes
it count, so the edit refuses the edge and the load takes it. Two literals behind a rounding that
starts a range are seen by the load alone. -/
theorem attach_not_iff_load :
    (∃ g g₁ g₂ : Graph, assembled [2, 51, 44] [⟨0, 1, 0⟩] = some g ∧
      ofDocument 1 g.net.document Builtin.catalog = .ok g₁ ∧
      g.attach 2 1 1 = .error (.compileTimeRequired 2 1 1) ∧
      ofDocument 2 (g.net.document.fill (g.net.ids.idxOf 2) 1 (g.net.ids.idxOf 1))
        Builtin.catalog = .ok g₂) ∧
    ∃ (g g₁ : Graph) (e : Edited), ((assembled [13, 51, 43] [⟨1, 2, 0⟩]).bind fun g =>
        (g.setText 0 "values" "1,2").toOption) = some g ∧
      ofDocument 1 g.net.document Builtin.catalog = .ok g₁ ∧
      g.attach 1 0 0 = .ok e ∧
      ofDocument 2 (g.net.document.fill (g.net.ids.idxOf 1) 0 (g.net.ids.idxOf 0))
        Builtin.catalog = .error (.lengthMismatch 2 0 1 1 2) := by
  constructor
  · have computed : ((assembled [2, 51, 44] [⟨0, 1, 0⟩]).bind fun g =>
        (ofDocument 1 g.net.document Builtin.catalog).toOption.bind fun _ =>
          (ofDocument 2 (g.net.document.fill (g.net.ids.idxOf 2) 1 (g.net.ids.idxOf 1))
            Builtin.catalog).toOption.filter fun _ =>
              failure? (g.attach 2 1 1) == some (.compileTimeRequired 2 1 1)).isSome = true := by
      cbv
    obtain ⟨g₂, hr⟩ := Option.isSome_iff_exists.1 computed
    obtain ⟨g, hg, hr⟩ := Option.bind_eq_some_iff.1 hr
    obtain ⟨g₁, loaded, hr⟩ := Option.bind_eq_some_iff.1 hr
    obtain ⟨filled, refused⟩ := Option.filter_eq_some_iff.1 hr
    exact ⟨g, g₁, g₂, hg, toOption_eq_some.1 loaded, failure?_eq_some.1 (eq_of_beq refused),
      toOption_eq_some.1 filled⟩
  · have computed : (((assembled [13, 51, 43] [⟨1, 2, 0⟩]).bind fun g =>
        (g.setText 0 "values" "1,2").toOption).bind fun g =>
          (ofDocument 1 g.net.document Builtin.catalog).toOption.bind fun _ =>
            (g.attach 1 0 0).toOption.filter fun _ =>
              failure? (ofDocument 2 (g.net.document.fill (g.net.ids.idxOf 1) 0
                (g.net.ids.idxOf 0)) Builtin.catalog) ==
                some (.lengthMismatch 2 0 1 1 2)).isSome = true := by cbv
    obtain ⟨e, hr⟩ := Option.isSome_iff_exists.1 computed
    obtain ⟨g, hg, hr⟩ := Option.bind_eq_some_iff.1 hr
    obtain ⟨g₁, loaded, hr⟩ := Option.bind_eq_some_iff.1 hr
    obtain ⟨attached, refused⟩ := Option.filter_eq_some_iff.1 hr
    exact ⟨g, g₁, e, hg, toOption_eq_some.1 loaded, toOption_eq_some.1 attached,
      failure?_eq_some.1 (eq_of_beq refused)⟩

end Graph
end Patchbay
