import Patchbay.Generator
import Patchbay.Proofs.Graph.Kinds
import Patchbay.Proofs.Plan.Folding
import Patchbay.Proofs.Plan.Renamed

/-! # Graphs that are saved and loaded

A document lists the live nodes in the order of their handles, and loading it gives them their
positions as handles. So the order stays, and all that is decided by the order of handles is decided
as before: the loaded graph is the saved one under other handles.
-/

namespace Patchbay

section
variable [Platform]

namespace Net
variable {net net' bare : Net} {catalog : Catalog} {n : NodeId} {node : Node}

/-! ### Positions -/

theorem getElem?_live (h : net.node? n = some node) :
    net.live[net.ids.idxOf n]? = some (n, node) := by
  have mem : n ∈ net.ids := mem_ids.2 (Option.isSome_of_eq_some h)
  have found := List.getElem?_idxOf mem
  rw [ids, List.getElem?_map] at found
  obtain ⟨⟨m, node'⟩, hm, rfl⟩ := Option.map_eq_some_iff.1 found
  cases h.symm.trans (mem_live.1 (List.mem_of_getElem? hm))
  exact hm

theorem position?_eq (hn : net.contains n = true) : net.position? n = some (net.ids.idxOf n) :=
  idxOf?_of_mem (mem_ids.2 hn)

theorem idxOf_ids_lt {a b : NodeId} (ha : net.contains a = true) (hb : net.contains b = true)
    (hab : a < b) : net.ids.idxOf a < net.ids.idxOf b := by
  have bound (m : NodeId) (hm : net.contains m = true) : net.ids.idxOf m < net.ids.length :=
    List.idxOf_lt_length_iff.2 (mem_ids.2 hm)
  by_contra hle
  have ordered := List.pairwise_iff_getElem.1 net.pairwise_ids (net.ids.idxOf b) (net.ids.idxOf a)
    (bound b hb) (bound a ha)
  rw [List.getElem_idxOf, List.getElem_idxOf] at ordered
  rcases Nat.lt_or_eq_of_le (Nat.not_lt.1 hle) with hlt | heq
  · exact Nat.lt_asymm hab (ordered hlt)
  · have same : net.ids[net.ids.idxOf b]? = net.ids[net.ids.idxOf a]? := by rw [heq]
    rw [List.getElem?_idxOf (mem_ids.2 hb), List.getElem?_idxOf (mem_ids.2 ha)] at same
    exact Nat.ne_of_gt hab (Option.some.inj same)

/-! ### Records -/

theorem getElem?_document (h : net.node? n = some node) :
    net.document[net.ids.idxOf n]? = some (net.record node) := by
  rw [document, List.getElem?_map, getElem?_live h, Option.map_some]

theorem length_document (net : Net) : net.document.length = net.ids.length := by
  rw [document, List.length_map, ids, List.length_map]

/-- What a record says about the producers of a live node is where they stand. -/
theorem producers_record (hs : net.NoDangling) (h : net.node? n = some node) {count index : Nat}
    {sources : List (Option NodeId)}
    (hp : (net.record node).producers count index = .ok sources) :
    sources = node.inlets.map (·.source.map net.ids.idxOf) := by
  rw [(Record.producers_eq_ok_iff.1 hp).2, record, List.map_map]
  refine List.map_congr_left fun inlet hm => ?_
  rw [Function.comp_apply]
  cases hsrc : inlet.source with
  | none => rfl
  | some p =>
    have live : net.contains p = true := by
      refine hs p n (mem_sources.1 ?_)
      rw [Net.sources, h]
      exact List.mem_filterMap.2 ⟨inlet, hm, hsrc⟩
    rw [Option.bind_some, position?_eq live, Option.elim_some, Option.map_some]
    exact if_neg (Int.not_lt.2 (Int.natCast_nonneg _))

/-! ### The loaded net -/

def settings? (net : Net) (n : NodeId) : Option (Operator × Config × Int) :=
  (net.node? n).map fun node => (node.operator, node.config, node.placement)

theorem operator?_eq_settings? (net : Net) (n : NodeId) :
    net.operator? n = (net.settings? n).map (·.1) := by
  rw [operator?, settings?, Option.map_map]
  rfl

theorem contains_eq_settings? (net : Net) (n : NodeId) :
    net.contains n = (net.settings? n).isSome := by
  rw [contains, settings?, Option.isSome_map]

section Loaded
variable (hs : net.NoDangling)
  (held : ∀ n op, net.operator? n = some op → catalog.find? op.id = some op)
  (h : ofRecords net.document catalog = .ok bare)
include hs held h

/-- The records of the live nodes become the nodes from 0 on, with the operators and edges of the
live nodes. -/
theorem ofRecords_document :
    (∀ m, bare.contains m = true ↔ m < net.ids.length) ∧
    ∀ n node, net.node? n = some node →
      bare.settings? (net.ids.idxOf n) = some (node.operator, node.config, node.placement) ∧
      ∀ slot, bare.source? (net.ids.idxOf n) slot = (net.source? n slot).map net.ids.idxOf := by
  obtain ⟨nodes, sources, rfl, read⟩ := ofRecords_eq_ok h
  have settings (m : NodeId) : ((ofNodes nodes).connect (edgesOf sources)).settings? m =
      (nodes[m]?).map fun node => (node.operator, node.config, node.placement) := by
    rw [settings?, view_connect (fun _ _ _ => rfl) (fun _ _ => rfl), node?_ofNodes]
  have count : nodes.length = net.ids.length := read.length_nodes.trans net.length_document
  refine ⟨fun m => ?_, fun n node hnode => ?_⟩
  · rw [contains_eq_settings?, settings, Option.isSome_map, isSome_getElem?, count]
  have bound : net.ids.idxOf n < net.ids.length :=
    List.idxOf_lt_length_iff.2 (mem_ids.2 (Option.isSome_of_eq_some hnode))
  have record := getElem?_document hnode
  refine ⟨?_, fun slot => ?_⟩
  · obtain ⟨node', hnode'⟩ : ∃ node', nodes[net.ids.idxOf n]? = some node' :=
      ⟨_, List.getElem?_eq_getElem (count ▸ bound)⟩
    obtain ⟨r, hr, hok⟩ := read.node _ _ hnode'
    cases hr.symm.trans record
    obtain ⟨operator, config, placement⟩ := Record.stored_of_node hok
    have known : catalog.find? node.operator.id = some node.operator :=
      held n node.operator (operator?_of_node? hnode)
    rw [settings, hnode', Option.map_some, config, placement,
      Option.some.inj (operator.symm.trans known)]
    rfl
  · obtain ⟨slots, hslots⟩ : ∃ slots, sources[net.ids.idxOf n]? = some slots := by
      rw [← length_document, ← read.length_sources] at bound
      exact ⟨_, List.getElem?_eq_getElem bound⟩
    obtain ⟨r, hr, hok⟩ := read.producers _ _ hslots
    cases hr.symm.trans record
    rw [read.source?_eq, hslots, producers_record hs hnode hok, Option.bind_some,
      List.getElem?_map, source?, inlet?, hnode, Option.bind_some]
    cases node.inlets[slot]? <;> rfl

end Loaded

theorem settings?_resolve (net : Net) (n : NodeId) : net.resolve.settings? n = net.settings? n := by
  rw [settings?, resolve, withKinds, node?_mapIdx, Option.map_map, settings?]
  rfl

/-- The records of a net make the same net under other handles, kinds and defaults aside. -/
theorem renamed_ofRecords (hw : net.Wired)
    (held : ∀ n op, net.operator? n = some op → catalog.find? op.id = some op)
    (h : ofRecords net.document catalog = .ok bare) : net.Renamed net.ids.idxOf bare := by
  obtain ⟨contains, nodes⟩ := ofRecords_document hw.linked.noDangling held h
  refine renamed_of_source? hw (wired_ofRecords h).1 (fun m hm => ?_)
    (fun a b => idxOf_ids_lt) (fun n slot hn => ?_) fun n hn => ?_
  · rw [contains] at hm
    exact ⟨net.ids[m], mem_ids.1 (List.getElem_mem hm), net.nodup_ids.idxOf_getElem m hm⟩
  · obtain ⟨node, hn⟩ := Option.isSome_iff_exists.1 hn
    exact (nodes n node hn).2 slot
  · obtain ⟨node, hn⟩ := Option.isSome_iff_exists.1 hn
    rw [operator?_eq_settings?, (nodes n node hn).1, operator?, hn]
    rfl

/-- With kinds settled and the same settings at the nodes, a renaming is an isomorphism. -/
theorem Renamed.isomorphic {φ : NodeId → NodeId} (h : net.Renamed φ net') (hl : net.Linked)
    (resolved : net.Resolved) (resolved' : net'.Resolved)
    (settings : ∀ n, net.contains n = true → net'.settings? (φ n) = net.settings? n) :
    net.Isomorphic φ net' := by
  refine ⟨h, fun n node node' hn hn' => ?_⟩
  have live : net.contains n = true := Option.isSome_of_eq_some hn
  have stored := settings n live
  rw [settings?, settings?, hn', hn, Option.map_some, Option.map_some, Option.some.injEq] at stored
  simp only [Prod.mk.injEq] at stored
  have kind := h.kind?_rename hl resolved resolved' live
  rw [kind?, hn', kind?, hn] at kind
  exact ⟨stored.2.1, stored.2.2, kind⟩

/-- A loaded net is the saved one under other handles. -/
theorem isomorphic_ofDocument (hw : net.WellFormed) (resolved : net.Resolved)
    (held : ∀ n op, net.operator? n = some op → catalog.find? op.id = some op)
    (h : Net.ofDocument net.document catalog = .ok net') :
    net.Isomorphic net.ids.idxOf net' ∧ net'.ids = List.range net.ids.length := by
  obtain ⟨bare, hr, _, _, _, rfl⟩ := ofDocument_eq_ok h
  have same := sameWiring_resolve bare
  have renamed := renamed_ofRecords hw.toWired held hr
  obtain ⟨contains, nodes⟩ := ofRecords_document hw.linked.noDangling held hr
  refine ⟨(renamed.trans same.renamed).isomorphic hw.linked resolved
    (resolved_resolve (wired_ofRecords hr).1.linked) fun n hn => ?_, ?_⟩
  · obtain ⟨node, hn⟩ := Option.isSome_iff_exists.1 hn
    rw [Function.comp_apply, id, settings?_resolve, (nodes n node hn).1, settings?, hn]
    rfl
  · refine ids_eq_of_mem List.pairwise_lt_range fun m => ?_
    rw [same.contains, contains, List.mem_range]

end Net

namespace Graph
variable {placed : Operator → Prop} {g g' : Graph} {catalog : Catalog} {id : GraphId}

/-- A graph with a history that is saved and loaded again, with a catalog that holds its operators,
is the same graph with the positions of the live nodes as handles: nodes have the same operators,
configurations, placements and kinds, slots have corresponding producers, nodes are read by
corresponding ports, and the inputs keep their order. Where open slots read the same as well, a node
is compiled to the same plan under these handles, or the compile fails for the same reason. -/
theorem isomorphic_reloaded (hg : g.Reachable placed)
    (held : ∀ n op, g.net.operator? n = some op → catalog.find? op.id = some op)
    (h : ofDocument id g.net.document catalog = .ok g') :
    g.net.Isomorphic g.net.ids.idxOf g'.net ∧
    g'.net.ids = List.range g.net.ids.length ∧
    g'.net.inputs = g.net.inputs.map g.net.ids.idxOf ∧
    (g.net.SameDefaults g.net.ids.idxOf g'.net →
      ∀ output, g.net.contains output = true → ∀ context context' externals,
        CompileError.Renamed g.net.ids.idxOf
          (fun x x' => x'.2.plan = x.2.plan.rename g.net.ids.idxOf g.net)
          (g.compile context output externals)
          (g'.compile context' (g.net.ids.idxOf output) externals)) := by
  obtain ⟨net, hn, rfl⟩ := ofDocument_eq_ok h
  have wellFormed := (Net.wellFormed_ofDocument hn).1
  obtain ⟨isomorphic, ids⟩ := Net.isomorphic_ofDocument hg.wellFormed hg.resolved held hn
  refine ⟨isomorphic, ids, isomorphic.inputs_rename fun _ => isomorphic.placementOf_rename,
    fun defaults output hc context context' externals => ?_⟩
  have compiled := isomorphic.compile defaults hg.wellFormed wellFormed hc externals
  unfold Graph.compile
  change CompileError.Renamed _ _ _ ((net.compile _ externals).map _)
  generalize g.net.compile output externals = x, net.compile _ externals = x' at compiled ⊢
  cases compiled with
  | ok he => exact .ok he
  | error cause => exact .error cause

end Graph

end

namespace Graph

/-- The graph of `sized` without its first node, and what is loaded after it is saved. -/
def compacted : Option (Graph × Graph) := do
  let whole ← (ofDocument 0 sized Builtin.catalog).toOption
  let rest ← (whole.remove 0).toOption
  let again ← (ofDocument 1 rest.graph.net.document Builtin.catalog).toOption
  return (rest.graph, again)

theorem reachable_compacted (h : compacted = some (g, g')) :
    g.Reachable (· ∈ Builtin.catalog.operators) ∧
      ofDocument 1 g.net.document Builtin.catalog = .ok g' := by
  unfold compacted at h
  simp only [Option.bind_eq_bind, Option.bind_eq_some_iff, toOption_eq_some, Option.pure_def,
    Option.some.injEq, Prod.mk.injEq] at h
  obtain ⟨whole, hw, rest, hr, again, ha, rfl, rfl⟩ := h
  exact ⟨.step (.loaded (fun _ hop => hop) hw) (.remove hr), ha⟩

/-- All handles go down by one, in the order of the inputs and in the plan. -/
theorem isomorphic_reloaded_compacted : ∃ (g g' : Graph) (compiled compiled' : Graph × Context),
    compacted = some (g, g') ∧ g.net.ids = [1, 2, 3, 4] ∧ g'.net.inputs = [0, 2] ∧
      g.compile 0 4 [[.ofInteger 2], [⟨5⟩]] = .ok compiled ∧
      g'.compile 0 3 [[.ofInteger 2], [⟨5⟩]] = .ok compiled' ∧
      compiled'.2.plan = compiled.2.plan.rename g.net.ids.idxOf g.net := by
  have computed : (compacted.bind fun (g, g') =>
      (g.compile 0 4 [[.ofInteger 2], [⟨5⟩]]).toOption.filter fun _ =>
        g.net.ids == [1, 2, 3, 4] && g.net.inputs == [1, 3] && g.net.ids.all fun n =>
          (g'.net.node? (g.net.ids.idxOf n)).map (·.inlets.map (·.default)) ==
            (g.net.node? n).map (·.inlets.map (·.default))).isSome = true := by cbv
  obtain ⟨compiled, hr⟩ := Option.isSome_iff_exists.1 computed
  obtain ⟨⟨g, g'⟩, hg, hr⟩ := Option.bind_eq_some_iff.1 hr
  obtain ⟨hc, hr⟩ := Option.filter_eq_some_iff.1 hr
  simp only [Bool.and_eq_true, beq_iff_eq, List.all_eq_true] at hr
  obtain ⟨⟨ids, inputs⟩, same⟩ := hr
  rw [toOption_eq_some] at hc
  obtain ⟨reachable, loaded⟩ := reachable_compacted hg
  have defaults : g.net.SameDefaults g.net.ids.idxOf g'.net := by
    intro n node node' hn hn'
    have equal := same n (Net.mem_ids.2 (Option.isSome_of_eq_some hn))
    rw [hn, hn', Option.map_some, Option.map_some, Option.some.injEq] at equal
    exact equal
  have live : g.net.contains 4 = true := by
    rw [← Net.mem_ids, ids]
    decide
  obtain ⟨_, _, order, compiles⟩ := isomorphic_reloaded reachable
    (fun n op ho => Builtin.find?_catalog (reachable.operator_placed ho)) loaded
  have main := compiles defaults 4 live 0 0 [[.ofInteger 2], [⟨5⟩]]
  rw [inputs] at order
  rw [hc] at main
  generalize hc' : g'.compile 0 (g.net.ids.idxOf 4) [[.ofInteger 2], [⟨5⟩]] = x at main
  cases main with
  | @ok _ compiled' he =>
    rw [ids] at order hc'
    exact ⟨g, g', compiled, compiled', hg, ids, order, hc, hc', he⟩

end Graph
end Patchbay
