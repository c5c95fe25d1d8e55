import Patchbay.Generator
import Patchbay.Proofs.Graph.Agreement

/-! # Taking an edge back

The stored kinds follow from the nodes and the edges, and the ports that read a node follow from the
sources of all slots. So a net that stores settled kinds is told from its nodes without their edges
and from the sources of the slots. A slot that gets back what it had leaves nothing behind.
-/

namespace Patchbay

section
variable [Platform]

def Node.loose (node : Node) : Node :=
  { node with
    inlets := node.inlets.map fun inlet => { inlet with source := none }
    outlets := []
    kind := none }

theorem Node.eq_of_loose {node node' : Node} (loose : node'.loose = node.loose)
    (sources : node'.inlets.map (·.source) = node.inlets.map (·.source))
    (outlets : node'.outlets = node.outlets) (kind : node'.kind = node.kind) : node' = node := by
  obtain ⟨op, inlets, outlets₁, kind₁, lengths, config, placement⟩ := node
  obtain ⟨op', inlets', outlets₂, kind₂, lengths', config', placement'⟩ := node'
  obtain rfl : outlets₂ = outlets₁ := outlets
  obtain rfl : kind₂ = kind₁ := kind
  simp only [Node.loose, Node.mk.injEq] at loose
  obtain ⟨rfl, defaults, -, -, rfl, rfl, rfl⟩ := loose
  have same : inlets' = inlets := by
    apply List.ext_getElem?
    intro i
    have default := congrArg (·[i]?) defaults
    have source := congrArg (·[i]?) sources
    simp only [List.getElem?_map] at default source
    cases hi : inlets[i]? with
    | none => simpa [hi] using source
    | some inlet =>
      rw [hi] at default source
      obtain ⟨inlet', hi', source⟩ := Option.map_eq_some_iff.1 source
      rw [hi', Option.map_some, Option.map_some, Option.some.injEq, Inlet.mk.injEq] at default
      rw [hi', Option.some.injEq]
      cases inlet
      cases inlet'
      exact Inlet.mk.injEq .. ▸ ⟨source, default.2⟩
  rw [same]

namespace Net
variable {net net' : Net} {n p : NodeId} {slot : Nat}

theorem loose_setSource (net : Net) (n : NodeId) (slot : Nat) (source : Option NodeId)
    (m : NodeId) :
    ((net.setSource n slot source).node? m).map Node.loose = (net.node? m).map Node.loose := by
  refine view_setSource (fun node slot source => ?_) (fun _ _ => rfl) net n slot source m
  have defaults : (node.inlets.modify slot fun inlet => { inlet with source }).map
      (fun inlet => { inlet with source := none }) =
      node.inlets.map fun inlet => { inlet with source := none } := by
    apply List.ext_getElem?
    intro i
    simp only [List.getElem?_map, List.getElem?_modify]
    cases node.inlets[i]? with
    | none => rfl
    | some inlet => by_cases hi : slot = i <;> simp [hi]
  rw [Node.loose, defaults, Node.loose]

theorem loose_resolve (net : Net) (m : NodeId) :
    (net.resolve.node? m).map Node.loose = (net.node? m).map Node.loose := by
  rw [resolve, withKinds, node?_mapIdx, Option.map_map]
  rfl

theorem Resolved.eq_of_source? (hr : net.Resolved) (hr' : net'.Resolved) (hw : net.Wired)
    (hw' : net'.Wired) (size : net'.nodes.size = net.nodes.size)
    (loose : ∀ n, (net'.node? n).map Node.loose = (net.node? n).map Node.loose)
    (sources : ∀ n slot, net'.source? n slot = net.source? n slot) : net' = net := by
  have contains (n : NodeId) : net'.contains n = net.contains n := by
    rw [Net.contains, ← Option.isSome_map (f := Node.loose), loose, Option.isSome_map, Net.contains]
  have operators (n : NodeId) : net'.operator? n = net.operator? n := by
    have view (net : Net) : net.operator? n = ((net.node? n).map Node.loose).map Node.operator := by
      rw [operator?, Option.map_map]
      rfl
    rw [view, loose, ← view]
  have renamed : net.Renamed id net' :=
    renamed_of_source? hw hw' (fun m hm => ⟨m, (contains m).symm.trans hm, rfl⟩)
      (fun _ _ _ _ hab => hab) (fun n slot _ => by rw [Option.map_id]; exact sources n slot)
      fun n _ => operators n
  have count : net'.count = net.count := by
    rw [hw.count, hw'.count, length_live_eq, length_live_eq, size]
    exact List.countP_congr fun n _ => by rw [contains]
  refine eq_of_node? size count fun n => ?_
  cases hnode : net.node? n with
  | none =>
    have gone := loose n
    rw [hnode] at gone
    exact Option.map_eq_none_iff.1 gone
  | some node =>
    have hn : net.contains n = true := Option.isSome_of_eq_some hnode
    obtain ⟨node', hnode', -, inlets, outlets⟩ := renamed.wiring n node hnode
    have kind := renamed.kind?_rename hw.linked hr hr' hn
    have same := loose n
    rw [id] at hnode'
    rw [kind?, id, hnode', kind?, hnode] at kind
    rw [hnode, hnode'] at same
    rw [hnode', Option.some.injEq]
    refine Node.eq_of_loose (Option.some.inj same) ?_ ?_ kind
    · rw [inlets]
      exact List.map_congr_left fun inlet _ => congrFun Option.map_id _
    · rw [outlets]
      exact List.map_id _

theorem source?_resolve (net : Net) (n : NodeId) (slot : Nat) :
    net.resolve.source? n slot = net.source? n slot := by
  rw [source?_eq_wiring?, (sameWiring_resolve net).wiring, ← source?_eq_wiring?]

/-- A slot that is filled and then gets back what it had leaves the net as it was. -/
theorem setSource_back (hr : net.Resolved) (hw : net.Wired) (hi : (net.inlet? n slot).isSome)
    (hp : net.contains p = true) :
    ((net.setSource n slot (some p)).resolve.setSource n slot (net.source? n slot)).resolve =
      net := by
  let fed := (net.setSource n slot (some p)).resolve
  let back := fed.setSource n slot (net.source? n slot)
  have sizes : back.resolve.nodes.size = net.nodes.size := by
    rw [(sameWiring_resolve back).size, size_setSource, (sameWiring_resolve _).size, size_setSource]
  have loose (m : NodeId) :
      (back.resolve.node? m).map Node.loose = (net.node? m).map Node.loose := by
    rw [loose_resolve, loose_setSource, loose_resolve, loose_setSource]
  obtain ⟨_, inlet, hnode, hinlet, -⟩ :=
    exists_inlet_of_source? ((source?_resolve _ n slot).trans (source?_setSource_self hi))
  have there : fed.inlet? n slot = some inlet := by rw [inlet?, hnode, Option.bind_some, hinlet]
  have sources (m : NodeId) (s : Nat) : back.resolve.source? m s = net.source? m s := by
    rw [source?_resolve]
    refine (source?_setSource fed n slot _ ⟨m, s⟩).trans ?_
    split
    · rename_i he
      obtain ⟨rfl, rfl⟩ := Port.mk.inj he
      rw [there, Option.bind_some]
    · rename_i he
      rw [source?_resolve]
      exact (source?_setSource net n slot _ ⟨m, s⟩).trans (if_neg he)
  have wired : fed.Wired := by
    refine (hw.setSource fun q hq => ?_).of_sameWiring (sameWiring_resolve _)
    cases hq
    exact ⟨hi, hp⟩
  have restored : back.Wired := wired.setSource fun q hq => by
    refine ⟨Option.isSome_of_eq_some there, ?_⟩
    rw [(sameWiring_resolve _).contains, contains_setSource]
    exact hw.linked.noDangling q n ⟨slot, hq⟩
  exact hr.eq_of_source? (resolved_resolve restored.linked) hw
    (restored.of_sameWiring (sameWiring_resolve back)) sizes loose sources

end Net

namespace Graph
variable {placed : Operator → Prop} {g : Graph} {n p : NodeId} {slot : Nat}

theorem detach_of_source? (hs : g.net.source? n slot = some p) :
    g.detach n slot = .ok (g.edited (g.net.setSource n slot none) (.detached n slot)) := by
  obtain ⟨node, inlet, hnode, hinlet, source⟩ := Net.exists_inlet_of_source? hs
  rw [detach, hnode]
  dsimp only
  rw [hinlet]
  dsimp only
  rw [source]
  rfl

/-- An accepted edge can be taken back. If the slot was open, emptying it is accepted and gives the
graph that was there before, and if it had another producer, so does an accepted edge from that one.
It is the same graph as a whole, so the edges are the same in both directions, as are all kinds,
what is known and demanded early, and the document. -/
theorem attach_undone {e : Edited} (h : g.Reachable placed) (ha : g.attach n slot p = .ok e) :
    (g.net.source? n slot = none → e.graph.detach n slot =
      .ok ⟨g, if g.watched then some (.detached n slot) else none⟩) ∧
    ∀ q e', g.net.source? n slot = some q → e.graph.attach n slot q = .ok e' → e'.graph = g := by
  obtain ⟨checked, made⟩ := attach_eq_ok.1 ha
  obtain ⟨⟨hi, hp, -⟩, -⟩ := checkEdge_eq_ok h.wellFormed checked
  have back := Net.setSource_back h.resolved h.wellFormed.toWired hi hp
  have net : e.graph.net = (g.net.setSource n slot (some p)).resolve := by
    rw [made]
    rfl
  constructor
  · intro vacant
    have filled : e.graph.net.source? n slot = some p := by
      rw [net, Net.source?_resolve, Net.source?_setSource_self hi]
    rw [vacant] at back
    rw [detach_of_source? filled, edited, withNet, net, back, made]
    rfl
  · intro q e' held again
    obtain ⟨-, rfl⟩ := attach_eq_ok.1 again
    rw [held] at back
    rw [edited, withNet, net, back, made]
    rfl

end Graph

end

namespace Graph

/-- Two lists of literals and an output, which has no kind of its own. It takes one with its first
producer, keeps it with the second, and loses it with the edge. -/
theorem attach_undone_output : ∃ (g : Graph) (e rewired back : Edited),
    assembled [13, 13, 1] [] = some g ∧ g.attach 2 0 0 = .ok e ∧
      g.net.kind? 2 = some .any ∧ e.graph.net.kind? 2 = some .decimal ∧
      e.graph.detach 2 0 = .ok ⟨g, none⟩ ∧ e.graph.attach 2 0 1 = .ok rewired ∧
      rewired.graph.attach 2 0 0 = .ok back ∧ back.graph = e.graph := by
  have computed : ((assembled [13, 13, 1] []).bind fun g =>
      (g.attach 2 0 0).toOption.bind fun e =>
        (e.graph.attach 2 0 1).toOption.bind fun rewired =>
          (rewired.graph.attach 2 0 0).toOption.filter fun _ =>
            g.net.source? 2 0 == none && e.graph.net.source? 2 0 == some 0 && !g.watched &&
              g.net.kind? 2 == some .any &&
              e.graph.net.kind? 2 == some .decimal).isSome = true := by
    cbv
  obtain ⟨back, hr⟩ := Option.isSome_iff_exists.1 computed
  obtain ⟨g, hg, hr⟩ := Option.bind_eq_some_iff.1 hr
  obtain ⟨e, he, hr⟩ := Option.bind_eq_some_iff.1 hr
  obtain ⟨rewired, hw, hr⟩ := Option.bind_eq_some_iff.1 hr
  obtain ⟨hb, found⟩ := Option.filter_eq_some_iff.1 hr
  rw [toOption_eq_some] at he hw hb
  simp only [Bool.and_eq_true, beq_iff_eq, Bool.not_eq_true'] at found
  obtain ⟨⟨⟨⟨vacant, held⟩, unwatched⟩, before⟩, after⟩ := found
  have reachable := reachable_assembled hg
  have emptied := (attach_undone reachable he).1 vacant
  rw [unwatched] at emptied
  exact ⟨g, e, rewired, back, hg, he, before, after, emptied, hw, hb,
    (attach_undone (.step reachable (.attach he)) hw).2 0 back held hb⟩

end Graph
end Patchbay
