import Patchbay.Net.Kinds
import Patchbay.Proofs.Net.Wiring

/-! # Well-formed nets

A net is well formed when both ends of every edge agree, every node has one inlet for each slot of
its operator, the count is that of the live nodes, and the edges close no cycle. Every unchecked
change keeps this under the condition that the checked edits test.
-/

namespace Patchbay
open Relation

variable [Platform]

omit [Platform] in
theorem eq_of_pairwise_lt {l l' : List Nat} (h : l.Pairwise (· < ·)) (h' : l'.Pairwise (· < ·))
    (mem : ∀ a, a ∈ l ↔ a ∈ l') : l = l' := by
  refine List.Perm.eq_of_pairwise (fun a b _ _ hab hba => ?_) h h' ?_
  · exact absurd hba (Nat.lt_asymm hab)
  · exact (List.perm_ext_iff_of_nodup (h.imp Nat.ne_of_lt) (h'.imp Nat.ne_of_lt)).2 mem

namespace Net
variable {net net' : Net} {n p : NodeId} {slot : Nat}

/-- The parts of a net agree with each other, whatever its edges are. -/
structure Wired (net : Net) : Prop where
  linked : net.Linked
  arity : ∀ n node, net.node? n = some node → node.inlets.length = node.operator.arity
  count : net.count = net.live.length

/-- What every edit keeps. -/
structure WellFormed (net : Net) : Prop extends net.Wired where
  acyclic : net.Acyclic

/-! ### The live nodes -/

theorem eq_of_node? (size : net'.nodes.size = net.nodes.size) (count : net'.count = net.count)
    (nodes : ∀ n, net'.node? n = net.node? n) : net' = net := by
  obtain ⟨slots, live⟩ := net
  obtain ⟨slots', live'⟩ := net'
  obtain rfl : live' = live := count
  congr 1
  refine Array.ext size fun n hn' hn => ?_
  have node := nodes n
  rw [node?, node?, Array.getElem?_eq_getElem hn', Array.getElem?_eq_getElem hn] at node
  exact node

theorem contains_of_operator? {op : Operator} (h : net.operator? n = some op) :
    net.contains n = true := by
  rw [contains, ← Option.isSome_map (f := Node.operator)]
  exact Option.isSome_of_eq_some h

theorem operator?_of_node? {node : Node} (h : net.node? n = some node) :
    net.operator? n = some node.operator := by
  rw [operator?, h]
  rfl

theorem exists_operator? (h : net.contains n = true) : ∃ op, net.operator? n = some op :=
  Option.isSome_iff_exists.1 (Option.isSome_map.trans h)

theorem mem_live {node : Node} : (n, node) ∈ net.live ↔ net.node? n = some node := by
  simp only [live, List.mem_filterMap, Prod.exists, List.mem_zipIdx_iff_getElem?,
    Option.map_eq_some_iff, Prod.mk.injEq, Array.getElem?_toList, node?, Option.join_eq_some_iff]
  constructor
  · rintro ⟨_, k, h, _, rfl, rfl, rfl⟩
    exact h
  · exact fun h => ⟨some node, n, h, node, rfl, rfl, rfl⟩

theorem mem_ids : n ∈ net.ids ↔ net.contains n = true := by
  simp only [ids, List.mem_map, Prod.exists, exists_and_right, exists_eq_right, mem_live, contains,
    Option.isSome_iff_exists]

/-- The live nodes are listed with their handles in ascending order. -/
theorem pairwise_ids (net : Net) : net.ids.Pairwise (· < ·) := by
  have indices (nodes : List (Option Node)) (k : Nat) :
      List.Sublist (((nodes.zipIdx k).filterMap fun x => x.1.map (x.2, ·)).map (·.1))
        (List.range' k nodes.length) := by
    induction nodes generalizing k with
    | nil => simp
    | cons node nodes ih =>
      rw [List.zipIdx_cons, List.length_cons, List.range'_succ]
      cases node with
      | none => exact (ih (k + 1)).cons k
      | some node => exact (ih (k + 1)).cons_cons k
  exact List.Pairwise.sublist (indices net.nodes.toList 0) List.pairwise_lt_range'

theorem ids_eq_of_mem {l : List NodeId} (sorted : l.Pairwise (· < ·))
    (mem : ∀ m, net.contains m = true ↔ m ∈ l) : net.ids = l :=
  eq_of_pairwise_lt net.pairwise_ids sorted fun m => mem_ids.trans (mem m)

theorem ids_setSource (net : Net) (n : NodeId) (slot : Nat) (source : Option NodeId) :
    (net.setSource n slot source).ids = net.ids :=
  ids_eq_of_mem net.pairwise_ids fun m => by rw [contains_setSource, mem_ids]

theorem nodup_ids (net : Net) : net.ids.Nodup := net.pairwise_ids.imp Nat.ne_of_lt

theorem length_live (net : Net) :
    net.live.length = net.nodes.toList.countP Option.isSome := by
  have offset (nodes : List (Option Node)) (k : Nat) :
      ((nodes.zipIdx k).filterMap fun x => x.1.map (x.2, ·)).length =
        nodes.countP Option.isSome := by
    induction nodes generalizing k with
    | nil => rfl
    | cons node nodes ih =>
      rw [List.zipIdx_cons, List.countP_cons, ← ih (k + 1)]
      cases node <;> rfl
  exact offset net.nodes.toList 0

/-- How many nodes are live depends on the size and on which handles are live. -/
theorem length_live_eq (net : Net) :
    net.live.length = (List.range net.nodes.size).countP net.contains := by
  rw [length_live, ← Array.length_toList]
  refine (countP_range_getElem? (fun node : Option (Option Node) => node.join.isSome) _).symm.trans
    (List.countP_congr fun n _ => ?_)
  rw [Array.getElem?_toList, contains, node?]

theorem lt_size_of_mem_ids (h : n ∈ net.ids) : n < net.nodes.size :=
  lt_size_of_contains (mem_ids.1 h)

/-! ### Changes that touch no edge -/

def wiring? (net : Net) (n : NodeId) : Option (Operator × List (Option NodeId) × List Port) :=
  (net.node? n).map fun node => (node.operator, node.inlets.map (·.source), node.outlets)

theorem source?_eq_wiring? (net : Net) (n : NodeId) (slot : Nat) :
    net.source? n slot = (net.wiring? n).bind fun w => (w.2.1[slot]?).join := by
  rw [source?, inlet?, wiring?]
  cases net.node? n with
  | none => rfl
  | some node =>
    simp only [Option.bind_some, Option.map_some, List.getElem?_map]
    cases node.inlets[slot]? <;> rfl

theorem outlets_eq_wiring? (net : Net) (n : NodeId) :
    net.outlets n = (net.wiring? n).elim [] (·.2.2) := by
  rw [outlets, wiring?]
  cases net.node? n <;> rfl

theorem contains_eq_wiring? (net : Net) (n : NodeId) :
    net.contains n = (net.wiring? n).isSome := by
  rw [contains, wiring?, Option.isSome_map]

/-- Two nets of the same nodes and edges. -/
structure SameWiring (net net' : Net) : Prop where
  size : net'.nodes.size = net.nodes.size
  count : net'.count = net.count
  wiring : ∀ n, net'.wiring? n = net.wiring? n

theorem sameWiring_refl (net : Net) : net.SameWiring net := ⟨rfl, rfl, fun _ => rfl⟩

theorem SameWiring.symm (h : net.SameWiring net') : net'.SameWiring net :=
  ⟨h.size.symm, h.count.symm, fun n => (h.wiring n).symm⟩

theorem SameWiring.feeds (h : net.SameWiring net') : net'.Feeds = net.Feeds := by
  funext p c
  simp only [Feeds, source?_eq_wiring?, h.wiring]

theorem SameWiring.contains (h : net.SameWiring net') (n : NodeId) :
    net'.contains n = net.contains n := by
  rw [contains_eq_wiring?, contains_eq_wiring?, h.wiring]

theorem SameWiring.ids (h : net.SameWiring net') : net'.ids = net.ids :=
  ids_eq_of_mem net.pairwise_ids fun n => by rw [h.contains, mem_ids]

theorem SameWiring.trans {net'' : Net} (h : net.SameWiring net') (h' : net'.SameWiring net'') :
    net.SameWiring net'' :=
  ⟨h'.size.trans h.size, h'.count.trans h.count, fun n => (h'.wiring n).trans (h.wiring n)⟩

theorem Wired.of_sameWiring (h : net.Wired) (hw : net.SameWiring net') : net'.Wired where
  linked := by
    refine ⟨fun n q => ?_, fun n => ?_⟩
    · rw [source?_eq_wiring?, outlets_eq_wiring?, hw.wiring, hw.wiring, ← source?_eq_wiring?,
        ← outlets_eq_wiring?]
      exact h.linked.outlets n q
    · rw [outlets_eq_wiring?, hw.wiring, ← outlets_eq_wiring?]
      exact h.linked.ordered n
  arity n node' hnode' := by
    have same := hw.wiring n
    rw [wiring?, wiring?, hnode', Option.map_some] at same
    obtain ⟨node, hnode, same⟩ := Option.map_eq_some_iff.1 same.symm
    simp only [Prod.mk.injEq] at same
    obtain ⟨hop, hin, _⟩ := same
    have len := congrArg List.length hin
    simp only [List.length_map] at len
    rw [← hop, ← len]
    exact h.arity n node hnode
  count := by
    have live : net'.live.length = net.live.length := by
      rw [length_live_eq, length_live_eq, hw.size]
      exact List.countP_congr fun n _ => by rw [hw.contains]
    rw [hw.count, h.count, live]

theorem WellFormed.of_sameWiring (h : net.WellFormed) (hw : net.SameWiring net') :
    net'.WellFormed where
  toWired := h.toWired.of_sameWiring hw
  acyclic := by
    unfold Acyclic
    rw [hw.feeds]
    exact h.acyclic

theorem sameWiring_modify {f : Node → Node}
    (h : ∀ node, (f node).operator = node.operator ∧
      (f node).inlets.map (·.source) = node.inlets.map (·.source) ∧ (f node).outlets = node.outlets)
    (net : Net) (n : NodeId) : net.SameWiring (net.modify n f) := by
  refine ⟨size_modify net n f, rfl, fun m => view_modify (fun node => ?_) net n m⟩
  obtain ⟨hop, hin, hout⟩ := h node
  rw [hop, hin, hout]

theorem node?_mapIdx (f : NodeId → Node → Node) (n : NodeId) :
    Net.node? { net with nodes := net.nodes.mapIdx fun n node => node.map (f n) } n =
      (net.node? n).map (f n) := by
  rw [node?, node?, Array.getElem?_mapIdx]
  cases net.nodes[n]? with
  | none => rfl
  | some node => cases node <;> rfl

theorem sameWiring_withKinds (net : Net) (settled : Settled) :
    net.SameWiring (net.withKinds settled) := by
  refine ⟨Array.size_mapIdx, rfl, fun n => ?_⟩
  rw [wiring?, withKinds, node?_mapIdx, Option.map_map, wiring?]
  rfl

theorem sameWiring_resolve (net : Net) : net.SameWiring net.resolve :=
  net.sameWiring_withKinds _

/-! ### New nodes -/

theorem node?_push (net : Net) (op : Operator) (n : NodeId) :
    (net.push op).node? n = if n = net.nodes.size then some op.node else net.node? n := by
  rw [node?, push, Array.getElem?_push]
  split <;> rfl

theorem node?_size (net : Net) : net.node? net.nodes.size = none := by
  rw [node?, Array.getElem?_eq_none (Nat.le_refl _)]
  rfl

theorem source?_push (net : Net) (op : Operator) (n : NodeId) (slot : Nat) :
    (net.push op).source? n slot = net.source? n slot := by
  rw [source?, inlet?, node?_push, source?, inlet?]
  split
  · rename_i hn
    subst hn
    rw [node?_size, Option.bind_some, Operator.node, List.getElem?_map]
    cases op.slots[slot]? <;> rfl
  · rfl

theorem outlets_push (net : Net) (op : Operator) (n : NodeId) :
    (net.push op).outlets n = net.outlets n := by
  rw [outlets, node?_push, outlets]
  split
  · rename_i hn
    subst hn
    rw [node?_size]
    rfl
  · rfl

theorem feeds_push (net : Net) (op : Operator) : (net.push op).Feeds = net.Feeds := by
  funext p c
  simp only [Feeds, source?_push]

theorem WellFormed.push (h : net.WellFormed) (op : Operator) : (net.push op).WellFormed where
  linked := by
    refine ⟨fun n q => ?_, fun n => ?_⟩
    · rw [outlets_push, source?_push]
      exact h.linked.outlets n q
    · rw [outlets_push]
      exact h.linked.ordered n
  arity n node hnode := by
    rw [node?_push] at hnode
    split at hnode
    · cases hnode
      simp [Operator.node, Operator.arity]
    · exact h.arity n node hnode
  count := by
    rw [length_live, Net.push, Array.toList_push, List.countP_append, ← length_live, h.count]
    rfl
  acyclic := by
    unfold Acyclic
    rw [feeds_push]
    exact h.acyclic

/-! ### Attaching, detaching and removing -/

theorem inlet?_isSome_iff (net : Net) (n : NodeId) (slot : Nat) :
    (net.inlet? n slot).isSome = ((net.frame? n).any fun f => slot < f.2) := by
  rw [inlet?, frame?]
  cases net.node? n with
  | none => rfl
  | some node =>
    rw [Option.bind_some, Option.map_some, Option.any_some, Bool.eq_iff_iff]
    simp

theorem slot?_isSome_iff (h : net.Wired) :
    (net.slot? n slot).isSome ↔ (net.inlet? n slot).isSome := by
  rw [slot?, operator?, inlet?]
  cases hn : net.node? n with
  | none => rfl
  | some node =>
    have len := h.arity n node hn
    simp only [Option.map_some, Option.bind_some, Operator.arity, isSome_getElem?] at len ⊢
    omega

theorem feeds_setSource (net : Net) (n : NodeId) (slot : Nat) (source : Option NodeId)
    {a b : NodeId} (h : (net.setSource n slot source).Feeds a b) :
    net.Feeds a b ∨ source = some a ∧ b = n := by
  obtain ⟨s, hs⟩ := h
  have := source?_setSource net n slot source ⟨b, s⟩
  rw [hs] at this
  split at this
  · rename_i hq
    cases hq
    obtain ⟨_, _, hsource⟩ := Option.bind_eq_some_iff.1 this.symm
    exact .inr ⟨hsource, rfl⟩
  · exact .inl ⟨s, this.symm⟩

theorem Wired.setSource (h : net.Wired) {source : Option NodeId}
    (hp : ∀ p, source = some p → (net.inlet? n slot).isSome ∧ net.contains p = true) :
    (net.setSource n slot source).Wired where
  linked := h.linked.setSource hp
  arity m node' hnode' := by
    have same := frame?_setSource net n slot source m
    rw [frame?, frame?, hnode', Option.map_some] at same
    obtain ⟨node, hnode, same⟩ := Option.map_eq_some_iff.1 same.symm
    simp only [Prod.mk.injEq] at same
    rw [← same.1, ← same.2]
    exact h.arity m node hnode
  count := by
    have live : (net.setSource n slot source).live.length = net.live.length := by
      rw [length_live_eq, length_live_eq, size_setSource]
      exact List.countP_congr fun m _ => by rw [contains_setSource]
    rw [count_setSource, h.count, live]

/-- Filling a slot from a live node that does not lie behind it, or emptying the slot. -/
theorem WellFormed.setSource (h : net.WellFormed) {source : Option NodeId}
    (hp : ∀ p, source = some p → (net.inlet? n slot).isSome ∧ net.contains p = true ∧
      ¬ReflTransGen net.Feeds n p) : (net.setSource n slot source).WellFormed where
  toWired := h.toWired.setSource fun p hs => ⟨(hp p hs).1, (hp p hs).2.1⟩
  acyclic := by
    cases source with
    | none =>
      apply h.acyclic.mono
      intro a b hab
      exact (feeds_setSource net n slot none hab).resolve_right fun he => nomatch he.1
    | some p =>
      apply h.acyclic.of_edge (hp p rfl).2.2
      intro a b hab
      rcases feeds_setSource net n slot (some p) hab with hab | ⟨ha, hb⟩
      · exact .inl hab
      · exact .inr ⟨(Option.some.inj ha).symm, hb⟩

theorem WellFormed.sever (h : net.WellFormed) (ports : List Port) :
    (net.sever ports).WellFormed := by
  induction ports generalizing net with
  | nil => exact h
  | cons q ports ih => exact ih (h.setSource fun p hp => nomatch hp)

theorem source?_sever (net : Net) (ports : List Port) (q : Port) :
    (net.sever ports).source? q.node q.slot =
      if q ∈ ports then none else net.source? q.node q.slot := by
  induction ports generalizing net with
  | nil => simp [sever]
  | cons r ports ih =>
    have step := source?_setSource net r.node r.slot none q
    rw [Net.sever, List.foldl_cons, ← Net.sever, ih, step]
    by_cases hq : q = r
    · cases net.inlet? r.node r.slot <;> simp [hq]
    · simp [hq]

theorem contains_sever (net : Net) (ports : List Port) (m : NodeId) :
    (net.sever ports).contains m = net.contains m := by
  induction ports generalizing net with
  | nil => rfl
  | cons r ports ih =>
    rw [Net.sever, List.foldl_cons, ← Net.sever, ih, contains_setSource]

theorem frame?_sever (net : Net) (ports : List Port) (m : NodeId) :
    (net.sever ports).frame? m = net.frame? m := by
  induction ports generalizing net with
  | nil => rfl
  | cons r ports ih => rw [Net.sever, List.foldl_cons, ← Net.sever, ih, frame?_setSource]

theorem size_sever (net : Net) (ports : List Port) :
    (net.sever ports).nodes.size = net.nodes.size := by
  induction ports generalizing net with
  | nil => rfl
  | cons r ports ih => rw [Net.sever, List.foldl_cons, ← Net.sever, ih, size_setSource]

/-- When the edges at a node are cut, no slot of it is attached and no slot is attached to it. -/
theorem source?_sever_portsOf (h : net.Linked) (n : NodeId) (q : Port) :
    (net.sever (net.portsOf n)).source? q.node q.slot =
      if q.node = n ∨ net.source? q.node q.slot = some n then none
      else net.source? q.node q.slot := by
  rw [source?_sever]
  by_cases ho : net.source? q.node q.slot = some n
  · have hq : q ∈ net.portsOf n := List.mem_append_right _ ((h.outlets n q).2 ho)
    rw [if_pos hq, if_pos (.inr ho)]
  · have hmem : q ∈ net.portsOf n ↔
        q.node = n ∧ q.slot < (net.node? n).elim 0 (·.inlets.length) := by
      obtain ⟨m, slot⟩ := q
      rw [portsOf, List.mem_append, h.outlets, or_iff_left ho]
      simp [List.mem_map, List.mem_range, and_comm, eq_comm]
    by_cases hn : q.node = n
    · have cut : q.node = n ∨ net.source? q.node q.slot = some n := .inl hn
      rw [if_pos cut]
      by_cases hq : q ∈ net.portsOf n
      · rw [if_pos hq]
      · -- A slot out of range is attached to nothing anyway.
        rw [if_neg hq]
        cases hs : net.source? q.node q.slot with
        | none => rfl
        | some p =>
          obtain ⟨node, inlet, hnode, hinlet, _⟩ := exists_inlet_of_source? hs
          rw [hn] at hnode
          refine absurd (hmem.2 ⟨hn, ?_⟩) hq
          rw [hnode]
          exact (List.getElem?_eq_some_iff.1 hinlet).choose
    · rw [if_neg (fun hq => hn (hmem.1 hq).1), if_neg (not_or.2 ⟨hn, ho⟩)]

theorem node?_vacate (net : Net) (n : NodeId) (count : Nat) (m : NodeId) :
    Net.node? ⟨net.nodes.setIfInBounds n none, count⟩ m =
      if m = n then none else net.node? m := by
  rw [node?, Array.getElem?_setIfInBounds, node?]
  by_cases hm : n = m
  · subst hm
    simp only [if_true]
    split <;> rfl
  · rw [if_neg hm, if_neg (Ne.symm hm)]

theorem node?_erase (net : Net) (n m : NodeId) :
    (net.erase n).node? m = if m = n then none else (net.sever (net.portsOf n)).node? m :=
  node?_vacate _ n _ m

theorem contains_erase (net : Net) (n m : NodeId) :
    (net.erase n).contains m = (decide (m ≠ n) && net.contains m) := by
  rw [← contains_sever net (net.portsOf n), contains, node?_erase, contains]
  by_cases hm : m = n <;> simp [hm]

theorem source?_erase (h : net.Linked) (n : NodeId) (q : Port) :
    (net.erase n).source? q.node q.slot =
      if q.node = n ∨ net.source? q.node q.slot = some n then none
      else net.source? q.node q.slot := by
  rw [← source?_sever_portsOf h, source?, inlet?, node?_erase, source?, inlet?]
  split
  · rename_i hq
    have cut := source?_sever_portsOf h n q
    rw [if_pos (.inl hq), source?, inlet?] at cut
    rw [cut]
    rfl
  · rfl

theorem outlets_erase (net : Net) (n m : NodeId) :
    (net.erase n).outlets m =
      if m = n then [] else (net.sever (net.portsOf n)).outlets m := by
  rw [outlets, node?_erase, outlets]
  split <;> rfl

theorem WellFormed.erase (h : net.WellFormed) (hn : net.contains n = true) :
    (net.erase n).WellFormed where
  linked := by
    have cut := (h.sever (net.portsOf n)).linked
    refine ⟨fun m q => ?_, fun m => ?_⟩
    · have source := source?_erase h.linked n q
      rw [outlets_erase]
      by_cases hm : m = n
      · rw [if_pos hm, source, hm]
        split <;> simp_all
      · rw [if_neg hm, cut.outlets, source, source?_sever_portsOf h.linked]
    · rw [outlets_erase]
      split
      · exact .nil
      · exact cut.ordered m
  arity m node hnode := by
    rw [node?_erase] at hnode
    split at hnode
    · cases hnode
    · exact (h.sever (net.portsOf n)).arity m node hnode
  count := by
    have cut := h.sever (net.portsOf n)
    have there : (net.sever (net.portsOf n)).contains n = true := by rw [contains_sever, hn]
    have bound : n < (net.sever (net.portsOf n)).nodes.toList.length := lt_size_of_contains there
    obtain ⟨node, hnode⟩ := Option.isSome_iff_exists.1 there
    rw [node?, Option.join_eq_some_iff, ← Array.getElem?_toList] at hnode
    obtain ⟨_, hnode⟩ := List.getElem?_eq_some_iff.1 hnode
    have live := cut.count
    rw [length_live] at live
    have pos : 0 < (net.sever (net.portsOf n)).nodes.toList.countP Option.isSome :=
      List.countP_pos_iff.2 ⟨some node, hnode ▸ List.getElem_mem bound, rfl⟩
    rw [length_live, Net.erase, Array.toList_setIfInBounds, List.countP_set bound, hnode, live]
    simp
  acyclic := by
    apply h.acyclic.mono
    intro a b hab
    obtain ⟨s, hs⟩ := hab
    have source := source?_erase h.linked n ⟨b, s⟩
    rw [hs] at source
    split at source
    · cases source
    · exact ⟨s, source.symm⟩

theorem wellFormed_empty : empty.WellFormed where
  linked := by
    refine ⟨fun n q => ?_, fun n => ?_⟩ <;> simp [outlets, source?, inlet?, node?, empty]
  arity n node hnode := by simp [node?, empty] at hnode
  count := rfl
  acyclic n hn := by
    obtain ⟨c, hc, _⟩ := TransGen.head'_iff.1 hn
    simp [Feeds, source?, inlet?, node?, empty] at hc

end Net
end Patchbay
