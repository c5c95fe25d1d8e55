import Patchbay.Proofs.Net.Demand
import Patchbay.Proofs.Net.Settled

/-! # Nets under other handles

A net is a renaming of another when its nodes are those of the other under handles that stand in the
same order, with the same edges. Two nets of the same nodes and edges are the case in which every
node keeps its handle. What is computed from the edges alone follows the renaming; the first example
is the kinds of the nodes.
-/

namespace Patchbay
open Relation

variable [Platform]

def Port.rename (φ : NodeId → NodeId) (p : Port) : Port := ⟨φ p.node, p.slot⟩

namespace Net

/-- `net'` is `net` under the handles that `φ` gives. -/
structure Renamed (φ : NodeId → NodeId) (net net' : Net) : Prop where
  exists_of_contains : ∀ m, net'.contains m = true → ∃ n, net.contains n = true ∧ φ n = m
  mono : ∀ a b, net.contains a = true → net.contains b = true → a < b → φ a < φ b
  wiring : ∀ n node, net.node? n = some node → ∃ node', net'.node? (φ n) = some node' ∧
    node'.operator = node.operator ∧
    node'.inlets.map (·.source) = node.inlets.map (·.source.map φ) ∧
    node'.outlets = node.outlets.map (Port.rename φ)

/-- `net'` is `net` under other handles, with the same stored at the nodes. What open slots read and
which lengths are remembered is left out. -/
structure Isomorphic (φ : NodeId → NodeId) (net net' : Net) : Prop extends
    Renamed φ net net' where
  stored : ∀ n node node', net.node? n = some node → net'.node? (φ n) = some node' →
    node'.config = node.config ∧ node'.placement = node.placement ∧ node'.kind = node.kind

def SameDefaults (φ : NodeId → NodeId) (net net' : Net) : Prop :=
  ∀ n node node', net.node? n = some node → net'.node? (φ n) = some node' →
    node'.inlets.map (·.default) = node.inlets.map (·.default)

variable {φ : NodeId → NodeId} {net net' : Net} {n p : NodeId}

theorem SameWiring.renamed (h : net.SameWiring net') : net.Renamed id net' where
  exists_of_contains m hm := ⟨m, (h.contains m).symm.trans hm, rfl⟩
  mono _ _ _ _ hab := hab
  wiring n node hnode := by
    have same := h.wiring n
    rw [wiring?, wiring?, hnode, Option.map_some] at same
    obtain ⟨node', hnode', same⟩ := Option.map_eq_some_iff.1 same
    simp only [Prod.mk.injEq] at same
    have keep : Port.rename id = id := rfl
    refine ⟨node', hnode', same.1, ?_, by rw [same.2.2, keep, List.map_id]⟩
    rw [same.2.1]
    exact List.map_congr_left fun inlet _ => Option.map_id.symm ▸ rfl

theorem eq_of_mono
    (mono : ∀ a b, net.contains a = true → net.contains b = true → a < b → φ a < φ b) {a b : NodeId}
    (ha : net.contains a = true) (hb : net.contains b = true) (he : φ a = φ b) : a = b := by
  rcases Nat.lt_trichotomy a b with hlt | heq | hlt
  · exact absurd he (Nat.ne_of_lt (mono a b ha hb hlt))
  · exact heq
  · exact absurd he.symm (Nat.ne_of_lt (mono b a hb ha hlt))

namespace Renamed
variable (h : net.Renamed φ net')
include h

theorem injective {a b : NodeId} (ha : net.contains a = true) (hb : net.contains b = true)
    (he : φ a = φ b) : a = b := eq_of_mono h.mono ha hb he

theorem contains_rename (hn : net.contains n = true) : net'.contains (φ n) = true := by
  obtain ⟨node, hnode⟩ := Option.isSome_iff_exists.1 hn
  obtain ⟨node', hnode', _⟩ := h.wiring n node hnode
  exact Option.isSome_of_eq_some hnode'

theorem contains_iff {m : NodeId} :
    net'.contains m = true ↔ ∃ n, net.contains n = true ∧ φ n = m :=
  ⟨h.exists_of_contains m, fun ⟨_, hn, hm⟩ => hm ▸ h.contains_rename hn⟩

theorem operator?_rename (hn : net.contains n = true) :
    net'.operator? (φ n) = net.operator? n := by
  obtain ⟨node, hnode⟩ := Option.isSome_iff_exists.1 hn
  obtain ⟨node', hnode', operator, _⟩ := h.wiring n node hnode
  rw [operator?, hnode', operator?, hnode, Option.map_some, Option.map_some, operator]

theorem slot?_rename (hn : net.contains n = true) (slot : Nat) :
    net'.slot? (φ n) slot = net.slot? n slot := by
  rw [slot?, h.operator?_rename hn, slot?]

theorem source?_rename (hn : net.contains n = true) (slot : Nat) :
    net'.source? (φ n) slot = (net.source? n slot).map φ := by
  obtain ⟨node, hnode⟩ := Option.isSome_iff_exists.1 hn
  obtain ⟨node', hnode', _, inlets, _⟩ := h.wiring n node hnode
  have same := congrArg (·[slot]?) inlets
  simp only [List.getElem?_map] at same
  rw [source?, inlet?, hnode', source?, inlet?, hnode, Option.bind_some, Option.bind_some]
  cases hi : node.inlets[slot]? with
  | none =>
    rw [hi] at same
    rw [Option.map_eq_none_iff.1 same]
    rfl
  | some inlet =>
    rw [hi] at same
    obtain ⟨inlet', hi', source⟩ := Option.map_eq_some_iff.1 same
    rw [hi', Option.bind_some, Option.bind_some, source]

theorem outlets_rename (hn : net.contains n = true) :
    net'.outlets (φ n) = (net.outlets n).map (Port.rename φ) := by
  obtain ⟨node, hnode⟩ := Option.isSome_iff_exists.1 hn
  obtain ⟨node', hnode', _, _, outlets⟩ := h.wiring n node hnode
  rw [Net.outlets, hnode', Net.outlets, hnode]
  exact outlets

theorem readers_rename (hn : net.contains n = true) :
    net'.readers (φ n) = (net.readers n).map fun e => ⟨φ e.producer, φ e.consumer, e.slot⟩ := by
  rw [readers, h.outlets_rename hn, List.map_map, readers, List.map_map]
  rfl

theorem sources_rename (hn : net.contains n = true) :
    net'.sources (φ n) = (net.sources n).map φ := by
  obtain ⟨node, hnode⟩ := Option.isSome_iff_exists.1 hn
  obtain ⟨node', hnode', _, inlets, _⟩ := h.wiring n node hnode
  have view (node : Node) : node.sources = (node.inlets.map (·.source)).filterMap id := by
    rw [List.filterMap_map]
    rfl
  rw [sources, hnode', sources, hnode, Option.elim_some, Option.elim_some, view, inlets, view,
    List.filterMap_map, List.filterMap_map, List.map_filterMap]
  rfl

theorem feeds_rename (hn : net.contains n = true) {m : NodeId} :
    net'.Feeds m (φ n) ↔ ∃ p, net.Feeds p n ∧ φ p = m := by
  rw [← mem_sources, h.sources_rename hn, List.mem_map]
  simp only [mem_sources]

/-- What holds of corresponding edges holds of all edges here when it holds of all edges there. -/
theorem forall_source?_iff (hs : net.NoDangling) {P P' : NodeId → Nat → NodeId → Prop}
    (hP : ∀ c slot p, net.contains c = true → net.contains p = true →
      (P' (φ c) slot (φ p) ↔ P c slot p)) :
    (∀ c slot p, net'.source? c slot = some p → P' c slot p) ↔
      ∀ c slot p, net.source? c slot = some p → P c slot p := by
  constructor
  · intro all c slot p source
    have hc := contains_of_source? source
    refine (hP c slot p hc (hs p c ⟨slot, source⟩)).1 (all (φ c) slot (φ p) ?_)
    rw [h.source?_rename hc, source, Option.map_some]
  · intro all c' slot p' source
    obtain ⟨c, hc, rfl⟩ := h.exists_of_contains c' (contains_of_source? source)
    rw [h.source?_rename hc] at source
    obtain ⟨p, fed, rfl⟩ := Option.map_eq_some_iff.1 source
    exact (hP c slot p hc (hs p c ⟨slot, fed⟩)).2 (all c slot p fed)

theorem trans {ψ : NodeId → NodeId} {net'' : Net} (h' : net'.Renamed ψ net'') :
    net.Renamed (ψ ∘ φ) net'' where
  exists_of_contains m hm := by
    obtain ⟨k, hk, rfl⟩ := h'.exists_of_contains m hm
    obtain ⟨n, hn, rfl⟩ := h.exists_of_contains k hk
    exact ⟨n, hn, rfl⟩
  mono a b ha hb hab :=
    h'.mono _ _ (h.contains_rename ha) (h.contains_rename hb) (h.mono a b ha hb hab)
  wiring n node hnode := by
    obtain ⟨node', hnode', operator, inlets, outlets⟩ := h.wiring n node hnode
    obtain ⟨node'', hnode'', operator', inlets', outlets'⟩ := h'.wiring _ node' hnode'
    refine ⟨node'', hnode'', operator'.trans operator, ?_, ?_⟩
    · have sources := congrArg (List.map (Option.map ψ)) inlets
      rw [List.map_map, List.map_map] at sources
      rw [inlets']
      refine sources.trans (List.map_congr_left fun inlet _ => ?_)
      rw [Function.comp_apply, Option.map_map]
    · rw [outlets', outlets, List.map_map]
      rfl

end Renamed

/-! ### Both ends of the edges -/

section Ends
variable (hw : net.Wired) (hw' : net'.Wired)
  (exists_of_contains : ∀ m, net'.contains m = true → ∃ n, net.contains n = true ∧ φ n = m)
  (mono : ∀ a b, net.contains a = true → net.contains b = true → a < b → φ a < φ b)
  (sources : ∀ n slot, net.contains n = true →
    net'.source? (φ n) slot = (net.source? n slot).map φ)
include hw hw' exists_of_contains mono sources

/-- The ports that read a node are told from the sources of all slots. -/
theorem outlets_of_source? (hn : net.contains n = true) :
    net'.outlets (φ n) = (net.outlets n).map (Port.rename φ) := by
  have live (q : Port) (hq : q ∈ net.outlets n) : net.contains q.node = true :=
    contains_of_source? ((hw.linked.outlets n q).1 hq)
  have ordered : ((net.outlets n).map (Port.rename φ)).Pairwise fun p q => p.before q = true := by
    refine List.pairwise_map.2 ((hw.linked.ordered n).imp_of_mem fun {p q} hp hq hpq => ?_)
    rw [Port.before_iff] at hpq ⊢
    rcases hpq with hlt | ⟨he, hlt⟩
    · exact .inl (mono _ _ (live p hp) (live q hq) hlt)
    · exact .inr ⟨congrArg φ he, hlt⟩
  refine List.Perm.eq_of_pairwise (fun p q _ _ hpq hqp => ?_) (hw'.linked.ordered _) ordered ?_
  · exact absurd (Port.before_trans hpq hqp) p.not_before_self
  · have distinct : ((net.outlets n).map (Port.rename φ)).Nodup := by
      refine ordered.imp fun {p q} hpq he => p.not_before_self ?_
      rwa [← he] at hpq
    rw [List.perm_ext_iff_of_nodup (hw'.linked.nodup _) distinct]
    intro q
    rw [hw'.linked.outlets, List.mem_map]
    simp only [hw.linked.outlets]
    constructor
    · intro hq
      obtain ⟨m, hm, he⟩ := exists_of_contains q.node (contains_of_source? hq)
      rw [← he, sources m q.slot hm] at hq
      obtain ⟨p, hp, hφ⟩ := Option.map_eq_some_iff.1 hq
      have hp' := hw.linked.noDangling p m ⟨q.slot, hp⟩
      rw [eq_of_mono mono hp' hn hφ] at hp
      exact ⟨⟨m, q.slot⟩, hp, by rw [Port.rename, he]⟩
    · rintro ⟨q, hq, rfl⟩
      rw [Port.rename, sources q.node q.slot (contains_of_source? hq), hq, Option.map_some]

/-- A net is a renaming of another as soon as the nodes and the sources of their slots are. -/
theorem renamed_of_source?
    (operators : ∀ n, net.contains n = true → net'.operator? (φ n) = net.operator? n) :
    net.Renamed φ net' := by
  refine ⟨exists_of_contains, mono, fun n node hnode => ?_⟩
  have hn : net.contains n = true := Option.isSome_of_eq_some hnode
  have operator := operators n hn
  rw [operator?, operator?, hnode, Option.map_some] at operator
  obtain ⟨node', hnode', operator⟩ := Option.map_eq_some_iff.1 operator
  have outlets := outlets_of_source? hw hw' exists_of_contains mono sources hn
  rw [Net.outlets, Net.outlets, hnode', hnode] at outlets
  refine ⟨node', hnode', operator, ?_, outlets⟩
  have length : node'.inlets.length = node.inlets.length := by
    rw [hw'.arity _ _ hnode', hw.arity _ _ hnode, operator]
  refine List.ext_getElem (by rw [List.length_map, List.length_map, length]) fun i hi hi' => ?_
  rw [List.length_map] at hi hi'
  have source := sources n i hn
  rw [source?, inlet?, hnode', source?, inlet?, hnode, Option.bind_some, Option.bind_some,
    List.getElem?_eq_getElem hi, List.getElem?_eq_getElem hi'] at source
  rw [List.getElem_map, List.getElem_map]
  exact source

end Ends

/-! ### Kinds -/

/-- Where a node can take its kind from, told from its operator and its edges. -/
theorem asks_eq {op : Operator} (ho : net.operator? n = some op) :
    net.asks n =
      ((askedSlots op).filterMap fun s => (net.source? n s).map .node) ++
      ((net.readers n).filterMap fun e => (net.slot? e.consumer e.slot).bind fun s =>
        if s.kind.concrete then some (.declared s.kind) else none) ++
      (net.readers n).filterMap fun e =>
        if net.carries e then some (.node e.consumer) else none := by
  obtain ⟨node, hnode, rfl⟩ := Option.map_eq_some_iff.1 ho
  have producers (s : Nat) :
      ((node.inlets[s]?).bind fun inlet => inlet.source.map KindSource.node) =
        (net.source? n s).map .node := by
    rw [source?, inlet?, hnode, Option.bind_some, Option.map_bind]
    rfl
  rw [asks, hnode, Option.elim_some]
  simp only [producers]

theorem kind?_declared (net : Net) (n : NodeId) :
    net.declared.kind? n = (net.operator? n).bind (·.output.fixed?) := by
  rw [Settled.kind?, declared, Array.getElem?_map, operator?, node?]
  cases net.nodes[n]? with
  | none => rfl
  | some node => cases node <;> rfl

theorem contains_of_reader (hl : net.Linked) {e : Edge} (he : e ∈ net.readers n) :
    net.contains e.consumer = true := by
  obtain ⟨p, hp, rfl⟩ := List.mem_map.1 he
  exact contains_of_source? ((hl.outlets n p).1 hp)

theorem contains_of_asks (hl : net.Linked) {m : NodeId} (hm : .node m ∈ net.asks n) :
    net.contains m = true := by
  cases ho : net.operator? n with
  | none =>
    rw [operator?, Option.map_eq_none_iff] at ho
    rw [asks, ho] at hm
    cases hm
  | some op =>
    rw [asks_eq ho, List.mem_append, List.mem_append] at hm
    simp only [List.mem_filterMap] at hm
    rcases hm with (⟨s, _, hs⟩ | ⟨e, _, he⟩) | ⟨e, he, hs⟩
    · obtain ⟨p, hp, he⟩ := Option.map_eq_some_iff.1 hs
      cases he
      exact hl.noDangling m n ⟨s, hp⟩
    · obtain ⟨slot, _, hs⟩ := Option.bind_eq_some_iff.1 he
      split at hs <;> cases hs
    · split at hs
      · cases hs
        exact contains_of_reader hl he
      · cases hs

section Open
variable {scan : List NodeId} {p q : Pending} {k : Kind}

theorem mem_open :
    p ∈ ((scan.filter fun n => (net.declared.kind? n).isNone).map fun n => ⟨n, net.asks n⟩) ↔
      p.node ∈ scan ∧ (net.declared.kind? p.node).isNone = true ∧ p.asks = net.asks p.node := by
  obtain ⟨m, asks⟩ := p
  simp only [List.mem_map, List.mem_filter, Pending.mk.injEq]
  constructor
  · rintro ⟨_, ⟨hm, hk⟩, rfl, rfl⟩
    exact ⟨hm, hk, rfl⟩
  · rintro ⟨hm, hk, rfl⟩
    exact ⟨m, ⟨hm, hk⟩, rfl, rfl⟩

theorem eq_of_mem_open
    (hp : p ∈ (scan.filter fun n => (net.declared.kind? n).isNone).map fun n => ⟨n, net.asks n⟩)
    (hq : q ∈ (scan.filter fun n => (net.declared.kind? n).isNone).map fun n => ⟨n, net.asks n⟩)
    (he : p.node = q.node) : p = q := by
  have asks : p.asks = q.asks := by rw [(mem_open.1 hp).2.2, (mem_open.1 hq).2.2, he]
  cases p
  cases q
  cases he
  cases asks
  rfl

variable (hn : net.contains n = true) (hd : net.declared.kind? n = none)
include hn hd

theorem kind?_settled_of_declared (ha : net.asks n = [.declared k]) :
    net.settled.kind? n = some k := by
  have mem : ⟨n, net.asks n⟩ ∈ (net.ids.filter fun n => (net.declared.kind? n).isNone).map
      fun n => (⟨n, net.asks n⟩ : Pending) := mem_open.2 ⟨mem_ids.2 hn, by rw [hd]; rfl, rfl⟩
  refine kind?_settle_of_candidate mem (fun q hq => eq_of_mem_open hq mem) ?_ ?_
  · exact (lt_size_of_contains hn).trans_eq Array.size_map.symm
  · rw [Pending.candidate?, ha]
    rfl

theorem kind?_settled_of_asks_nil (ha : net.asks n = []) : net.settled.kind? n = some .any := by
  have mem : ⟨n, net.asks n⟩ ∈ (net.ids.filter fun n => (net.declared.kind? n).isNone).map
      fun n => (⟨n, net.asks n⟩ : Pending) := mem_open.2 ⟨mem_ids.2 hn, by rw [hd]; rfl, rfl⟩
  refine kind?_settle_of_asks_nil mem (fun q hq => eq_of_mem_open hq mem) ?_ ha hd
  exact (lt_size_of_contains hn).trans_eq Array.size_map.symm

end Open

namespace Renamed
variable (h : net.Renamed φ net') (hl : net.Linked)
include h hl

theorem asks_rename (hn : net.contains n = true) :
    net'.asks (φ n) = (net.asks n).map (KindSource.rename φ) := by
  obtain ⟨op, ho⟩ := exists_operator? hn
  rw [asks_eq (h.operator?_rename hn |>.trans ho), asks_eq ho, List.map_append, List.map_append,
    h.readers_rename hn, List.filterMap_map, List.filterMap_map]
  simp only [List.map_filterMap]
  congr 1
  · congr 1
    · refine List.filterMap_congr fun s _ => ?_
      rw [h.source?_rename hn]
      cases net.source? n s <;> rfl
    · refine List.filterMap_congr fun e he => ?_
      rw [Function.comp_apply, h.slot?_rename (contains_of_reader hl he)]
      cases net.slot? e.consumer e.slot with
      | none => rfl
      | some s =>
        dsimp only [Option.bind_some]
        split <;> rfl
  · refine List.filterMap_congr fun e he => ?_
    rw [Function.comp_apply, carries, carries, h.operator?_rename (contains_of_reader hl he)]
    split <;> rfl

/-- The kinds of a net follow its nodes to other handles, in whatever order they are scanned. -/
theorem kind?_settledBy {scan scan' : List NodeId}
    (hs : ∀ n, n ∈ scan ↔ net.contains n = true) (hs' : ∀ n, n ∈ scan' ↔ net'.contains n = true)
    (hn : net.contains n = true) :
    (net'.settledBy scan').kind? (φ n) = (net.settledBy scan).kind? n := by
  have declared (m : NodeId) (hm : net.contains m = true) :
      net'.declared.kind? (φ m) = net.declared.kind? m := by
    rw [kind?_declared, h.operator?_rename hm, kind?_declared]
  refine kind?_settle (?_ : Mirrors φ (fun n => net.contains n = true) _ _ _ _) hn
  refine ⟨fun _ _ => h.injective, fun m hm => ?_, fun q => ?_, fun p hp => ?_,
    fun p hp q hq he => ?_, declared⟩
  · rw [Net.declared, Net.declared, Array.size_map, Array.size_map]
    exact ⟨lt_size_of_contains hm, lt_size_of_contains (h.contains_rename hm)⟩
  · simp only [mem_open, hs, hs']
    constructor
    · rintro ⟨hq, hk, ha⟩
      obtain ⟨m, hm, he⟩ := h.exists_of_contains q.node hq
      rw [← he] at hk ha
      rw [declared m hm] at hk
      rw [h.asks_rename hl hm] at ha
      refine ⟨⟨m, net.asks m⟩, ⟨hm, hk, rfl⟩, ?_⟩
      rw [Pending.rename, he, ← ha]
    · rintro ⟨p, ⟨hm, hk, ha⟩, rfl⟩
      refine ⟨h.contains_rename hm, ?_, ?_⟩
      · rw [Pending.rename, declared _ hm]
        exact hk
      · rw [Pending.rename, h.asks_rename hl hm, ha]
  · obtain ⟨hm, _, ha⟩ := mem_open.1 hp
    exact ⟨(hs _).1 hm, fun m hm => contains_of_asks hl (ha ▸ hm)⟩
  · exact eq_of_mem_open hp hq he

end Renamed

end Net
end Patchbay
