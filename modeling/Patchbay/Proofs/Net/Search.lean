import Mathlib.Logic.Relation
import Patchbay.Net.Reach

/-! # What a search with marks visits

A search visits exactly what can be reached from its stack through marked places, and each of them
once. On a net the places are the handles and the steps lead from a node to its producers, so the
search from a node finds its ancestors.
-/

namespace Patchbay
open Relation

section Visit
variable {next : Nat → List Nat}

/-- A step of a search to a place that is still marked. -/
def Onward (next : Nat → List Nat) (unseen : Array Bool) (a b : Nat) : Prop :=
  b ∈ next a ∧ unseen[b]? = some true

theorem marked_set {unseen : Array Bool} {n : Nat} (hn : n < unseen.size) (m : Nat) :
    (unseen.set n false)[m]? = some true ↔ m ≠ n ∧ unseen[m]? = some true := by
  rw [Array.getElem?_set]
  by_cases h : n = m
  · subst h
    simp
  · simp [h, Ne.symm h]

theorem onward_of_set {unseen : Array Bool} {n : Nat} (hn : n < unseen.size) {a b : Nat}
    (h : ReflTransGen (Onward next (unseen.set n false)) a b) :
    ReflTransGen (Onward next unseen) a b := by
  induction h with
  | refl => exact .refl
  | tail _ hstep ih => exact ih.tail ⟨hstep.1, ((marked_set hn _).1 hstep.2).2⟩

/-- A walk avoids a place, or ends there, or has left it for good. -/
theorem onward_cases {unseen : Array Bool} {n r m : Nat} (hn : n < unseen.size)
    (h : ReflTransGen (Onward next unseen) r m) :
    r ≠ n ∧ ReflTransGen (Onward next (unseen.set n false)) r m ∨ m = n ∨
      ∃ x ∈ next n, (unseen.set n false)[x]? = some true ∧
        ReflTransGen (Onward next (unseen.set n false)) x m := by
  induction h with
  | refl =>
    by_cases hr : r = n
    · exact .inr (.inl hr)
    · exact .inl ⟨hr, .refl⟩
  | @tail b c _ hbc ih =>
    by_cases hc : c = n
    · exact .inr (.inl hc)
    have marked : (unseen.set n false)[c]? = some true := (marked_set hn c).2 ⟨hc, hbc.2⟩
    rcases ih with ⟨hr, walk⟩ | rfl | ⟨x, hx, hm, walk⟩
    · exact .inl ⟨hr, walk.tail ⟨hbc.1, marked⟩⟩
    · exact .inr (.inr ⟨c, hbc.1, marked, .refl⟩)
    · exact .inr (.inr ⟨x, hx, hm, walk.tail ⟨hbc.1, marked⟩⟩)

theorem mem_visit {stack : List Nat} {unseen : Array Bool} {m : Nat} :
    m ∈ visit next stack unseen ↔
      ∃ r ∈ stack, unseen[r]? = some true ∧ ReflTransGen (Onward next unseen) r m := by
  induction stack, unseen using visit.induct next with
  | case1 unseen => simp [visit]
  | case2 n stack unseen h ih =>
    have hn := (Array.getElem?_eq_some_iff.1 h).choose
    rw [visit, dif_pos h, List.mem_cons, ih]
    constructor
    · rintro (rfl | ⟨r, hr, hm, walk⟩)
      · exact ⟨m, List.mem_cons_self, h, .refl⟩
      rw [marked_set] at hm
      rcases List.mem_append.1 hr with hr | hr
      · exact ⟨n, List.mem_cons_self, h, (onward_of_set hn walk).head ⟨hr, hm.2⟩⟩
      · exact ⟨r, List.mem_cons_of_mem n hr, hm.2, onward_of_set hn walk⟩
    · rintro ⟨r, hr, hm, walk⟩
      rcases onward_cases hn walk with ⟨hrn, walk⟩ | rfl | ⟨x, hx, hm, walk⟩
      · have hr := (List.mem_cons.1 hr).resolve_left hrn
        exact .inr ⟨r, List.mem_append_right _ hr, (marked_set hn r).2 ⟨hrn, hm⟩, walk⟩
      · exact .inl rfl
      · exact .inr ⟨x, List.mem_append_left _ hx, hm, walk⟩
  | case3 n stack unseen h ih =>
    rw [visit, dif_neg h, ih]
    constructor
    · rintro ⟨r, hr, hm, walk⟩
      exact ⟨r, List.mem_cons_of_mem n hr, hm, walk⟩
    · rintro ⟨r, hr, hm, walk⟩
      rcases List.mem_cons.1 hr with rfl | hr
      · exact absurd hm h
      · exact ⟨r, hr, hm, walk⟩

theorem marked_of_mem_visit {stack : List Nat} {unseen : Array Bool} {m : Nat}
    (h : m ∈ visit next stack unseen) : unseen[m]? = some true := by
  obtain ⟨r, _, hr, walk⟩ := mem_visit.1 h
  rcases walk.cases_tail with rfl | ⟨b, _, hb⟩
  · exact hr
  · exact hb.2

theorem nodup_visit (stack : List Nat) (unseen : Array Bool) :
    (visit next stack unseen).Nodup := by
  induction stack, unseen using visit.induct next with
  | case1 unseen => simp [visit]
  | case2 n stack unseen h ih =>
    have hn := (Array.getElem?_eq_some_iff.1 h).choose
    rw [visit, dif_pos h, List.nodup_cons]
    refine ⟨fun hm => ?_, ih⟩
    exact ((marked_set hn n).1 (marked_of_mem_visit hm)).1 rfl
  | case3 n stack unseen h ih =>
    rw [visit, dif_neg h]
    exact ih

end Visit

variable [Platform]

namespace Net
variable {net : Net} {n p : NodeId} {slot : Nat}

/-- Some slot of `c` is attached to `p`. -/
def Feeds (net : Net) (p c : NodeId) : Prop := ∃ slot, net.source? c slot = some p

/-- The edges of a net close no cycle. -/
def Acyclic (net : Net) : Prop := ∀ n, ¬TransGen net.Feeds n n

def NoDangling (net : Net) : Prop := ∀ p c, net.Feeds p c → net.contains p = true

/-- Both ends of every edge agree: a node knows the ports that are attached to it, in order and each
once. -/
structure Linked (net : Net) : Prop where
  outlets : ∀ n (q : Port), q ∈ net.outlets n ↔ net.source? q.node q.slot = some n
  ordered : ∀ n, (net.outlets n).Pairwise fun p q => p.before q = true

theorem Linked.nodup (h : net.Linked) (n : NodeId) : (net.outlets n).Nodup := by
  refine (h.ordered n).imp fun {p q} hpq he => ?_
  subst he
  simp [Port.before] at hpq

theorem Linked.noDangling (h : net.Linked) : net.NoDangling := by
  rintro p c ⟨slot, hs⟩
  have hq := (h.outlets p ⟨c, slot⟩).2 hs
  cases hp : net.node? p with
  | none =>
    rw [Net.outlets, hp] at hq
    cases hq
  | some node =>
    rw [contains, hp]
    rfl

theorem mem_readers (hl : net.Linked) {e : Edge} :
    e ∈ net.readers n ↔ e.producer = n ∧ net.source? e.consumer e.slot = some n := by
  simp only [readers, List.mem_map, hl.outlets]
  constructor
  · rintro ⟨p, hp, rfl⟩
    exact ⟨rfl, hp⟩
  · rintro ⟨rfl, h⟩
    exact ⟨⟨e.consumer, e.slot⟩, h, rfl⟩

theorem exists_inlet_of_source? (h : net.source? n slot = some p) :
    ∃ node inlet, net.node? n = some node ∧ node.inlets[slot]? = some inlet ∧
      inlet.source = some p := by
  simp only [source?, inlet?, Option.bind_eq_some_iff] at h
  obtain ⟨inlet, ⟨node, hnode, hinlet⟩, hsource⟩ := h
  exact ⟨node, inlet, hnode, hinlet, hsource⟩

theorem source?_of_inlet {node : Node} {inlet : Inlet} (hn : net.node? n = some node)
    (hi : node.inlets[slot]? = some inlet) : net.source? n slot = inlet.source := by
  rw [source?, inlet?, hn, Option.bind_some, hi, Option.bind_some]

theorem contains_of_source? (h : net.source? n slot = some p) : net.contains n = true := by
  obtain ⟨node, _, hnode, _⟩ := exists_inlet_of_source? h
  rw [contains, hnode]
  rfl

theorem mem_sources : p ∈ net.sources n ↔ net.Feeds p n := by
  cases h : net.node? n with
  | none => simp [sources, Feeds, source?, inlet?, h]
  | some node =>
    simp only [sources, h, Option.elim_some, Node.sources, List.mem_filterMap, Feeds, source?,
      inlet?, Option.bind_some]
    constructor
    · rintro ⟨inlet, hm, hs⟩
      obtain ⟨slot, hslot⟩ := List.getElem?_of_mem hm
      exact ⟨slot, by rw [hslot]; exact hs⟩
    · rintro ⟨slot, hs⟩
      obtain ⟨inlet, hi, hs⟩ := Option.bind_eq_some_iff.1 hs
      exact ⟨inlet, List.mem_of_getElem? hi, hs⟩

theorem lt_size_of_contains (h : net.contains n = true) : n < net.nodes.size := by
  simp only [contains, node?, Option.isSome_iff_exists, Option.join_eq_some_iff] at h
  obtain ⟨node, h⟩ := h
  exact (Array.getElem?_eq_some_iff.1 h).choose

theorem onward_sources (hs : net.NoDangling) {a b : NodeId} :
    Onward net.sources (.replicate net.nodes.size true) a b ↔ net.Feeds b a := by
  rw [Onward, mem_sources]
  refine ⟨And.left, fun h => ⟨h, ?_⟩⟩
  have hb := lt_size_of_contains (hs b a h)
  rw [Array.getElem?_replicate, if_pos hb]

theorem mem_ancestorsOf (hs : net.NoDangling) {ns : List NodeId} {m : NodeId} :
    m ∈ net.ancestorsOf ns ↔
      ∃ r ∈ ns, r < net.nodes.size ∧ ReflTransGen net.Feeds m r := by
  have marked (r : NodeId) :
      (Array.replicate net.nodes.size true)[r]? = some true ↔ r < net.nodes.size := by
    simp [Array.getElem?_replicate]
  have walks (r : NodeId) :
      ReflTransGen (Onward net.sources (.replicate net.nodes.size true)) r m ↔
        ReflTransGen net.Feeds m r := by
    rw [← reflTransGen_swap]
    exact iff_of_eq (congrArg (fun step => ReflTransGen step m r)
      (funext fun a => funext fun b => propext (onward_sources hs)))
  rw [ancestorsOf, mem_visit]
  exact exists_congr fun r => and_congr_right fun _ => and_congr (marked r) (walks r)

theorem mem_ancestors (hs : net.NoDangling) (hn : net.contains n = true) {m : NodeId} :
    m ∈ net.ancestors n ↔ ReflTransGen net.Feeds m n := by
  rw [ancestors, mem_ancestorsOf hs]
  constructor
  · rintro ⟨r, hr, _, walk⟩
    rw [List.mem_singleton] at hr
    exact hr ▸ walk
  · exact fun walk => ⟨n, List.mem_singleton_self n, lt_size_of_contains hn, walk⟩

theorem nodup_ancestors (net : Net) (n : NodeId) : (net.ancestors n).Nodup := nodup_visit _ _

/-- The search for an ancestor finds it exactly when there is a path of edges. -/
theorem reaches_iff (hs : net.NoDangling) (hn : net.contains n = true) {old : NodeId} :
    net.reaches n old = true ↔ ReflTransGen net.Feeds old n := by
  rw [reaches, List.contains_iff_mem, mem_ancestors hs hn]

theorem contains_of_upstream (hs : net.NoDangling) (hn : net.contains n = true) {m : NodeId}
    (h : ReflTransGen net.Feeds m n) : net.contains m = true := by
  rcases h.cases_head with rfl | ⟨c, hc, _⟩
  · exact hn
  · exact hs m c hc

end Net
end Patchbay
