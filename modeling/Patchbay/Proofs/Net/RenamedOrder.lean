import Patchbay.Proofs.Net.Inputs
import Patchbay.Proofs.Net.Renaming

/-! # Order under other handles

Ties between nodes are broken by their handles: the sort starts from the lowest ones, and inputs of
one placement stand in their order. A renaming keeps this order, so it carries over the sort of a
lineage, the order of the inputs, and what is demanded and known early.
-/

namespace Patchbay
open Relation

variable [Platform]

namespace Net.Renamed
variable {φ : NodeId → NodeId} {net net' : Net} {n m p : NodeId} (h : net.Renamed φ net')
include h

theorem ids_eq : net'.ids = net.ids.map φ := by
  refine ids_eq_of_mem ?_ fun m => ?_
  · refine List.pairwise_map.2 (net.pairwise_ids.imp_of_mem fun ha hb hab => ?_)
    exact h.mono _ _ (mem_ids.1 ha) (mem_ids.1 hb) hab
  · simp only [mem_ids, h.contains_iff, List.mem_map]

theorem le_iff {a b : NodeId} (ha : net.contains a = true) (hb : net.contains b = true) :
    φ a ≤ φ b ↔ a ≤ b := by
  rcases Nat.lt_trichotomy a b with hlt | rfl | hlt
  · exact iff_of_true (Nat.le_of_lt (h.mono a b ha hb hlt)) (Nat.le_of_lt hlt)
  · exact iff_of_true (Nat.le_refl _) (Nat.le_refl _)
  · exact iff_of_false (Nat.not_le.2 (h.mono b a hb ha hlt)) (Nat.not_le.2 hlt)

theorem noDangling (hs : net.NoDangling) : net'.NoDangling := by
  rintro p c ⟨slot, hp⟩
  obtain ⟨n, hn, rfl⟩ := h.exists_of_contains c (contains_of_source? hp)
  obtain ⟨q, hq, rfl⟩ := (h.feeds_rename hn).1 ⟨slot, hp⟩
  exact h.contains_rename (hs q n hq)

/-! ### Lineages -/

theorem upstream_iff (hs : net.NoDangling) (hn : net.contains n = true) :
    ReflTransGen net'.Feeds m (φ n) ↔ ∃ p, ReflTransGen net.Feeds p n ∧ φ p = m := by
  constructor
  · intro up
    induction up using ReflTransGen.head_induction_on with
    | refl => exact ⟨n, .refl, rfl⟩
    | head hf _ ih =>
      obtain ⟨p, up, rfl⟩ := ih
      obtain ⟨q, hq, rfl⟩ := (h.feeds_rename (contains_of_upstream hs hn up)).1 hf
      exact ⟨q, .head hq up, rfl⟩
  · rintro ⟨p, up, rfl⟩
    induction up using ReflTransGen.head_induction_on with
    | refl => exact .refl
    | head hf up ih =>
      exact .head ((h.feeds_rename (contains_of_upstream hs hn up)).2 ⟨_, hf, rfl⟩) ih

theorem degree_rename (hn : net.contains n = true) : net'.degree (φ n) = net.degree n := by
  rw [degree, h.sources_rename hn, List.length_map, degree]

end Net.Renamed

namespace Sorting
variable {φ : NodeId → NodeId} {net net' : Net} {s s' : Sorting}

/-- A sort of one net beside the same sort under other handles. -/
structure Renamed (φ : NodeId → NodeId) (net : Net) (s s' : Sorting) : Prop where
  ready : s'.ready = s.ready.map φ
  sorted : s'.sorted = s.sorted.map φ
  missing : ∀ n, net.contains n = true → s'.missing? (φ n) = s.missing? n
  inside : ∀ n ∈ s.ready, net.contains n = true

section
variable (hr : net.Renamed φ net') (h : Renamed φ net s s')
include hr h

theorem Renamed.serve {p : Port} (hp : net.contains p.node = true) :
    Renamed φ net (s.serve p) (s'.serve (p.rename φ)) := by
  have missing := h.missing p.node hp
  rw [Sorting.serve, Sorting.serve, show (p.rename φ).node = φ p.node from rfl, missing]
  cases hd : s.missing? p.node with
  | none => exact h
  | some d =>
    rw [hd] at missing
    refine ⟨?_, h.sorted, fun n hn => ?_, fun n hn => ?_⟩
    · dsimp only
      split
      · rw [List.map_cons, h.ready]
      · exact h.ready
    · rw [missing?_set missing, missing?_set hd]
      by_cases he : p.node = n
      · rw [if_pos he, if_pos (congrArg φ he)]
      · rw [if_neg he, if_neg fun hφ => he (hr.injective hp hn hφ), h.missing n hn]
    · dsimp only at hn
      split at hn
      · rcases List.mem_cons.1 hn with rfl | hn
        · exact hp
        · exact h.inside n hn
      · exact h.inside n hn

theorem Renamed.foldl_serve {ports : List Port} (hp : ∀ p ∈ ports, net.contains p.node = true) :
    Renamed φ net (ports.foldl Sorting.serve s)
      ((ports.map (Port.rename φ)).foldl Sorting.serve s') := by
  induction ports generalizing s s' with
  | nil => exact h
  | cons p ports ih =>
    rw [List.forall_mem_cons] at hp
    exact ih (h.serve hr hp.1) hp.2

theorem Renamed.step (hl : net.Linked) : Renamed φ net (s.step net) (s'.step net') := by
  have ready := h.ready
  rw [Sorting.step, Sorting.step, ready]
  cases hs : s.ready with
  | nil => exact h
  | cons n rest =>
    have inside := h.inside
    rw [hs, List.forall_mem_cons] at inside
    rw [List.map_cons]
    dsimp only
    rw [hr.outlets_rename inside.1]
    have taken : Renamed φ net { s with ready := rest, sorted := n :: s.sorted }
        { s' with ready := rest.map φ, sorted := φ n :: s'.sorted } :=
      ⟨rfl, by rw [List.map_cons, h.sorted], h.missing, inside.2⟩
    exact taken.foldl_serve hr fun p hp => Net.contains_of_source? ((hl.outlets n p).1 hp)

theorem Renamed.run (hl : net.Linked) (steps : Nat) :
    Renamed φ net (s.run net steps) (s'.run net' steps) := by
  induction steps generalizing s s' with
  | zero => exact h
  | succ steps ih => exact ih (h.step hr hl)

end

theorem renamed_start (hr : net.Renamed φ net') {members members' : List NodeId}
    (perm : members'.Perm (members.map φ)) (inside : ∀ n ∈ members, net.contains n = true) :
    Renamed φ net (start net members) (start net' members') where
  ready := by
    have chosen : (members'.filter fun n => net'.degree n = 0).Perm
        ((members.filter fun n => net.degree n = 0).map φ) := by
      refine (perm.filter _).trans (List.Perm.of_eq ?_)
      rw [List.filter_map]
      congr 1
      exact List.filter_congr fun n hn => by
        rw [Function.comp_apply, hr.degree_rename (inside n hn)]
    have sorted (l : List NodeId) : (l.mergeSort (· ≤ ·)).Pairwise (· ≤ ·) :=
      List.pairwise_mergeSort' (· ≤ ·) l
    rw [start, start, List.map_mergeSort (s := (· ≤ ·)) fun a ha b hb => ?_]
    · exact List.Perm.eq_of_pairwise (fun a b _ _ => Nat.le_antisymm) (sorted _) (sorted _)
        ((List.mergeSort_perm _ _).trans (chosen.trans (List.mergeSort_perm _ _).symm))
    · exact decide_eq_decide.2 (hr.le_iff (inside a (List.mem_filter.1 ha).1)
        (inside b (List.mem_filter.1 hb).1)).symm
  sorted := rfl
  missing n hn := by
    have mem : φ n ∈ members' ↔ n ∈ members := by
      rw [perm.mem_iff, List.mem_map]
      constructor
      · rintro ⟨m, hm, he⟩
        exact hr.injective (inside m hm) hn he ▸ hm
      · exact fun hm => ⟨n, hm, rfl⟩
    rw [missing?, missing?, start, start, missing?_foldl, missing?_foldl, Array.size_replicate,
      Array.size_replicate]
    by_cases hm : n ∈ members
    · rw [if_pos ⟨mem.2 hm, Net.lt_size_of_contains (hr.contains_rename hn)⟩,
        if_pos ⟨hm, Net.lt_size_of_contains hn⟩, hr.degree_rename hn]
    · rw [if_neg fun h => hm (mem.1 h.1), if_neg fun h => hm h.1, Array.getElem?_replicate,
        Array.getElem?_replicate]
      split <;> split <;> rfl
  inside n hn := by
    rw [start, List.mem_mergeSort, List.mem_filter] at hn
    exact inside n hn.1

end Sorting

namespace Net.Renamed
variable {φ : NodeId → NodeId} {net net' : Net} {n : NodeId} (h : net.Renamed φ net')
include h

theorem inOrder_rename (hl : net.Linked) {members members' : List NodeId}
    (perm : members'.Perm (members.map φ)) (inside : ∀ n ∈ members, net.contains n = true) :
    net'.inOrder members' = (net.inOrder members).map φ := by
  rw [inOrder, inOrder, perm.length_eq, List.length_map, List.map_reverse,
    ((Sorting.renamed_start h perm inside).run h hl members.length).sorted]

theorem lineage_rename (hl : net.Linked) (hn : net.contains n = true) :
    net'.lineage (φ n) = (net.lineage n).map φ := by
  have inside (m : NodeId) (hm : m ∈ net.ancestors n) : net.contains m = true :=
    contains_of_upstream hl.noDangling hn ((mem_ancestors hl.noDangling hn).1 hm)
  refine h.inOrder_rename hl ?_ inside
  rw [List.perm_ext_iff_of_nodup (net'.nodup_ancestors _)
    ((net.nodup_ancestors n).map_on fun a ha b hb => h.injective (inside a ha) (inside b hb))]
  intro m
  rw [mem_ancestors (h.noDangling hl.noDangling) (h.contains_rename hn),
    h.upstream_iff hl.noDangling hn, List.mem_map]
  simp only [mem_ancestors hl.noDangling hn]

/-! ### Early values -/

theorem demanded_rename (hs : net.NoDangling) (hn : net.contains n = true) :
    net'.Demanded (φ n) ↔ net.Demanded n := by
  constructor
  · rintro ⟨p', c', ⟨slot, hp, early⟩, up⟩
    obtain ⟨c, hc, rfl⟩ := h.exists_of_contains c' (contains_of_source? hp)
    rw [h.source?_rename hc] at hp
    obtain ⟨p, source, rfl⟩ := Option.map_eq_some_iff.1 hp
    have live := hs p c ⟨slot, source⟩
    obtain ⟨q, up, he⟩ := (h.upstream_iff hs live).1 up
    rw [h.slot?_rename hc] at early
    rw [h.injective (contains_of_upstream hs live up) hn he] at up
    exact ⟨p, c, ⟨slot, source, early⟩, up⟩
  · rintro ⟨p, c, ⟨slot, hp, early⟩, up⟩
    have hc := contains_of_source? hp
    refine ⟨φ p, φ c, ⟨slot, ?_, ?_⟩, (h.upstream_iff hs (hs p c ⟨slot, hp⟩)).2 ⟨n, up, rfl⟩⟩
    · rw [h.source?_rename hc, hp, Option.map_some]
    · rw [h.slot?_rename hc]
      exact early

theorem known_rename (hs : net.NoDangling) (hn : net.contains n = true) :
    net'.Known (φ n) ↔ net.Known n := by
  constructor
  · intro known
    generalize hm : φ n = m at known
    induction known generalizing n with
    | @input m node' hnode' live input demanded =>
      subst hm
      obtain ⟨node, hnode⟩ := Option.isSome_iff_exists.1 hn
      obtain ⟨_, found, operator, _⟩ := h.wiring n node hnode
      cases hnode'.symm.trans found
      rw [operator] at live input
      exact .input hnode live input ((h.demanded_rename hs hn).1 demanded)
    | @body m node' hnode' live input producers ih =>
      subst hm
      obtain ⟨node, hnode⟩ := Option.isSome_iff_exists.1 hn
      obtain ⟨_, found, operator, _⟩ := h.wiring n node hnode
      cases hnode'.symm.trans found
      rw [operator] at live input
      exact .body hnode live input fun p hp =>
        ih (φ p) ((h.feeds_rename hn).2 ⟨p, hp, rfl⟩) (hs p n hp) rfl
  · intro known
    induction known with
    | @input n node hnode live input demanded =>
      obtain ⟨node', hnode', operator, _⟩ := h.wiring n node hnode
      rw [← operator] at live input
      exact .input hnode' live input ((h.demanded_rename hs hn).2 demanded)
    | @body n node hnode live input producers ih =>
      obtain ⟨node', hnode', operator, _⟩ := h.wiring n node hnode
      rw [← operator] at live input
      refine .body hnode' live input fun m hm => ?_
      obtain ⟨p, hp, rfl⟩ := (h.feeds_rename hn).1 hm
      exact ih p hp (hs p n hp)

/-! ### Inputs -/

theorem inputs_rename
    (placed : ∀ n, net.contains n = true → net'.placementOf (φ n) = net.placementOf n) :
    net'.inputs = net.inputs.map φ := by
  have chosen : (net'.ids.filter fun n => (net'.operator? n).any Operator.isInput) =
      (net.ids.filter fun n => (net.operator? n).any Operator.isInput).map φ := by
    rw [h.ids_eq, List.filter_map]
    congr 1
    exact List.filter_congr fun n hn => by
      rw [Function.comp_apply, h.operator?_rename (mem_ids.1 hn)]
  have live (n : NodeId) (hn : n ∈ net.ids.filter fun n => (net.operator? n).any Operator.isInput) :
      net.contains n = true := mem_ids.1 (List.mem_filter.1 hn).1
  rw [inputs_eq_mergeSort, inputs_eq_mergeSort, chosen]
  refine (List.map_mergeSort fun a ha b hb => ?_).symm
  rw [placed a (live a ha), placed b (live b hb)]

theorem idxOf?_inputs
    (placed : ∀ n, net.contains n = true → net'.placementOf (φ n) = net.placementOf n)
    (hn : net.contains n = true) : net'.inputs.idxOf? (φ n) = net.inputs.idxOf? n := by
  have live (m : NodeId) (hm : m ∈ net.inputs) : net.contains m = true := by
    obtain ⟨op, ho, _⟩ := mem_inputs.1 hm
    exact contains_of_operator? ho
  rw [h.inputs_rename placed]
  exact idxOf?_map fun m hm => h.injective (live m hm) hn

end Net.Renamed
end Patchbay
