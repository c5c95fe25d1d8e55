import Patchbay.Proofs.Net.Order

/-! # How the counts of a sort go down

A count is the number of attached slots of a member that were not served. That holds in the middle
of a step too, so no count is ever negative. A count is zero once the member is taken, and on a net
without cycles all members are taken in the end.
-/

namespace Patchbay
open Relation

variable [Platform]

namespace Sorting
variable {net : Net} {members : List NodeId} {s : Sorting} {n : NodeId}

/-- A sort in the middle of a step: the first ready member is taken, and so many of the ports that
read it are served. -/
def partway (net : Net) (s : Sorting) (ports : Nat) : Sorting :=
  match s.ready with
  | [] => s
  | n :: ready =>
    ((net.outlets n).take ports).foldl serve { s with ready, sorted := n :: s.sorted }

theorem Sound.partway (h : Sound net members s) (hl : net.Linked) (ports : Nat) :
    ∃ served, Invariant net members served (s.partway net ports) := by
  cases hr : s.ready with
  | nil =>
    obtain ⟨served, inv, -⟩ := h.invariant
    have same : s.partway net ports = s := by rw [Sorting.partway, hr]
    rw [same]
    exact ⟨served, inv⟩
  | cons n ready =>
    obtain ⟨served, inv, -, fresh⟩ := h.take hl hr
    have first : ((net.outlets n).take ports).Sublist (net.outlets n) := List.take_sublist _ _
    have next := inv.foldl_serve (fun q hq => (fresh q (first.mem hq)).1)
      (fun q hq => (fresh q (first.mem hq)).2) ((hl.nodup n).sublist first)
    have same : s.partway net ports = ((net.outlets n).take ports).foldl Sorting.serve
        { s with ready, sorted := n :: s.sorted } := by rw [Sorting.partway, hr]
    rw [same]
    exact ⟨_, next⟩

theorem Invariant.missing_nonneg {served : List Port} (h : Invariant net members served s) {d : Int}
    (hd : s.missing? n = some d) : 0 ≤ d := by
  rw [h.missing] at hd
  split at hd
  · cases hd
    exact Int.natCast_nonneg _
  · cases hd

theorem Sound.missing_of_taken (h : Sound net members s) (last : s.ready = [])
    (taken : ∀ n ∈ members, n ∈ s.sorted) (n : NodeId) :
    s.missing? n = if n ∈ s.sorted then some 0 else none := by
  obtain ⟨⟨served, inv, -⟩, -⟩ := h
  have mem := inv.mem n
  rw [last, List.nil_append] at mem
  rw [inv.missing]
  by_cases hn : n ∈ members
  · have zero := (mem.1 (taken n hn)).2
    rw [if_pos hn, if_pos (taken n hn), zero]
    rfl
  · rw [if_neg hn, if_neg fun hs => hn (mem.1 hs).1]

def after (net : Net) (root : NodeId) (steps : Nat) : Sorting :=
  (start net (net.ancestors root)).run net steps

theorem sound_after (hl : net.Linked) (root : NodeId) (steps : Nat) :
    Sound net (net.ancestors root) (after net root steps) :=
  (sound_start (net.nodup_ancestors root) fun _ => Net.lt_size_of_mem_ancestors).run hl steps

/-- What the sort of a node and its ancestors promises. -/
structure Exact (net : Net) (root : NodeId) : Prop where
  /-- The order holds the node and its ancestors and nothing else. -/
  complete : ∀ n, n ∈ net.lineage root ↔ ReflTransGen net.Feeds n root
  nodup : (net.lineage root).Nodup
  /-- The producers of a node come before it. -/
  ordered : ∀ done n rest, net.lineage root = done ++ n :: rest → ∀ p, net.Feeds p n → p ∈ done
  /-- No count falls below zero, between two steps or between two ports that a step serves. -/
  counted : ∀ steps ports n d, ((after net root steps).partway net ports).missing? n = some d →
    0 ≤ d
  /-- In the end nothing is ready, and what the order holds has a count of zero. -/
  finished : ∃ steps, (after net root steps).ready = [] ∧
    (after net root steps).sorted.reverse = net.lineage root ∧
      ∀ n, (after net root steps).missing? n = if n ∈ net.lineage root then some 0 else none

end Sorting

namespace Net
variable {net : Net} {n p root : NodeId}

theorem mem_of_lineage_eq (hl : net.Linked) {done rest : List NodeId}
    (h : net.lineage root = done ++ n :: rest) (hp : net.Feeds p n) : p ∈ done := by
  have grounded := net.grounded_lineage hl root
  rw [h, List.reverse_append, List.reverse_cons, List.append_assoc] at grounded
  exact List.mem_reverse.1 (grounded.of_append.1 p hp)

/-- On a net without cycles as many steps as there are members take all of them. -/
theorem missing_lineage (hl : net.Linked) (ha : net.Acyclic) (live : net.contains root = true) :
    (Sorting.after net root (net.ancestors root).length).ready = [] ∧
      ∀ n, (Sorting.after net root (net.ancestors root).length).missing? n =
        if n ∈ net.lineage root then some 0 else none := by
  have start := Sorting.sound_start (net.nodup_ancestors root) fun _ => lt_size_of_mem_ancestors
  have last : (Sorting.after net root (net.ancestors root).length).ready = [] :=
    start.ready_run hl (Nat.le_add_right _ _)
  have taken : ∀ n ∈ net.ancestors root,
      n ∈ (Sorting.after net root (net.ancestors root).length).sorted := by
    intro n hn
    rw [mem_ancestors hl.noDangling live] at hn
    exact List.mem_reverse.1 ((mem_lineage hl ha live).2 hn)
  refine ⟨last, fun n => ?_⟩
  rw [(Sorting.sound_after hl root _).missing_of_taken last taken]
  exact if_congr List.mem_reverse.symm rfl rfl

end Net
end Patchbay
