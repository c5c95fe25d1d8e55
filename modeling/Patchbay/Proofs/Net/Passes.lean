import Patchbay.Proofs.Net.Renaming

/-! # The loop that settles kinds

Round follows round as long as a round finds a kind for an open node; when one finds nothing, all
that is open becomes the wildcard. The loop ends, it leaves no node without a kind, and nothing
depends on the order in which the open nodes are listed or on how often one of them is.
-/

namespace Patchbay

/-- A run of the loop from the state before a round to its end. -/
inductive Passes : Settled → List Pending → Settled → Prop
  /-- Nothing is open. -/
  | done {settled : Settled} : Passes settled [] settled
  /-- A round finds nothing, so the rest becomes the wildcard. -/
  | stalled {settled : Settled} {pending : List Pending} (left : pending ≠ [])
    (silent : round settled pending = []) :
    Passes settled pending (settled.add (pending.map fun p => (p.node, .any)))
  /-- A round finds something and the loop goes on with what is left. -/
  | pass {settled result : Settled} {pending : List Pending} (found : round settled pending ≠ [])
    (rest : Passes (settled.add (round settled pending))
      (unsettled (settled.add (round settled pending)) pending) result) :
    Passes settled pending result

/-- Open nodes between two rounds: they are there, they have no kind yet, and what a node asks does
not depend on where it is listed. -/
structure Waiting (settled : Settled) (pending : List Pending) : Prop where
  bound : ∀ p ∈ pending, p.node < settled.size
  still : ∀ p ∈ pending, settled.kind? p.node = none
  unique : ∀ p ∈ pending, ∀ q ∈ pending, p.node = q.node → p = q

variable {settled result : Settled} {pending pending' : List Pending} {p : Pending}

theorem round_eq_nil_iff :
    round settled pending = [] ↔ ∀ p ∈ pending, p.candidate? settled = none := by
  simp [round]

namespace Waiting
variable (h : Waiting settled pending)
include h

theorem kind?_add_round (hp : p ∈ pending) :
    (settled.add (round settled pending)).kind? p.node = p.candidate? settled := by
  cases hk : p.candidate? settled with
  | none =>
    rw [← h.still p hp]
    apply Settled.kind?_add_of_forall_not_mem
    intro k hmem
    obtain ⟨q, hq, found, he⟩ := mem_round.1 hmem
    rw [h.unique q hq p hp he, hk] at found
    cases found
  | some k =>
    refine Settled.kind?_add_of_mem (h.bound p hp) (mem_round.2 ⟨p, hp, hk, rfl⟩) fun k' hmem => ?_
    obtain ⟨q, hq, found, he⟩ := mem_round.1 hmem
    rw [h.unique q hq p hp he, hk] at found
    exact (Option.some.inj found).symm

theorem next : Waiting (settled.add (round settled pending))
    (unsettled (settled.add (round settled pending)) pending) := by
  refine ⟨fun p hp => ?_, fun p hp => ?_, fun p hp q hq => ?_⟩
  · rw [Settled.size_add]
    exact h.bound p (List.mem_filter.1 hp).1
  · exact Option.isNone_iff_eq_none.1 (List.mem_filter.1 hp).2
  · exact h.unique p (List.mem_filter.1 hp).1 q (List.mem_filter.1 hq).1

theorem length_unsettled_lt :
    (unsettled (settled.add (round settled pending)) pending).length < pending.length ↔
      round settled pending ≠ [] := by
  rw [unsettled, List.length_filter_lt_length_iff_exists, ne_eq, round_eq_nil_iff, not_forall]
  simp only [not_forall, exists_prop]
  refine exists_congr fun p => and_congr_right fun hp => ?_
  rw [h.kind?_add_round hp, Option.isNone_iff_eq_none]

theorem passes : Passes settled pending (settle settled pending) := by
  induction settled, pending using settle.induct with
  | case1 settled pending next rest =>
    rename_i progress ih
    rw [settle]
    rw [if_pos progress]
    exact .pass (h.length_unsettled_lt.1 progress) (ih h.next)
  | case2 settled pending next =>
    rename_i rest stuck
    rw [settle]
    rw [if_neg stuck]
    by_cases left : pending = []
    · subst left
      exact .done
    · exact .stalled left (not_not.1 (h.length_unsettled_lt.not.1 stuck))

theorem kind?_settle_isSome (hp : p ∈ pending) :
    ((settle settled pending).kind? p.node).isSome = true := by
  induction settled, pending using settle.induct with
  | case1 settled pending next rest =>
    rename_i progress ih
    rw [settle]
    rw [if_pos progress]
    cases hk : next.kind? p.node with
    | none => exact ih h.next (List.mem_filter.2 ⟨hp, by rw [hk]; rfl⟩)
    | some k =>
      rw [kind?_settle_of_forall_ne fun q hq he => ?_, hk, Option.isSome_some]
      have none := h.next.still q hq
      rw [he, hk] at none
      cases none
  | case2 settled pending next =>
    rename_i rest stuck
    rw [settle]
    rw [if_neg stuck]
    have any : (settled.add (pending.map fun p => (p.node, .any))).kind? p.node = some .any := by
      refine Settled.kind?_add_of_mem (h.bound p hp) (List.mem_map.2 ⟨p, hp, rfl⟩) fun k hk => ?_
      obtain ⟨_, _, he⟩ := List.mem_map.1 hk
      exact (congrArg Prod.snd he).symm
    rw [any, Option.isSome_some]

end Waiting

theorem Passes.eq (hr : Passes settled pending result) (h : Waiting settled pending) :
    result = settle settled pending := by
  induction hr with
  | done =>
    have stuck := h.length_unsettled_lt.not.2 (not_not.2 rfl)
    rw [settle]
    rw [if_neg stuck]
    rfl
  | stalled left silent =>
    have stuck := h.length_unsettled_lt.not.2 (not_not.2 silent)
    rw [settle]
    rw [if_neg stuck]
  | pass found rest ih =>
    have progress := h.length_unsettled_lt.2 found
    rw [settle]
    rw [if_pos progress]
    exact ih h.next

theorem Waiting.passes_iff (h : Waiting settled pending) :
    Passes settled pending result ↔ result = settle settled pending :=
  ⟨fun hr => hr.eq h, fun he => he ▸ h.passes⟩

/-! ### The order of the list -/

theorem Settled.ext_kind? {a b : Settled} (hs : a.size = b.size) (h : ∀ n, a.kind? n = b.kind? n) :
    a = b := by
  apply Array.ext hs
  intro n ha hb
  have same := h n
  rwa [Settled.kind?, Settled.kind?, Array.getElem?_eq_getElem ha, Array.getElem?_eq_getElem hb]
    at same

/-- Kinds that are added at most once for each node can be added in any order. -/
theorem Settled.add_congr {kinds kinds' : Kinds}
    (bound : ∀ n k, (n, k) ∈ kinds → n < settled.size) (mem : ∀ e, e ∈ kinds' ↔ e ∈ kinds)
    (unique : ∀ n k k', (n, k) ∈ kinds → (n, k') ∈ kinds → k' = k) :
    settled.add kinds' = settled.add kinds := by
  refine Settled.ext_kind? (by rw [size_add, size_add]) fun n => ?_
  by_cases hn : ∃ k, (n, k) ∈ kinds
  · obtain ⟨k, hk⟩ := hn
    rw [kind?_add_of_mem (bound n k hk) hk fun k' => unique n k k' hk]
    refine kind?_add_of_mem (bound n k hk) ((mem _).2 hk) fun k' hk' => ?_
    exact unique n k k' hk ((mem _).1 hk')
  · rw [kind?_add_of_forall_not_mem (not_exists.1 hn)]
    exact kind?_add_of_forall_not_mem fun k hk => hn ⟨k, (mem _).1 hk⟩

section Listed
variable (mem : ∀ p, p ∈ pending' ↔ p ∈ pending)
include mem

theorem length_unsettled_lt_congr : (unsettled settled pending').length < pending'.length ↔
    (unsettled settled pending).length < pending.length := by
  simp only [unsettled, List.length_filter_lt_length_iff_exists, mem]

namespace Waiting
variable (h : Waiting settled pending)
include h

theorem add_round : settled.add (round settled pending') = settled.add (round settled pending) := by
  refine Settled.add_congr (fun n k hk => ?_) (fun e => ?_) fun n k k' hk hk' => ?_
  · obtain ⟨p, hp, _, rfl⟩ := mem_round.1 hk
    exact h.bound p hp
  · obtain ⟨n, k⟩ := e
    simp only [mem_round, mem]
  · obtain ⟨p, hp, found, rfl⟩ := mem_round.1 hk
    obtain ⟨q, hq, found', he⟩ := mem_round.1 hk'
    rw [h.unique q hq p hp he, found] at found'
    exact (Option.some.inj found').symm

theorem add_rest : settled.add (pending'.map fun p => (p.node, .any)) =
    settled.add (pending.map fun p => (p.node, .any)) := by
  refine Settled.add_congr (fun n k hk => ?_) (fun e => ?_) fun n k k' hk hk' => ?_
  · obtain ⟨p, hp, he⟩ := List.mem_map.1 hk
    cases he
    exact h.bound p hp
  · simp only [List.mem_map, mem]
  · obtain ⟨_, _, he⟩ := List.mem_map.1 hk
    obtain ⟨_, _, he'⟩ := List.mem_map.1 hk'
    exact (congrArg Prod.snd he').symm.trans (congrArg Prod.snd he)

/-- The same open nodes are settled alike in whatever order, and however often, they are listed. -/
theorem settle_congr : settle settled pending' = settle settled pending := by
  induction settled, pending using settle.induct generalizing pending' with
  | case1 settled pending next rest =>
    rename_i progress ih
    have left p : p ∈ unsettled next pending' ↔ p ∈ rest := by
      simp only [rest, unsettled, List.mem_filter, mem]
    rw [settle.eq_def settled pending', settle.eq_def settled pending]
    dsimp only
    rw [h.add_round mem, if_pos progress, if_pos ((length_unsettled_lt_congr mem).2 progress)]
    exact ih left h.next
  | case2 settled pending next =>
    rename_i rest stuck
    rw [settle.eq_def settled pending', settle.eq_def settled pending]
    dsimp only
    rw [h.add_round mem, if_neg stuck, if_neg ((length_unsettled_lt_congr mem).not.2 stuck)]
    exact h.add_rest mem

end Waiting
end Listed

/-! ### The nodes of a net -/

namespace Net
variable [Platform] {net : Net} {n : NodeId}

/-- The nodes in the order of a scan: first those of a list that are there, then the others. -/
def scan (net : Net) (order : List NodeId) : List NodeId :=
  order.filter net.contains ++ net.ids.filter (· ∉ order)

def waiting (net : Net) (scan : List NodeId) : List Pending :=
  (scan.filter fun n => (net.declared.kind? n).isNone).map fun n => ⟨n, net.asks n⟩

theorem mem_scan {order : List NodeId} : n ∈ net.scan order ↔ net.contains n = true := by
  simp only [scan, List.mem_append, List.mem_filter, mem_ids, decide_eq_true_eq]
  tauto

variable {scan scan' : List NodeId}

theorem waiting_scan (hs : ∀ n ∈ scan, net.contains n = true) :
    Waiting net.declared (net.waiting scan) := by
  refine ⟨fun p hp => ?_, fun p hp => ?_, fun p hp q hq => eq_of_mem_open hp hq⟩
  · rw [declared, Array.size_map]
    exact lt_size_of_contains (hs p.node (mem_open.1 hp).1)
  · exact Option.isNone_iff_eq_none.1 (mem_open.1 hp).2.1

theorem kind?_settledBy_isSome (hs : ∀ n, n ∈ scan ↔ net.contains n = true)
    (hn : net.contains n = true) : ((net.settledBy scan).kind? n).isSome = true := by
  cases hd : net.declared.kind? n with
  | none =>
    have hp : ⟨n, net.asks n⟩ ∈ net.waiting scan :=
      mem_open.2 ⟨(hs n).2 hn, by rw [hd]; rfl, rfl⟩
    exact (waiting_scan fun m => (hs m).1).kind?_settle_isSome hp
  | some k =>
    rw [settledBy]
    rw [kind?_settle_of_forall_ne, hd, Option.isSome_some]
    rintro p hp rfl
    have := (mem_open.1 hp).2.1
    rw [hd] at this
    cases this

theorem settledBy_congr (hs : ∀ n ∈ scan, net.contains n = true)
    (mem : ∀ n, n ∈ scan' ↔ n ∈ scan) : net.settledBy scan' = net.settledBy scan := by
  refine (waiting_scan hs).settle_congr fun p => ?_
  simp only [mem_open, mem]

theorem resolveInOrder_eq (order : List NodeId) : net.resolveInOrder order = net.resolve := by
  have same : net.settledBy (net.scan order) = net.settledBy net.ids :=
    settledBy_congr (fun n => mem_ids.1) fun n => mem_scan.trans mem_ids.symm
  exact congrArg net.withKinds same

end Net
end Patchbay
