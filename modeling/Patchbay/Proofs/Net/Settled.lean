import Patchbay.Proofs.Net.WellFormed

/-! # Kinds do not depend on handles

A round looks only at what was settled before it. So the kinds of a net are the same in whatever
order, and however often, the nodes are scanned, and they follow the nodes when these get other
handles. Both are one fact: open nodes that mirror one another are settled alike.
-/

namespace Patchbay

namespace Settled
variable {settled : Settled} {kinds : Kinds} {n : NodeId} {k : Kind}

@[simp] theorem size_add (settled : Settled) (kinds : Kinds) :
    (settled.add kinds).size = settled.size := by
  induction kinds generalizing settled with
  | nil => rfl
  | cons e kinds ih =>
    rw [add, List.foldl_cons, ← add, ih]
    exact Array.size_setIfInBounds

theorem kind?_setIfInBounds (settled : Settled) (m : NodeId) (k : Kind) (n : NodeId) :
    Settled.kind? (settled.setIfInBounds m (some k)) n =
      if m = n ∧ n < settled.size then some k else settled.kind? n := by
  rw [kind?, Array.getElem?_setIfInBounds, kind?]
  by_cases hm : m = n
  · subst hm
    by_cases hb : m < settled.size
    · simp [hb]
    · simp [hb]
  · simp [hm]

theorem kind?_add_of_forall_not_mem (h : ∀ k, (n, k) ∉ kinds) :
    (settled.add kinds).kind? n = settled.kind? n := by
  induction kinds generalizing settled with
  | nil => rfl
  | cons e kinds ih =>
    rw [add, List.foldl_cons, ← add, ih fun k hk => h k (List.mem_cons_of_mem e hk),
      kind?_setIfInBounds, if_neg]
    rintro ⟨rfl, _⟩
    exact h e.2 List.mem_cons_self

theorem kind?_add_of_mem (hb : n < settled.size) (h : (n, k) ∈ kinds)
    (unique : ∀ k', (n, k') ∈ kinds → k' = k) : (settled.add kinds).kind? n = some k := by
  induction kinds generalizing settled with
  | nil => cases h
  | cons e kinds ih =>
    rw [add, List.foldl_cons, ← add]
    by_cases rest : ∃ k', (n, k') ∈ kinds
    · obtain ⟨k', hk'⟩ := rest
      have same := unique k' (List.mem_cons_of_mem e hk')
      refine ih (hb.trans_eq Array.size_setIfInBounds.symm) (same ▸ hk') fun k' hk' => ?_
      exact unique k' (List.mem_cons_of_mem e hk')
    · rw [kind?_add_of_forall_not_mem (not_exists.1 rest), kind?_setIfInBounds]
      have head := (List.mem_cons.1 h).resolve_right fun hk => rest ⟨k, hk⟩
      rw [if_pos ⟨congrArg Prod.fst head.symm, hb⟩, ← head]

end Settled

/-! ### Nodes that ask no other node -/

section Alone
variable {settled : Settled} {pending : List Pending} {p : Pending} {n : NodeId} {k : Kind}

theorem mem_round : (n, k) ∈ round settled pending ↔
    ∃ p ∈ pending, p.candidate? settled = some k ∧ p.node = n := by
  simp only [round, List.mem_filterMap, Option.map_eq_some_iff, Prod.mk.injEq]
  exact exists_congr fun p => and_congr_right fun _ =>
    ⟨fun ⟨_, hk, hn, he⟩ => ⟨he ▸ hk, hn⟩, fun ⟨hk, hn⟩ => ⟨_, hk, hn, rfl⟩⟩

theorem kind?_settle_of_forall_ne (h : ∀ p ∈ pending, p.node ≠ n) :
    (settle settled pending).kind? n = settled.kind? n := by
  have kept : (settled.add (round settled pending)).kind? n = settled.kind? n := by
    apply Settled.kind?_add_of_forall_not_mem
    intro k hk
    obtain ⟨p, hp, _, he⟩ := mem_round.1 hk
    exact h p hp he
  induction settled, pending using settle.induct with
  | case1 settled pending next rest =>
    rename_i progress ih
    rw [settle]
    rw [if_pos progress]
    have still : ∀ p ∈ rest, p.node ≠ n := fun p hp => h p (List.mem_filter.1 hp).1
    refine (ih still (Settled.kind?_add_of_forall_not_mem fun k hk => ?_)).trans kept
    obtain ⟨p, hp, _, he⟩ := mem_round.1 hk
    exact still p hp he
  | case2 settled pending next =>
    rename_i rest stuck
    rw [settle]
    rw [if_neg stuck]
    refine Settled.kind?_add_of_forall_not_mem fun k hk => ?_
    obtain ⟨p, hp, he⟩ := List.mem_map.1 hk
    exact h p hp (congrArg Prod.fst he)

variable (hp : p ∈ pending) (unique : ∀ q ∈ pending, q.node = p.node → q = p)
  (hb : p.node < settled.size)
include hp unique hb

/-- A node that gets an answer in the first round has it as its kind. -/
theorem kind?_settle_of_candidate (hk : p.candidate? settled = some k) :
    (settle settled pending).kind? p.node = some k := by
  have found : (settled.add (round settled pending)).kind? p.node = some k := by
    refine Settled.kind?_add_of_mem hb (mem_round.2 ⟨p, hp, hk, rfl⟩) fun k' hk' => ?_
    obtain ⟨q, hq, hk', he⟩ := mem_round.1 hk'
    rw [unique q hq he, hk] at hk'
    exact (Option.some.inj hk').symm
  rw [settle]
  have progress : (unsettled (settled.add (round settled pending)) pending).length <
      pending.length :=
    List.length_filter_lt_length_iff_exists.2 ⟨p, hp, by rw [found]; exact Bool.false_ne_true⟩
  rw [if_pos progress, kind?_settle_of_forall_ne fun q hq he => ?_, found]
  obtain ⟨_, hnone⟩ := List.mem_filter.1 hq
  rw [he, found] at hnone
  cases hnone

theorem kind?_settle_of_asks_nil (ha : p.asks = []) (hk : settled.kind? p.node = none) :
    (settle settled pending).kind? p.node = some .any := by
  have silent (settled : Settled) : p.candidate? settled = none := by
    rw [Pending.candidate?, ha]
    rfl
  induction settled, pending using settle.induct with
  | case1 settled pending next rest =>
    rename_i progress ih
    rw [settle]
    rw [if_pos progress]
    have still : next.kind? p.node = none := by
      rw [← hk]
      apply Settled.kind?_add_of_forall_not_mem
      intro k hk
      obtain ⟨q, hq, found, he⟩ := mem_round.1 hk
      rw [unique q hq he, silent] at found
      cases found
    refine ih (List.mem_filter.2 ⟨hp, by rw [still]; rfl⟩) (fun q hq => ?_) ?_ still
    · exact unique q (List.mem_filter.1 hq).1
    · exact hb.trans_eq (Settled.size_add _ _).symm
  | case2 settled pending next =>
    rename_i rest stuck
    rw [settle]
    rw [if_neg stuck]
    refine Settled.kind?_add_of_mem hb (List.mem_map.2 ⟨p, hp, rfl⟩) fun k hk => ?_
    obtain ⟨_, _, he⟩ := List.mem_map.1 hk
    exact (congrArg Prod.snd he).symm

end Alone

/-! ### Open nodes under other handles -/

section Rename
variable (φ : NodeId → NodeId)

def KindSource.rename : KindSource → KindSource
  | declared kind => .declared kind
  | node n => .node (φ n)

def Pending.rename (p : Pending) : Pending := ⟨φ p.node, p.asks.map (·.rename φ)⟩

end Rename

section Settle
variable {φ : NodeId → NodeId} {inside : NodeId → Prop} {settled settled' : Settled}
  {pending pending' : List Pending} {n : NodeId}

/-- Open nodes that mirror others under a renaming of some nodes, with what is settled around them.
It does not matter in which order and how often they are listed. -/
structure Mirrors (φ : NodeId → NodeId) (inside : NodeId → Prop) (settled settled' : Settled)
    (pending pending' : List Pending) : Prop where
  injective : ∀ a b, inside a → inside b → φ a = φ b → a = b
  bound : ∀ n, inside n → n < settled.size ∧ φ n < settled'.size
  mem : ∀ q, q ∈ pending' ↔ ∃ p ∈ pending, p.rename φ = q
  within : ∀ p ∈ pending, inside p.node ∧ ∀ m, .node m ∈ p.asks → inside m
  unique : ∀ p ∈ pending, ∀ q ∈ pending, p.node = q.node → p = q
  kinds : ∀ n, inside n → settled'.kind? (φ n) = settled.kind? n

theorem kind?_add_mirror {kinds kinds' : Kinds}
    (injective : ∀ a b, inside a → inside b → φ a = φ b → a = b)
    (bound : ∀ n, inside n → n < settled.size ∧ φ n < settled'.size)
    (within : ∀ e ∈ kinds, inside e.1)
    (mem : ∀ e', e' ∈ kinds' ↔ ∃ e ∈ kinds, (φ e.1, e.2) = e')
    (unique : ∀ n k k', (n, k) ∈ kinds → (n, k') ∈ kinds → k' = k) (hn : inside n)
    (same : settled'.kind? (φ n) = settled.kind? n) :
    (settled'.add kinds').kind? (φ n) = (settled.add kinds).kind? n := by
  have back (k : Kind) (hk : (φ n, k) ∈ kinds') : (n, k) ∈ kinds := by
    obtain ⟨e, he, h⟩ := (mem _).1 hk
    obtain ⟨hm, rfl⟩ := Prod.mk.inj h
    rw [← injective e.1 n (within e he) hn hm]
    exact he
  by_cases h : ∃ k, (n, k) ∈ kinds
  · obtain ⟨k, hk⟩ := h
    rw [Settled.kind?_add_of_mem (bound n hn).1 hk fun k' => unique n k k' hk]
    refine Settled.kind?_add_of_mem (bound n hn).2 ((mem _).2 ⟨_, hk, rfl⟩) fun k' hk' => ?_
    exact unique n k k' hk (back k' hk')
  · rw [Settled.kind?_add_of_forall_not_mem (not_exists.1 h)]
    exact (Settled.kind?_add_of_forall_not_mem fun k hk => h ⟨k, back k hk⟩).trans same

namespace Mirrors
variable (h : Mirrors φ inside settled settled' pending pending')
include h

theorem answer?_eq {s : KindSource} (hs : ∀ m, s = .node m → inside m) :
    (s.rename φ).answer? settled' = s.answer? settled := by
  cases s with
  | declared kind => rfl
  | node m =>
    change (settled'.kind? (φ m)).filter _ = (settled.kind? m).filter _
    rw [h.kinds m (hs m rfl)]

theorem candidate?_eq {p : Pending} (hp : p ∈ pending) :
    (p.rename φ).candidate? settled' = p.candidate? settled := by
  have asks (l : List KindSource) (hl : ∀ m, .node m ∈ l → inside m) :
      (l.map (·.rename φ)).findSome? (·.answer? settled') = l.findSome? (·.answer? settled) := by
    induction l with
    | nil => rfl
    | cons s l ih =>
      rw [List.map_cons, List.findSome?_cons, List.findSome?_cons,
        h.answer?_eq fun m hm => hl m (hm ▸ List.mem_cons_self),
        ih fun m hm => hl m (List.mem_cons_of_mem s hm)]
  exact asks p.asks (h.within p hp).2

theorem kinds_round (hn : inside n) :
    (settled'.add (round settled' pending')).kind? (φ n) =
      (settled.add (round settled pending)).kind? n := by
  refine kind?_add_mirror h.injective h.bound (fun e he => ?_) (fun e => ?_)
    (fun n k k' hk hk' => ?_) hn (h.kinds n hn)
  · obtain ⟨p, hp, _, he⟩ := mem_round.1 (show (e.1, e.2) ∈ _ from he)
    exact he ▸ (h.within p hp).1
  · obtain ⟨n', k⟩ := e
    rw [mem_round]
    constructor
    · rintro ⟨q, hq, hk, rfl⟩
      obtain ⟨p, hp, rfl⟩ := (h.mem q).1 hq
      rw [h.candidate?_eq hp] at hk
      exact ⟨(p.node, k), mem_round.2 ⟨p, hp, hk, rfl⟩, rfl⟩
    · rintro ⟨⟨n, k'⟩, he, heq⟩
      obtain ⟨hn, hk⟩ := Prod.mk.inj heq
      dsimp only at hn hk
      subst hn hk
      obtain ⟨p, hp, hk, rfl⟩ := mem_round.1 he
      exact ⟨p.rename φ, (h.mem _).2 ⟨p, hp, rfl⟩, (h.candidate?_eq hp).trans hk, rfl⟩
  · obtain ⟨p, hp, found, rfl⟩ := mem_round.1 hk
    obtain ⟨q, hq, found', he⟩ := mem_round.1 hk'
    rw [h.unique q hq p hp he, found] at found'
    exact (Option.some.inj found').symm

/-- When a round settles nothing, the rest becomes wildcards on both sides. -/
theorem kinds_rest (hn : inside n) :
    (settled'.add (pending'.map fun p => (p.node, .any))).kind? (φ n) =
      (settled.add (pending.map fun p => (p.node, .any))).kind? n := by
  refine kind?_add_mirror h.injective h.bound (fun e he => ?_) (fun e => ?_)
    (fun n k k' hk hk' => ?_) hn (h.kinds n hn)
  · obtain ⟨p, hp, rfl⟩ := List.mem_map.1 he
    exact (h.within p hp).1
  · simp only [List.mem_map, h.mem, exists_exists_and_eq_and]
    rfl
  · obtain ⟨_, _, he⟩ := List.mem_map.1 hk
    obtain ⟨_, _, he'⟩ := List.mem_map.1 hk'
    rw [← (Prod.mk.inj he).2, ← (Prod.mk.inj he').2]

theorem next : Mirrors φ inside (settled.add (round settled pending))
    (settled'.add (round settled' pending'))
    (unsettled (settled.add (round settled pending)) pending)
    (unsettled (settled'.add (round settled' pending')) pending') := by
  have kinds (n : NodeId) (hn : inside n) := h.kinds_round hn
  refine ⟨h.injective, fun n hn => ?_, fun q => ?_, fun p hp => ?_, fun p hp q hq => ?_, kinds⟩
  · rw [Settled.size_add, Settled.size_add]
    exact h.bound n hn
  · simp only [unsettled, List.mem_filter, h.mem]
    constructor
    · rintro ⟨⟨p, hp, rfl⟩, hk⟩
      rw [Pending.rename, kinds p.node (h.within p hp).1] at hk
      exact ⟨p, ⟨hp, hk⟩, rfl⟩
    · rintro ⟨p, ⟨hp, hk⟩, rfl⟩
      rw [← kinds p.node (h.within p hp).1] at hk
      exact ⟨⟨p, hp, rfl⟩, hk⟩
  · exact h.within p (List.mem_filter.1 hp).1
  · exact h.unique p (List.mem_filter.1 hp).1 q (List.mem_filter.1 hq).1

theorem length_unsettled_lt :
    (unsettled (settled'.add (round settled' pending')) pending').length < pending'.length ↔
      (unsettled (settled.add (round settled pending)) pending).length < pending.length := by
  simp only [unsettled, List.length_filter_lt_length_iff_exists]
  constructor
  · rintro ⟨q, hq, hk⟩
    obtain ⟨p, hp, rfl⟩ := (h.mem q).1 hq
    rw [Pending.rename, h.kinds_round (h.within p hp).1] at hk
    exact ⟨p, hp, hk⟩
  · rintro ⟨p, hp, hk⟩
    rw [← h.kinds_round (h.within p hp).1] at hk
    exact ⟨p.rename φ, (h.mem _).2 ⟨p, hp, rfl⟩, hk⟩

end Mirrors

theorem kind?_settle (h : Mirrors φ inside settled settled' pending pending') (hn : inside n) :
    (settle settled' pending').kind? (φ n) = (settle settled pending).kind? n := by
  induction settled, pending using settle.induct generalizing settled' pending' with
  | case1 settled pending next rest =>
    rename_i progress ih
    rw [settle.eq_def settled', settle.eq_def settled]
    dsimp only
    rw [if_pos progress, if_pos (h.length_unsettled_lt.2 progress)]
    exact ih h.next
  | case2 settled pending next =>
    rename_i rest stuck
    rw [settle.eq_def settled', settle.eq_def settled]
    dsimp only
    rw [if_neg stuck, if_neg (h.length_unsettled_lt.not.2 stuck)]
    exact h.kinds_rest hn

end Settle
end Patchbay
