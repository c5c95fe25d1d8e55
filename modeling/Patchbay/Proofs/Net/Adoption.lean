import Patchbay.Proofs.Net.Passes

/-! # Where a following node gets its kind

A node without a declared kind takes one over from around it, and what it takes it from may have
taken it over in turn. Such a chain ends in an operator or a slot that declares a concrete kind.
After so many rounds exactly the nodes with a chain of at most so many steps have a kind, each from
a shortest one.
-/

namespace Patchbay

variable [Platform]

namespace Net
variable (net : Net)

/-- The node takes its kind from around it. -/
def Follows (n : NodeId) : Prop := ∃ op, net.operator? n = some op ∧ op.output = .follows

/-- Whose kind a following node can take over. -/
inductive Adopts : NodeId → NodeId → Prop
  /-- The producer of the slot that it follows. -/
  | followed {n m : NodeId} {op : Operator} {s : Nat} (ho : net.operator? n = some op)
    (hf : op.follow = some s) (hm : net.source? n s = some m) : Adopts n m
  /-- The producer of a wildcard slot. -/
  | wildcard {n m : NodeId} {s : Nat} {slot : Slot} (hs : net.slot? n s = some slot)
    (any : slot.kind = .any) (hm : net.source? n s = some m) : Adopts n m
  /-- A following consumer that reads it through the wildcard slot that it follows, if any. -/
  | carried {n c : NodeId} {op : Operator} {s : Nat} {slot : Slot}
    (hn : net.source? c s = some n) (ho : net.operator? c = some op) (hc : op.output = .follows)
    (hf : op.follow = none ∨ op.follow = some s) (hs : op.slots[s]? = some slot)
    (any : slot.kind = .any) : Adopts n c

/-- A slot of a concrete kind reads the node. -/
inductive ReadAs : NodeId → Kind → Prop
  | slot {n c : NodeId} {s : Nat} {slot : Slot} (hn : net.source? c s = some n)
    (hs : net.slot? c s = some slot) (concrete : slot.kind.concrete = true) : ReadAs n slot.kind

/-- A number of steps that lead from a node to the declaration of a concrete kind. -/
inductive Chain : Nat → NodeId → Kind → Prop
  | fixed {n : NodeId} {op : Operator} {k : Kind} (ho : net.operator? n = some op)
    (hk : op.output = .fixed k) (concrete : k.concrete = true) : Chain 0 n k
  | read {n : NodeId} {k : Kind} (hf : net.Follows n) (hr : net.ReadAs n k) : Chain 1 n k
  | adopt {len : Nat} {n m : NodeId} {k : Kind} (hf : net.Follows n) (ha : net.Adopts n m)
    (rest : Chain len m k) : Chain (len + 1) n k

/-- The kind is declared at the end of a chain, and no chain is shorter. -/
structure Nearest (len : Nat) (n : NodeId) (k : Kind) : Prop where
  chain : net.Chain len n k
  least : ∀ len' k', net.Chain len' n k' → len ≤ len'

variable {net} {n m : NodeId} {k : Kind} {len : Nat}

theorem Chain.concrete (h : net.Chain len n k) : k.concrete = true := by
  induction h with
  | fixed _ _ concrete => exact concrete
  | read _ hr =>
    cases hr
    assumption
  | adopt _ _ _ ih => exact ih

/-! ### What a node asks -/

theorem mem_askedSlots {op : Operator} {s : Nat} :
    s ∈ askedSlots op ↔
      op.follow = some s ∨ ∃ slot, op.slots[s]? = some slot ∧ slot.kind = .any := by
  simp [askedSlots, List.mem_zipIdx_iff_getElem?]

theorem carries_iff {e : Edge} : net.carries e = true ↔
    ∃ op slot, net.operator? e.consumer = some op ∧ op.output = .follows ∧
      (op.follow = none ∨ op.follow = some e.slot) ∧ op.slots[e.slot]? = some slot ∧
      slot.kind = .any := by
  have alone (f : Option Nat) : f.all (· == e.slot) = true ↔ f = none ∨ f = some e.slot := by
    cases f <;> simp
  simp only [carries, Option.any_eq_true, Bool.and_eq_true, beq_iff_eq, alone]
  constructor
  · rintro ⟨op, ho, ⟨hc, hf⟩, slot, hs, any⟩
    exact ⟨op, slot, ho, hc, hf, hs, any⟩
  · rintro ⟨op, slot, ho, hc, hf, hs, any⟩
    exact ⟨op, ho, ⟨hc, hf⟩, slot, hs, any⟩

theorem mem_asks_node (hl : net.Linked) (hf : net.Follows n) :
    .node m ∈ net.asks n ↔ net.Adopts n m := by
  obtain ⟨op, ho, -⟩ := hf
  simp only [asks_eq ho, List.mem_append, List.mem_filterMap, mem_readers hl, mem_askedSlots]
  constructor
  · rintro ((⟨s, hs, hm⟩ | ⟨e, -, he⟩) | ⟨e, ⟨-, hn⟩, he⟩)
    · obtain ⟨_, hm, ⟨⟩⟩ := Option.map_eq_some_iff.1 hm
      rcases hs with hf | ⟨slot, hs, any⟩
      · exact .followed ho hf hm
      · exact .wildcard (by rw [slot?, ho]; exact hs) any hm
    · obtain ⟨slot, -, hs⟩ := Option.bind_eq_some_iff.1 he
      split at hs <;> cases hs
    · split at he
      · rename_i carried
        cases he
        obtain ⟨op, slot, ho, hc, hf, hs, any⟩ := carries_iff.1 carried
        exact .carried hn ho hc hf hs any
      · cases he
  · rintro (⟨ho', hf, hm⟩ | ⟨hs, any, hm⟩ | ⟨hn, ho', hc, hf, hs, any⟩)
    · obtain rfl := Option.some.inj (ho.symm.trans ho')
      exact .inl (.inl ⟨_, .inl hf, by rw [hm]; rfl⟩)
    · rw [slot?, ho] at hs
      exact .inl (.inl ⟨_, .inr ⟨_, hs, any⟩, by rw [hm]; rfl⟩)
    · rename_i s slot
      refine .inr ⟨⟨n, m, s⟩, ⟨rfl, hn⟩, if_pos ?_⟩
      exact carries_iff.2 ⟨_, slot, ho', hc, hf, hs, any⟩

/-- A following node asks the concrete kinds of the slots that read it. -/
theorem mem_asks_declared (hl : net.Linked) (hf : net.Follows n) :
    .declared k ∈ net.asks n ↔ net.ReadAs n k := by
  obtain ⟨op, ho, -⟩ := hf
  simp only [asks_eq ho, List.mem_append, List.mem_filterMap, mem_readers hl]
  constructor
  · rintro ((⟨s, -, hm⟩ | ⟨e, ⟨-, hn⟩, he⟩) | ⟨e, -, he⟩)
    · obtain ⟨_, -, ⟨⟩⟩ := Option.map_eq_some_iff.1 hm
    · obtain ⟨slot, hs, he⟩ := Option.bind_eq_some_iff.1 he
      split at he
      · rename_i concrete
        cases he
        exact .slot hn hs concrete
      · cases he
    · split at he <;> cases he
  · rintro ⟨hn, hs, concrete⟩
    rename_i c s slot
    exact .inl (.inr ⟨⟨n, c, s⟩, ⟨rfl, hn⟩, by simp [hs, concrete]⟩)

/-! ### Rounds -/

/-- What so many rounds have settled, and what they have left open. -/
structure Rounds (net : Net) (r : Nat) (settled : Settled) (pending : List Pending) : Prop where
  size : settled.size = net.nodes.size
  pending : ∀ p, p ∈ pending ↔
    net.Follows p.node ∧ settled.kind? p.node = none ∧ p.asks = net.asks p.node
  fixed : ∀ n op k, net.operator? n = some op → op.output = .fixed k → settled.kind? n = some k
  /-- A following node that has a kind has it from a shortest chain. -/
  sound : ∀ n k, net.Follows n → settled.kind? n = some k → ∃ len ≤ r, net.Nearest len n k
  /-- No node with a chain that short is left open. -/
  complete : ∀ len n k, net.Chain len n k → len ≤ r → (settled.kind? n).isSome

theorem follows_iff : net.Follows n ↔ net.contains n = true ∧ net.declared.kind? n = none := by
  rw [kind?_declared]
  constructor
  · rintro ⟨op, ho, hf⟩
    exact ⟨contains_of_operator? ho, by simp [ho, hf, OutputKind.fixed?]⟩
  · rintro ⟨hn, hd⟩
    obtain ⟨op, ho⟩ := exists_operator? hn
    refine ⟨op, ho, ?_⟩
    cases hk : op.output <;> simp_all [OutputKind.fixed?]

theorem rounds_zero (net : Net) : net.Rounds 0 net.declared
    ((net.ids.filter fun n => (net.declared.kind? n).isNone).map fun n => ⟨n, net.asks n⟩) := by
  have fixed n op k (ho : net.operator? n = some op) (hk : op.output = .fixed k) :
      net.declared.kind? n = some k := by
    simp [kind?_declared, ho, hk, OutputKind.fixed?]
  refine ⟨Array.size_map, fun p => ?_, fixed, fun n k hf hk => ?_, fun len n k hc hr => ?_⟩
  · rw [mem_open, mem_ids, follows_iff, Option.isNone_iff_eq_none]
    tauto
  · rw [(follows_iff.1 hf).2] at hk
    cases hk
  · cases hc with
    | fixed ho hk _ => simp [fixed _ _ _ ho hk]
    | read | adopt => omega

namespace Rounds
variable {r : Nat} {settled : Settled} {pending : List Pending} {p : Pending}
  (h : net.Rounds r settled pending) (hl : net.Linked)
include h

theorem mem (hf : net.Follows n) (hk : settled.kind? n = none) : ⟨n, net.asks n⟩ ∈ pending :=
  (h.pending _).2 ⟨hf, hk, rfl⟩

theorem lt_size (hf : net.Follows n) : n < settled.size :=
  (lt_size_of_contains (follows_iff.1 hf).1).trans_eq h.size.symm

/-- What is settled has the kind at the end of a shortest chain, if that is concrete. -/
theorem nearest (hn : net.contains n = true) (hk : settled.concrete? n = some k) :
    ∃ len ≤ r, net.Nearest len n k := by
  obtain ⟨hk, concrete⟩ := Option.filter_eq_some_iff.1 hk
  obtain ⟨op, ho⟩ := exists_operator? hn
  cases hc : op.output with
  | fixed k' =>
    obtain rfl := Option.some.inj ((h.fixed n op k' ho hc).symm.trans hk)
    exact ⟨0, Nat.zero_le r, .fixed ho hc concrete, fun _ _ _ => Nat.zero_le _⟩
  | follows => exact h.sound n k ⟨op, ho, hc⟩ hk

theorem concrete?_isSome (hc : net.Chain len n k) (hk : (settled.kind? n).isSome) :
    (settled.concrete? n).isSome := by
  obtain ⟨k', hk'⟩ := Option.isSome_iff_exists.1 hk
  have concrete : k'.concrete = true := by
    cases hc with
    | fixed ho hk concrete =>
      obtain rfl := Option.some.inj ((h.fixed _ _ _ ho hk).symm.trans hk')
      exact concrete
    | read hf _ | adopt hf _ _ =>
      obtain ⟨len, _, near⟩ := h.sound _ _ hf hk'
      exact near.chain.concrete
  simp [Settled.concrete?, hk', concrete]

include hl

/-- The first answer that an open node gets comes from a shortest chain. -/
theorem nearest_of_candidate (hp : p ∈ pending) (hk : p.candidate? settled = some k) :
    ∃ len ≤ r + 1, net.Nearest len p.node k := by
  obtain ⟨hf, still, asks⟩ := (h.pending p).1 hp
  have late {len k'} (hc : net.Chain len p.node k') : r + 1 ≤ len := by
    refine Nat.lt_of_not_le fun hr => ?_
    have some := h.complete _ _ _ hc hr
    rw [still] at some
    cases some
  rw [Pending.candidate?, asks] at hk
  obtain ⟨source, hs, answer⟩ := List.exists_of_findSome?_eq_some hk
  cases source with
  | declared k' =>
    obtain rfl : k' = k := Option.some.inj answer
    refine ⟨1, by omega, .read hf ((mem_asks_declared hl hf).1 hs), fun len k hc => ?_⟩
    have := late hc
    omega
  | node m =>
    obtain ⟨len, hr, near⟩ := h.nearest (contains_of_asks hl hs) answer
    refine ⟨len + 1, by omega, .adopt hf ((mem_asks_node hl hf).1 hs) near.chain, fun _ _ hc => ?_⟩
    have := late hc
    omega

/-- An open node gets an answer as soon as one of the nodes that it asks is settled. -/
theorem candidate_of_adopts (hp : p ∈ pending) (ha : net.Adopts p.node m) (hc : net.Chain len m k)
    (hm : (settled.kind? m).isSome) : (p.candidate? settled).isSome := by
  obtain ⟨hf, -, asks⟩ := (h.pending p).1 hp
  rw [Pending.candidate?, asks, List.findSome?_isSome_iff]
  exact ⟨.node m, (mem_asks_node hl hf).2 ha, h.concrete?_isSome hc hm⟩

theorem candidate_of_readAs (hp : p ∈ pending) (hr : net.ReadAs p.node k) :
    (p.candidate? settled).isSome := by
  obtain ⟨hf, -, asks⟩ := (h.pending p).1 hp
  rw [Pending.candidate?, asks, List.findSome?_isSome_iff]
  exact ⟨.declared k, (mem_asks_declared hl hf).2 hr, rfl⟩

omit hl

/-! ### The next round -/

theorem unique (hp : p ∈ pending) {q : Pending} (hq : q ∈ pending) (he : q.node = p.node) :
    q = p := by
  obtain ⟨-, -, hp⟩ := (h.pending p).1 hp
  obtain ⟨-, -, hq⟩ := (h.pending q).1 hq
  cases p
  cases q
  simp_all

theorem waiting : Waiting settled pending where
  bound p hp := h.lt_size ((h.pending p).1 hp).1
  still p hp := ((h.pending p).1 hp).2.1
  unique _ hp _ hq he := h.unique hq hp he

theorem kind?_add_of_settled {kinds : Kinds} (hk : settled.kind? n = some k)
    (inside : ∀ n k, (n, k) ∈ kinds → ∃ p ∈ pending, p.node = n) :
    (settled.add kinds).kind? n = some k := by
  rw [← hk]
  apply Settled.kind?_add_of_forall_not_mem
  intro k' hmem
  obtain ⟨p, hp, rfl⟩ := inside n k' hmem
  rw [((h.pending p).1 hp).2.1] at hk
  cases hk

theorem kept (hk : settled.kind? n = some k) :
    (settled.add (round settled pending)).kind? n = some k := by
  refine h.kind?_add_of_settled hk fun n k hmem => ?_
  obtain ⟨p, hp, -, he⟩ := mem_round.1 hmem
  exact ⟨p, hp, he⟩

include hl

/-- One more round settles the nodes whose shortest chain is one step longer. -/
theorem next : net.Rounds (r + 1) (settled.add (round settled pending))
    (unsettled (settled.add (round settled pending)) pending) := by
  refine ⟨(Settled.size_add _ _).trans h.size, fun p => ?_, fun n op k ho hk => ?_,
    fun n k hf hk => ?_, fun len n k hc hr => ?_⟩
  · rw [unsettled, List.mem_filter, Option.isNone_iff_eq_none]
    constructor
    · rintro ⟨hp, still⟩
      obtain ⟨hf, -, asks⟩ := (h.pending p).1 hp
      exact ⟨hf, still, asks⟩
    · rintro ⟨hf, still, asks⟩
      refine ⟨(h.pending p).2 ⟨hf, ?_, asks⟩, still⟩
      cases hk : settled.kind? p.node with
      | none => rfl
      | some k => rw [h.kept hk] at still; cases still
  · exact h.kept (h.fixed n op k ho hk)
  · cases hs : settled.kind? n with
    | none =>
      have hp := h.mem hf hs
      rw [show n = (⟨n, net.asks n⟩ : Pending).node from rfl, h.waiting.kind?_add_round hp] at hk
      exact h.nearest_of_candidate hl hp hk
    | some k' =>
      rw [h.kept hs] at hk
      obtain rfl := Option.some.inj hk
      obtain ⟨len, hr, near⟩ := h.sound n k' hf hs
      exact ⟨len, by omega, near⟩
  · cases hs : settled.kind? n with
    | some k' => rw [h.kept hs]; rfl
    | none =>
      cases hc with
      | fixed ho hk _ => rw [h.fixed _ _ _ ho hk] at hs; cases hs
      | read hf hread =>
        have hp := h.mem hf hs
        rw [h.waiting.kind?_add_round hp]
        exact h.candidate_of_readAs hl hp hread
      | adopt hf ha rest =>
        have hp := h.mem hf hs
        rw [h.waiting.kind?_add_round hp]
        exact h.candidate_of_adopts hl hp ha rest (h.complete _ _ _ rest (by omega))

theorem settled_of_chain (stuck : ∀ p ∈ pending, p.candidate? settled = none)
    (hc : net.Chain len n k) : (settled.kind? n).isSome := by
  have answered {n} (hf : net.Follows n)
      (some : ∀ p ∈ pending, p.node = n → (p.candidate? settled).isSome) :
      (settled.kind? n).isSome := by
    cases hs : settled.kind? n with
    | some k => rfl
    | none =>
      have hp := h.mem hf hs
      have found := some _ hp rfl
      rw [stuck _ hp] at found
      cases found
  induction hc with
  | fixed ho hk _ => rw [h.fixed _ _ _ ho hk]; rfl
  | read hf hr => exact answered hf fun p hp he => h.candidate_of_readAs hl hp (he ▸ hr)
  | adopt hf ha rest ih =>
    exact answered hf fun p hp he => h.candidate_of_adopts hl hp (he ▸ ha) rest ih

end Rounds

/-- Settling gives a following node the kind at the end of a shortest chain, and the wildcard if it
has no chain. -/
theorem Rounds.settle {r : Nat} {settled : Settled} {pending : List Pending}
    (h : net.Rounds r settled pending) (hl : net.Linked) (hf : net.Follows n) :
    (∃ len k, (settle settled pending).kind? n = some k ∧ net.Nearest len n k) ∨
      (settle settled pending).kind? n = some .any ∧ ∀ len k, ¬net.Chain len n k := by
  induction settled, pending using settle.induct generalizing r with
  | case1 settled pending next rest =>
    rename_i progress ih
    rw [Patchbay.settle]
    rw [if_pos progress]
    exact ih (h.next hl)
  | case2 settled pending next =>
    rename_i rest stuck
    rw [Patchbay.settle]
    rw [if_neg stuck]
    have silent : ∀ p ∈ pending, p.candidate? settled = none :=
      round_eq_nil_iff.1 (not_not.1 (h.waiting.length_unsettled_lt.not.1 stuck))
    cases hs : settled.kind? n with
    | none =>
      have hp := h.mem hf hs
      refine .inr ⟨?_, fun len k hc => ?_⟩
      · refine Settled.kind?_add_of_mem (h.lt_size hf) (List.mem_map.2 ⟨_, hp, rfl⟩) fun k hk => ?_
        obtain ⟨_, _, he⟩ := List.mem_map.1 hk
        exact (congrArg Prod.snd he).symm
      · have some := h.settled_of_chain hl silent hc
        rw [hs] at some
        cases some
    | some k =>
      obtain ⟨len, -, near⟩ := h.sound n k hf hs
      refine .inl ⟨len, k, h.kind?_add_of_settled hs fun n k hmem => ?_, near⟩
      obtain ⟨p, hp, he⟩ := List.mem_map.1 hmem
      exact ⟨p, hp, congrArg Prod.fst he⟩

/-- A producer of a fixed kind on the followed slot is asked first. -/
theorem kind?_settled_of_followed {op source : Operator} {s : Nat} (ho : net.operator? n = some op)
    (hf : op.output = .follows) (hs : op.follow = some s) (hm : net.source? n s = some m)
    (hsource : net.operator? m = some source) (hk : source.output = .fixed k)
    (concrete : k.concrete = true) : net.settled.kind? n = some k := by
  have h := rounds_zero net
  have follows : net.Follows n := ⟨op, ho, hf⟩
  have hp := h.mem follows (follows_iff.1 follows).2
  refine kind?_settle_of_candidate hp (fun q hq => h.unique hp hq) (h.lt_size follows) ?_
  have answer : net.declared.concrete? m = some k := by
    simp [Settled.concrete?, h.fixed m source k hsource hk, concrete]
  simp [Pending.candidate?, asks_eq ho, askedSlots, hs, hm, KindSource.answer?, answer]

end Net
end Patchbay
