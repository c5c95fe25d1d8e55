import Patchbay.Proofs.ListSteps
import Patchbay.Proofs.Net.Order
import Patchbay.Proofs.Net.WellFormed

/-! # What is demanded early and what is known early

Something is demanded of a node when a path of edges leads from it to a slot that needs its value
before the first block. A net is punctual when no node of which that is so has to run in every
block. Then all of them are known, so that what must be known early also can be.
-/

namespace Patchbay
open Relation

variable [Platform]

namespace Net
variable {net net' : Net} {n p c : NodeId} {slot : Nat}

def Early (net : Net) (p c : NodeId) : Prop :=
  ∃ slot, net.source? c slot = some p ∧ (net.slot? c slot).any (·.compileTime) = true

/-- A slot downstream of the node needs its value early. -/
def Demanded (net : Net) (n : NodeId) : Prop :=
  ∃ p c, net.Early p c ∧ ReflTransGen net.Feeds n p

theorem mem_edges {e : Edge} :
    e ∈ net.edges ↔ net.source? e.consumer e.slot = some e.producer := by
  obtain ⟨p, c, slot⟩ := e
  simp only [edges, List.mem_flatMap, List.mem_filterMap, Prod.exists, mem_live,
    List.mem_zipIdx_iff_getElem?, Option.map_eq_some_iff, Edge.mk.injEq, source?, inlet?,
    Option.bind_eq_some_iff]
  constructor
  · rintro ⟨_, node, hnode, inlet, _, hinlet, _, hs, rfl, rfl, rfl⟩
    exact ⟨inlet, ⟨node, hnode, hinlet⟩, hs⟩
  · rintro ⟨inlet, ⟨node, hnode, hinlet⟩, hs⟩
    exact ⟨c, node, hnode, inlet, slot, hinlet, p, hs, rfl, rfl, rfl⟩

theorem mem_demanded (hs : net.NoDangling) : n ∈ net.demanded ↔ net.Demanded n := by
  simp only [demanded, mem_ancestorsOf hs, List.mem_map, List.mem_filter, mem_edges, Demanded]
  constructor
  · rintro ⟨_, ⟨e, ⟨he, hd⟩, rfl⟩, _, up⟩
    exact ⟨e.producer, e.consumer, ⟨e.slot, he, hd⟩, up⟩
  · rintro ⟨p, c, ⟨slot, he, hd⟩, up⟩
    exact ⟨p, ⟨⟨p, c, slot⟩, ⟨he, hd⟩, rfl⟩, lt_size_of_contains (hs p c ⟨slot, he⟩), up⟩

theorem isDemanded_iff (hs : net.NoDangling) : net.isDemanded n = true ↔ net.Demanded n := by
  rw [isDemanded, List.contains_iff_mem, mem_demanded hs]

theorem Demanded.of_upstream (h : net.Demanded c) (up : ReflTransGen net.Feeds p c) :
    net.Demanded p := by
  obtain ⟨q, d, early, down⟩ := h
  exact ⟨q, d, early, up.trans down⟩

theorem Demanded.of_feeds (h : net.Demanded c) (hf : net.Feeds p c) : net.Demanded p :=
  h.of_upstream (.single hf)

/-- A node of which something is demanded feeds a slot that needs its value early or feeds another
such node. -/
theorem Demanded.cases (h : net.Demanded n) :
    ∃ c slot, net.source? c slot = some n ∧
      ((net.slot? c slot).any (·.compileTime) = true ∨ net.Demanded c) := by
  obtain ⟨p, c, early, up⟩ := h
  rcases up.cases_head with rfl | ⟨m, ⟨slot, hs⟩, up⟩
  · obtain ⟨slot, hs, hd⟩ := early
    exact ⟨c, slot, hs, .inl hd⟩
  · exact ⟨m, slot, hs, .inr ⟨p, c, early, up⟩⟩

/-! ### Known nodes -/

/-- The output of the node is the same in every block. -/
inductive Known (net : Net) : NodeId → Prop
  | input {n : NodeId} {node : Node} (hn : net.node? n = some node)
    (live : node.operator.live = false) (input : node.operator.isInput = true)
    (demanded : net.Demanded n) : Known net n
  | body {n : NodeId} {node : Node} (hn : net.node? n = some node)
    (live : node.operator.live = false) (input : node.operator.isInput = false)
    (producers : ∀ p, net.Feeds p n → Known net p) : Known net n

theorem Known.live (h : net.Known n) {op : Operator} (ho : net.operator? n = some op) :
    op.live = false := by
  cases h with
  | input hn live _ _ | body hn live _ _ =>
    rw [operator?, hn] at ho
    cases ho
    exact live

theorem Known.demanded (h : net.Known n) {op : Operator} (ho : net.operator? n = some op)
    (hi : op.isInput = true) : net.Demanded n := by
  cases h with
  | input _ _ _ demanded => exact demanded
  | body hn _ body _ =>
    rw [operator?, hn] at ho
    cases ho
    rw [body] at hi
    cases hi

theorem knownFrom_iff (hs : net.NoDangling) {known : List NodeId}
    (hk : ∀ p, net.Feeds p n → (p ∈ known ↔ net.Known p)) :
    net.knownFrom net.demanded known n = true ↔ net.Known n := by
  rw [knownFrom]
  cases hn : net.node? n with
  | none => exact iff_of_false Bool.false_ne_true fun h => by cases h <;> simp_all
  | some node =>
    have sources (p : NodeId) : p ∈ node.sources ↔ net.Feeds p n := by
      rw [← mem_sources, Net.sources, hn]
      rfl
    dsimp only
    split
    · rename_i hl
      apply iff_of_false Bool.false_ne_true
      intro h
      rw [h.live (operator?_of_node? hn)] at hl
      cases hl
    split
    · rename_i hl hi
      rw [List.contains_iff_mem, mem_demanded hs]
      refine ⟨.input hn (by simpa using hl) hi, fun h => ?_⟩
      cases h with
      | input _ _ _ demanded => exact demanded
      | body hn' _ hi' _ => simp_all
    · rename_i hl hi
      simp only [List.all_eq_true, sources, List.contains_iff_mem]
      constructor
      · intro h
        exact .body hn (by simpa using hl) (by simpa using hi) fun p hp => (hk p hp).1 (h p hp)
      · intro h p hp
        cases h with
        | input hn' _ hi' _ => simp_all
        | body _ _ _ producers => exact (hk p hp).2 (producers p hp)

/-- The known ones among nodes that have their producers before them. -/
theorem mem_knownAmong (hs : net.NoDangling) {order : List NodeId}
    (hg : net.Grounded order.reverse) : n ∈ net.knownAmong order ↔ n ∈ order ∧ net.Known n := by
  have all := foldl_prefix (l := order) (b := ([] : List NodeId))
    (P := fun done known => ∀ n, n ∈ known ↔ n ∈ done ∧ net.Known n)
    (f := fun known n => if net.knownFrom net.demanded known n then n :: known else known)
    (by simp) fun done m rest known hl hk => by
      rw [hl, List.reverse_append, List.reverse_cons, List.append_assoc] at hg
      have producers (p : NodeId) (hp : net.Feeds p m) : p ∈ known ↔ net.Known p := by
        have before := List.mem_reverse.1 (hg.of_append.1 p hp)
        exact (hk p).trans (and_iff_right before)
      have taken := knownFrom_iff hs producers
      intro n
      split
      · rename_i hm
        rw [List.mem_cons, hk, List.mem_append, List.mem_singleton]
        constructor
        · rintro (rfl | ⟨hd, hn⟩)
          · exact ⟨.inr rfl, taken.1 hm⟩
          · exact ⟨.inl hd, hn⟩
        · rintro ⟨hd | rfl, hn⟩
          · exact .inr ⟨hd, hn⟩
          · exact .inl rfl
      · rename_i hm
        rw [hk, List.mem_append, List.mem_singleton]
        constructor
        · exact fun ⟨hd, hn⟩ => ⟨.inl hd, hn⟩
        · rintro ⟨hd | rfl, hn⟩
          · exact ⟨hd, hn⟩
          · exact absurd (taken.2 hn) hm
  exact all n

theorem isKnown_iff (h : net.WellFormed) :
    net.isKnown n = true ↔ net.contains n = true ∧ net.Known n := by
  rw [isKnown, Bool.and_eq_true, List.contains_iff_mem,
    mem_knownAmong h.linked.noDangling (grounded_lineage h.linked n)]
  refine and_congr_right fun hc => and_iff_right ?_
  exact (mem_lineage h.linked h.acyclic hc).2 .refl

/-! ### Punctual nets -/

/-- Inputs are the roots of a net: they have no slots, and a block need not compute them anew. -/
def Rooted (net : Net) : Prop :=
  ∀ n op, net.operator? n = some op → op.isInput = true → op.slots = [] ∧ op.live = false

/-- A block need not compute an input anew. -/
def InputsIdle (net : Net) : Prop :=
  ∀ n op, net.operator? n = some op → op.isInput = true → op.live = false

theorem Rooted.inputsIdle (h : net.Rooted) : net.InputsIdle :=
  fun n op ho hi => (h n op ho hi).2

/-- Nothing that runs in every block lies upstream of a slot that needs its value early. -/
def Punctual (net : Net) : Prop :=
  ∀ n op, net.Demanded n → net.operator? n = some op → op.live = false

theorem Wired.not_feeds (hw : net.Wired) {op : Operator} (ho : net.operator? n = some op)
    (hs : op.slots = []) : ¬net.Feeds p n := by
  rintro ⟨slot, hsource⟩
  obtain ⟨node, inlet, hnode, hinlet, _⟩ := exists_inlet_of_source? hsource
  rw [operator?, hnode] at ho
  cases ho
  have arity := hw.arity n node hnode
  rw [Operator.arity, hs] at arity
  rw [List.eq_nil_of_length_eq_zero arity] at hinlet
  cases hinlet

theorem Rooted.not_feeds (h : net.Rooted) (hw : net.Wired) {op : Operator}
    (ho : net.operator? n = some op) (hi : op.isInput = true) : ¬net.Feeds p n :=
  hw.not_feeds ho (h n op ho hi).1

/-- All that a known node depends on is known. -/
theorem Known.of_upstream (hw : net.Wired)
    (hr : ∀ n op, net.operator? n = some op → op.isInput = true → op.slots = [])
    (h : net.Known n) (up : ReflTransGen net.Feeds p n) : net.Known p := by
  induction h with
  | @input n node hn live input demanded =>
    rcases up.cases_tail with rfl | ⟨q, _, hf⟩
    · exact .input hn live input demanded
    · have operator := operator?_of_node? hn
      exact absurd hf (hw.not_feeds operator (hr n _ operator input))
  | @body n node hn live input producers ih =>
    rcases up.cases_tail with rfl | ⟨q, up, hf⟩
    · exact .body hn live input producers
    · exact ih q hf up

theorem Known.live_of_upstream (hr : net.Rooted) (hw : net.Wired) (h : net.Known n)
    (up : ReflTransGen net.Feeds p n) {op : Operator} (ho : net.operator? p = some op) :
    op.live = false :=
  (h.of_upstream hw (fun n op ho hi => (hr n op ho hi).1) up).live ho

/-- Nothing upstream of the node has to run in every block. -/
def Still (net : Net) (n : NodeId) : Prop :=
  ∀ m op, ReflTransGen net.Feeds m n → net.operator? m = some op → op.live = false

theorem Still.of_feeds (h : net.Still n) (hf : net.Feeds p n) : net.Still p :=
  fun m op up ho => h m op (up.tail hf) ho

/-- What is an input or known depends on nothing that has to run in every block. -/
theorem Rooted.still (hr : net.Rooted) (hw : net.Wired)
    (h : (net.operator? n).any Operator.isInput = true ∨ net.Known n) : net.Still n := by
  intro m op up ho
  rcases h with input | known
  · obtain ⟨op', ho', input⟩ := (Option.any_eq_true _ _).1 input
    rcases up.cases_tail with rfl | ⟨q, _, hf⟩
    · cases ho.symm.trans ho'
      exact (hr _ op ho input).2
    · exact absurd hf (hr.not_feeds hw ho' input)
  · exact known.live_of_upstream hr hw up ho

/-- A node is known when nothing upstream has to run in every block and something is demanded early
of every input upstream. -/
theorem known_of_upstream (hw : net.WellFormed) (hc : net.contains n = true)
    (h : ∀ m op, ReflTransGen net.Feeds m n → net.operator? m = some op →
      op.live = false ∧ (op.isInput = true → net.Demanded m)) : net.Known n := by
  induction n using (hw.acyclic.wellFounded hw.linked.noDangling).induction with
  | _ n ih =>
    obtain ⟨node, hnode⟩ := Option.isSome_iff_exists.1 hc
    obtain ⟨live, demanded⟩ := h n node.operator .refl (operator?_of_node? hnode)
    cases hi : node.operator.isInput with
    | true => exact .input hnode live hi (demanded hi)
    | false =>
      refine .body hnode live hi fun p hp => ?_
      exact ih p hp (hw.linked.noDangling p n hp) fun m op up ho => h m op (up.tail hp) ho

theorem known_iff (hw : net.WellFormed) (hr : net.Rooted) (hc : net.contains n = true) :
    net.Known n ↔ net.Still n ∧ ∀ m op, ReflTransGen net.Feeds m n → net.operator? m = some op →
      op.isInput = true → net.Demanded m := by
  constructor
  · intro known
    refine ⟨hr.still hw.toWired (.inr known), fun m op up ho input => ?_⟩
    exact (known.of_upstream hw.toWired (fun n op ho hi => (hr n op ho hi).1) up).demanded ho input
  · rintro ⟨still, demanded⟩
    exact known_of_upstream hw hc fun m op up ho => ⟨still m op up ho, demanded m op up ho⟩

theorem Punctual.known (h : net.Punctual) (hw : net.WellFormed) (hc : net.contains n = true)
    (hd : net.Demanded n) : net.Known n :=
  known_of_upstream hw hc fun m op up ho =>
    ⟨h m op (hd.of_upstream up) ho, fun _ => hd.of_upstream up⟩

end Net
end Patchbay
