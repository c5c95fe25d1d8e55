import Patchbay.Generator
import Patchbay.Proofs.Graph.Records
import Patchbay.Proofs.Graph.SafeLoads

/-! # Why a load refuses a document

The records are read one by one. The net that they make is then looked at as a whole: that it has no
cycle, that its values come in time, and that its lengths fit. Each stage has refusals of its own,
so a refusal tells which stage it comes from and that the stages before it had none.
-/

namespace Patchbay
open Relation

section
variable [Platform]

/-- What a load looks at, in this order. -/
inductive Stage where
  | records
  | cycles
  | timing
  | lengths

/-- The stage of a load that gives a refusal. Some are given by edits only. -/
def GraphError.stage? : GraphError → Option Stage
  | unknownOperator _ | invalidRecord _ _ => some .records
  | cycle _ _ => some .cycles
  | compileTimeRequired _ _ _ => some .timing
  | lengthMismatch _ _ _ _ _ | probeFailed _ _ => some .lengths
  | nodeNotFound _ | slotOutOfRange _ _ _ | recursivePlacement _ => none

namespace Record
variable {r : Record} {catalog : Catalog} {count index : Nat} {refusal : GraphError}

theorem stage?_of_node (h : r.node catalog index = .error refusal) :
    refusal.stage? = some .records := by
  unfold Record.node at h
  split at h
  · cases h
    rfl
  split at h
  · cases h
    rfl
  split at h
  · cases h
    rfl
  · cases h

omit [Platform] in
theorem stage?_of_producers (h : r.producers count index = .error refusal) :
    refusal.stage? = some .records := by
  obtain ⟨-, ⟨source, slot⟩, -, h, -⟩ := mapM_eq_error_iff.1 h
  dsimp only at h
  split at h
  · cases h
  split at h
  · cases h
    rfl
  · cases h

end Record

namespace Net
variable {net bare : Net} {document : Document} {catalog : Catalog} {refusal : GraphError}
  {n p : NodeId}

/-! ### Stages -/

theorem stage?_of_ofRecords (h : ofRecords document catalog = .error refusal) :
    refusal.stage? = some .records := by
  rcases bind_eq_error_iff.1 h with h | ⟨nodes, -, h⟩
  · obtain ⟨-, _, -, h, -⟩ := mapM_eq_error_iff.1 h
    exact Record.stage?_of_node h
  rcases bind_eq_error_iff.1 h with h | ⟨sources, -, h⟩
  · obtain ⟨-, _, -, h, -⟩ := mapM_eq_error_iff.1 h
    exact Record.stage?_of_producers h
  · cases h

theorem stage?_of_checkAcyclic (h : net.checkAcyclic = .error refusal) :
    refusal.stage? = some .cycles := by
  unfold checkAcyclic at h
  dsimp only at h
  split at h
  · cases h
  · cases h
    rfl

theorem stage?_of_checkInTime {demanded known : List NodeId} {e : Edge}
    (h : net.checkInTime demanded known e = .error refusal) : refusal.stage? = some .timing := by
  unfold checkInTime at h
  split at h
  · cases h
  split at h
  · cases h
  · cases h
    rfl

theorem stage?_of_checkFit {e : Edge} (h : net.checkFit e = .error refusal) :
    refusal.stage? = some .lengths := by
  unfold checkFit at h
  split at h
  · cases h
  unfold checkLength at h
  split at h
  · cases h
  rcases bind_eq_error_iff.1 h with h | ⟨length, -, h⟩
  · unfold probe at h
    split at h
    · cases h
    · cases h
      rfl
  · unfold checkFound at h
    split at h
    · cases h
    · cases h
      rfl

/-- A load refuses a document with the refusal of the first stage that has one. -/
theorem ofDocument_eq_error_iff : Net.ofDocument document catalog = .error refusal ↔
    ofRecords document catalog = .error refusal ∨
    ∃ bare, ofRecords document catalog = .ok bare ∧ (bare.checkAcyclic = .error refusal ∨
      bare.checkAcyclic = .ok () ∧
        (bare.edges.forM (bare.checkInTime bare.demanded (bare.knownEarly bare.demanded)) =
            .error refusal ∨
          bare.Timely ∧ bare.resolve.edges.forM bare.resolve.checkFit = .error refusal)) := by
  have checks (bare : Net) : (do
        discard (bare.resolve.edges.foldlM bare.resolve.checkFixedLength [])
        .ok bare.resolve : Except GraphError Net) = .error refusal ↔
      bare.resolve.edges.forM bare.resolve.checkFit = .error refusal := by
    rw [foldlM_checkFixedLength bare.resolve.found_nil, bind_eq_error_iff]
    exact or_iff_left fun ⟨_, _, h⟩ => nomatch h
  have passed {P : Unit → Prop} : (∃ u, P u) ↔ P () := Unique.exists_iff
  unfold Net.ofDocument
  simp only [bind_eq_error_iff, checks, passed, forM_checkInTime]

theorem refusal_cases (h : Net.ofDocument document catalog = .error refusal) :
    ofRecords document catalog = .error refusal ∨
    (∃ bare, ofRecords document catalog = .ok bare ∧ bare.checkAcyclic = .error refusal) ∨
    refusal.stage? = some .timing ∨ refusal.stage? = some .lengths := by
  obtain refused | ⟨bare, hr, refused | ⟨-, refused | ⟨-, refused⟩⟩⟩ :=
    ofDocument_eq_error_iff.1 h
  · exact .inl refused
  · exact .inr (.inl ⟨bare, hr, refused⟩)
  · obtain ⟨e, -, refused⟩ := exists_of_forM_eq_error refused
    exact .inr (.inr (.inl (stage?_of_checkInTime refused)))
  · obtain ⟨e, -, refused⟩ := exists_of_forM_eq_error refused
    exact .inr (.inr (.inr (stage?_of_checkFit refused)))

/-! ### Cycles -/

/-- The first producer of a node is that of its first attached slot. -/
theorem head?_sources : (net.sources n).head? = some p ↔
    ∃ slot, net.source? n slot = some p ∧ ∀ s < slot, net.source? n s = none := by
  simp only [sources, source?, inlet?]
  cases net.node? n with
  | none => simp
  | some node => exact head?_filterMap_eq_some

end Net

namespace Document
variable {document : Document} {p n : NodeId}

/-- A cycle lies behind the record, so that it stands in no order of producers before consumers. -/
def Stuck (document : Document) (n : NodeId) : Prop :=
  ∃ m, TransGen document.Feeds m m ∧ ReflTransGen document.Feeds m n

def FeedsFirst (document : Document) (p n : NodeId) : Prop :=
  ∃ slot, document.source? n slot = some p ∧ ∀ s < slot, document.source? n s = none

/-- The record at `n` names the one at `p`, and this closes a cycle. -/
def Closes (document : Document) (p n : NodeId) : Prop :=
  document.Feeds p n ∧ ReflTransGen document.Feeds n p

omit [Platform] in
theorem FeedsFirst.feeds (h : document.FeedsFirst p n) : document.Feeds p n := by
  obtain ⟨slot, hs, -⟩ := h
  exact feeds_iff.2 ⟨slot, hs⟩

omit [Platform] in
theorem Stuck.exists_feeds (h : document.Stuck n) : ∃ p, document.Feeds p n := by
  obtain ⟨m, cycle, behind⟩ := h
  obtain ⟨p, -, hp⟩ := TransGen.tail'_iff.1 (cycle.trans_left behind)
  exact ⟨p, hp⟩

omit [Platform] in
theorem Stuck.lt_length (h : document.Stuck n) : n < document.length := by
  obtain ⟨p, r, slot, hr, -⟩ := h.exists_feeds
  exact (List.getElem?_eq_some_iff.1 hr).1

end Document

namespace Net
variable {net bare : Net} {document : Document} {catalog : Catalog} {refusal : GraphError}
  {n p : NodeId}

theorem mem_inOrder_ofRecords (h : ofRecords document catalog = .ok bare) :
    n ∈ bare.inOrder bare.ids ↔ n < document.length ∧ ¬document.Stuck n := by
  have linked := (wired_ofRecords h).1.linked
  have feeds : bare.Feeds = document.Feeds := by
    ext p c
    exact feeds_ofRecords h
  have closed : ∀ n ∈ bare.ids, ∀ p, bare.Feeds p n → p ∈ bare.ids :=
    fun n _ p hp => mem_ids.2 (linked.noDangling p n hp)
  rw [mem_inOrder_iff linked (nodup_ids bare) (fun _ => lt_size_of_mem_ids) closed,
    ids_ofRecords h, List.mem_range, Document.Stuck, ← feeds, ← not_acc_iff linked.noDangling,
    Classical.not_not]

theorem find?_ofRecords (h : ofRecords document catalog = .ok bare) :
    bare.ids.find? (!(bare.inOrder bare.ids).contains ·) = some n ↔
      document.Stuck n ∧ ∀ m < n, ¬document.Stuck m := by
  have left (m : NodeId) : (!(bare.inOrder bare.ids).contains m) = true ↔
      document.length ≤ m ∨ document.Stuck m := by
    rw [Bool.not_eq_true', ← Bool.not_eq_true, List.contains_iff_mem, mem_inOrder_ofRecords h,
      not_and_or, Nat.not_lt, Classical.not_not]
  rw [ids_ofRecords h] at left ⊢
  rw [List.find?_range_eq_some, left, List.mem_range]
  constructor
  · rintro ⟨stuck, bound, before⟩
    refine ⟨stuck.resolve_left (Nat.not_le.2 bound), fun m hm behind => ?_⟩
    have reached := before m hm
    rw [(left m).2 (.inr behind)] at reached
    cases reached
  · rintro ⟨stuck, before⟩
    refine ⟨.inr stuck, stuck.lt_length, fun m hm => ?_⟩
    rw [Bool.not_eq_true', ← Bool.not_eq_true, left, not_or, Nat.not_le]
    exact ⟨hm.trans stuck.lt_length, before m hm⟩

/-- The record that is reported is the first one behind which a cycle lies, with the producer that
it names first. -/
theorem checkAcyclic_ofRecords (h : ofRecords document catalog = .ok bare) :
    bare.checkAcyclic = .error refusal ↔ ∃ n p, refusal = .cycle n p ∧ document.Stuck n ∧
      (∀ m < n, ¬document.Stuck m) ∧ document.FeedsFirst p n := by
  have first (n p : NodeId) : document.FeedsFirst p n ↔ (bare.sources n).head? = some p := by
    rw [head?_sources, Document.FeedsFirst]
    simp only [source?_ofRecords h]
  have reported (n : NodeId) := find?_ofRecords (n := n) h
  unfold checkAcyclic
  dsimp only
  cases hf : bare.ids.find? (!(bare.inOrder bare.ids).contains ·) with
  | none =>
    refine iff_of_false (fun he => nomatch he) ?_
    rintro ⟨n, p, -, stuck, before, -⟩
    cases hf.symm.trans ((reported n).2 ⟨stuck, before⟩)
  | some n =>
    obtain ⟨stuck, before⟩ := (reported n).1 hf
    obtain ⟨q, hq⟩ := stuck.exists_feeds
    obtain ⟨p, hp⟩ : ∃ p, (bare.sources n).head? = some p := by
      rw [← feeds_ofRecords h, ← mem_sources] at hq
      exact ⟨_, List.head?_eq_some_head (List.ne_nil_of_mem hq)⟩
    have head : (bare.sources n).headD n = p := by
      rw [List.headD_eq_head?_getD, hp, Option.getD_some]
    dsimp only
    rw [head, Except.error.injEq]
    constructor
    · rintro rfl
      exact ⟨n, p, rfl, stuck, before, (first n p).2 hp⟩
    · rintro ⟨n', p', rfl, stuck', before', hp'⟩
      cases hf.symm.trans ((reported n').2 ⟨stuck', before'⟩)
      cases hp.symm.trans ((first n p').1 hp')
      rfl

/-- A cycle is reported when all records are read and a cycle lies behind one of them. -/
theorem ofDocument_eq_cycle_iff : Net.ofDocument document catalog = .error (.cycle n p) ↔
    document.Readable catalog ∧ document.Stuck n ∧ (∀ m < n, ¬document.Stuck m) ∧
      document.FeedsFirst p n := by
  constructor
  · intro h
    rcases refusal_cases h with refused | ⟨bare, hr, refused⟩ | late | unfit
    · cases stage?_of_ofRecords refused
    · obtain ⟨n, p, same, report⟩ := (checkAcyclic_ofRecords hr).1 refused
      cases same
      exact ⟨exists_ofRecords_iff.1 ⟨bare, hr⟩, report⟩
    · cases late
    · cases unfit
  · rintro ⟨readable, report⟩
    obtain ⟨bare, hr⟩ := exists_ofRecords_iff.2 readable
    exact ofDocument_eq_error_iff.2
      (.inr ⟨bare, hr, .inl ((checkAcyclic_ofRecords hr).2 ⟨n, p, rfl, report⟩)⟩)

end Net

namespace Graph
variable {catalog : Catalog} {id : GraphId} {document : Document} {refusal : GraphError}

theorem ofDocument_eq_error_iff : ofDocument id document catalog = .error refusal ↔
    Net.ofDocument document catalog = .error refusal := by
  unfold ofDocument
  cases Net.ofDocument document catalog with
  | error cause => exact Iff.of_eq (by rw [Except.map, Except.error.injEq, Except.error.injEq])
  | ok net => exact iff_of_false nofun nofun

/-- A load reports the first record behind which a cycle lies, with the producer that the record
names first. The document has the reported edge and it has a cycle, but the edge may lead away from
the cycle. It closes one where the record is on a cycle and no cycle lies behind the other producers
of the record. -/
theorem cycle_reported (id : GraphId) (document : Document) (catalog : Catalog) (n p : NodeId) :
    (ofDocument id document catalog = .error (.cycle n p) ↔
      document.Readable catalog ∧ document.Stuck n ∧ (∀ m < n, ¬document.Stuck m) ∧
        document.FeedsFirst p n) ∧
    (ofDocument id document catalog = .error (.cycle n p) →
      document.Feeds p n ∧ (∃ m, TransGen document.Feeds m m) ∧
        (TransGen document.Feeds n n →
          (∀ q, document.Feeds q n → document.Stuck q → q = p) → document.Closes p n)) := by
  refine ⟨ofDocument_eq_error_iff.trans Net.ofDocument_eq_cycle_iff, fun h => ?_⟩
  obtain ⟨-, ⟨m, cycle, -⟩, -, first⟩ :=
    Net.ofDocument_eq_cycle_iff.1 (ofDocument_eq_error_iff.1 h)
  refine ⟨first.feeds, ⟨m, cycle⟩, fun around only => ⟨first.feeds, ?_⟩⟩
  obtain ⟨q, path, hq⟩ := TransGen.tail'_iff.1 around
  obtain rfl := only q hq ⟨n, around, path⟩
  exact path

end Graph

end

namespace Graph

def roundings (inputs : List Int) : Document :=
  inputs.map fun i => ⟨.builtin 51, [i], [], .empty, 0⟩

/-- Of two nodes that round each other, the edge into the first one is reported. -/
theorem cycle_reported_pair :
    ofDocument 0 (roundings [1, 0]) Builtin.catalog = .error (.cycle 0 1) ∧
      (roundings [1, 0]).Closes 1 0 := by
  have refused : ofDocument 0 (roundings [1, 0]) Builtin.catalog = .error (.cycle 0 1) :=
    failure?_eq_some.1 (by cbv)
  obtain ⟨-, -, closes⟩ := (cycle_reported 0 _ _ _ _).2 refused
  refine ⟨refused, closes (.head (b := 1) ?_ (.single ?_)) ?_⟩
  · exact ⟨_, 0, rfl, rfl⟩
  · exact ⟨_, 0, rfl, rfl⟩
  · rintro q ⟨r, slot, hr, hq⟩ -
    cases hr
    cases slot with
    | zero => exact Int.ofNat_inj.1 (Option.some.inj hq).symm
    | succ slot => cases hq

/-- The first record is reported although nothing reads it, so that no edge into it closes a cycle.
The cycle is that of the other two. -/
theorem not_closes_reported :
    ofDocument 0 (roundings [1, 2, 1]) Builtin.catalog = .error (.cycle 0 1) ∧
      ¬(roundings [1, 2, 1]).Closes 1 0 ∧ (roundings [1, 2, 1]).Closes 2 1 := by
  refine ⟨failure?_eq_some.1 (by cbv), fun closes => ?_, ?_, ?_⟩
  · have unread : ∀ r ∈ roundings [1, 2, 1], (0 : Int) ∉ r.inputs := by decide +kernel
    obtain he | ⟨c, ⟨r, slot, hr, h0⟩, -⟩ := closes.2.cases_head
    · cases he
    · exact unread r (List.mem_of_getElem? hr) (List.mem_of_getElem? h0)
  · exact ⟨_, 0, rfl, rfl⟩
  · exact .single ⟨_, 0, rfl, rfl⟩

end Graph
end Patchbay
