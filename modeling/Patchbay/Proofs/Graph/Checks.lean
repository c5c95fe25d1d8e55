import Patchbay.Proofs.Graph.Punctual
import Patchbay.Proofs.Net.RenamedOrder

/-! # What is checked of a net as a whole

A load checks the finished net: there is no cycle, every edge gives its value in time, and every
slot of fixed length has a producer of that length. Each check succeeds exactly when the net has the
property. The first two properties do not depend on the handles.
-/

namespace Patchbay
open Relation

variable [Platform]

namespace Net
variable {net net' : Net} {n p c : NodeId} {slot : Nat} {φ : NodeId → NodeId}

/-- Every edge gives its value as early as it is demanded. -/
def Timely (net : Net) : Prop := ∀ c slot p, net.source? c slot = some p → net.InTime c slot p

/-- A value is needed early at the slot: the slot demands it, or something behind its node does. -/
def Urgent (net : Net) (n : NodeId) (slot : Nat) : Prop :=
  (net.slot? n slot).any (·.compileTime) = true ∨ net.Demanded n

/-- The producer has the length that the slot demands, when it is compiled alone. -/
def LengthFits (net : Net) (n : NodeId) (slot : Nat) (p : NodeId) : Prop :=
  ∀ s, net.slot? n slot = some s → s.length ≠ 0 → net.probe p = .ok s.length

/-- Every slot of fixed length that is attached has a producer of that length. -/
def Measured (net : Net) : Prop :=
  ∀ c slot p, net.source? c slot = some p → net.LengthFits c slot p

/-! ### Cycles -/

theorem checkAcyclic_eq_ok (hw : net.Wired) : net.checkAcyclic = .ok () ↔ net.Acyclic := by
  refine ⟨acyclic_of_checkAcyclic hw, fun acyclic => ?_⟩
  have closed (m : NodeId) (_ : m ∈ net.ids) (p : NodeId) (hp : net.Feeds p m) : p ∈ net.ids :=
    mem_ids.2 (hw.linked.noDangling p m hp)
  have found : net.ids.find? (!(net.inOrder net.ids).contains ·) = none := by
    rw [List.find?_eq_none]
    intro n hn
    have taken := (mem_inOrder hw.linked acyclic net.nodup_ids (fun _ => lt_size_of_mem_ids)
      closed).2 hn
    rw [List.contains_iff_mem.2 taken]
    decide
  unfold checkAcyclic
  dsimp only
  rw [found]

theorem Renamed.acyclic_iff (h : net.Renamed φ net') (hs : net.NoDangling) :
    net'.Acyclic ↔ net.Acyclic := by
  constructor
  · intro acyclic n hn
    refine acyclic (φ n) (TransGen.lift φ (fun a b hab => ?_) _ _ hn)
    obtain ⟨slot, hb⟩ := hab
    exact (h.feeds_rename (contains_of_source? hb)).2 ⟨a, ⟨slot, hb⟩, rfl⟩
  · intro acyclic m hm
    obtain ⟨_, _, slot, last⟩ := TransGen.tail'_iff.1 hm
    obtain ⟨n, hn, rfl⟩ := h.exists_of_contains m (contains_of_source? last)
    obtain ⟨_, first, up⟩ := TransGen.head'_iff.1 hm
    obtain ⟨c, walk, rfl⟩ := (h.upstream_iff hs hn).1 up
    obtain ⟨p, hp, he⟩ := (h.feeds_rename (contains_of_upstream hs hn walk)).1 first
    cases h.injective (hs p c hp) hn he
    exact acyclic n (TransGen.head' hp walk)

/-! ### Early values -/

/-- A value is in time where none is demanded early, where it comes from an input, and where it is
known. -/
theorem inTime_iff (hw : net.WellFormed) (hp : net.contains p = true) {s : Slot} :
    net.inTime net.demanded net.isKnown n s p = true ↔
      (s.compileTime = true ∨ net.Demanded n →
        (net.operator? p).any Operator.isInput = true ∨ net.Known p) := by
  rw [inTime, Bool.or_eq_true, Bool.or_eq_true, Bool.not_eq_true', isKnown_iff hw, and_iff_right hp]
  have early : (s.compileTime || net.demanded.contains n) = true ↔
      s.compileTime = true ∨ net.Demanded n := by
    rw [Bool.or_eq_true, List.contains_iff_mem, mem_demanded hw.linked.noDangling]
  rw [← early]
  cases s.compileTime || net.demanded.contains n <;> simp

theorem inTime_edge_iff (hw : net.WellFormed) (hi : (net.inlet? n slot).isSome)
    (hp : net.contains p = true) : net.InTime n slot p ↔
      (net.Urgent n slot → (net.operator? p).any Operator.isInput = true ∨ net.Known p) := by
  obtain ⟨s, hslot⟩ := Option.isSome_iff_exists.1 ((slot?_isSome_iff hw.toWired).2 hi)
  rw [Urgent, hslot, Option.any_some, ← inTime_iff hw hp, InTime, hslot]
  exact ⟨fun h => h s rfl, fun h s' hs' => Option.some.inj hs' ▸ h⟩

theorem timely_iff (hw : net.WellFormed) : net.Timely ↔
    ∀ c slot p, net.source? c slot = some p → net.Urgent c slot →
      (net.operator? p).any Operator.isInput = true ∨ net.Known p := by
  refine forall_congr' fun c => forall_congr' fun slot => forall_congr' fun p => ?_
  refine imp_congr_right fun hs => inTime_edge_iff hw ?_ (hw.linked.noDangling p c ⟨slot, hs⟩)
  obtain ⟨_, inlet, hnode, hinlet, _⟩ := exists_inlet_of_source? hs
  rw [inlet?, hnode, Option.bind_some, hinlet]
  rfl

theorem Renamed.timely_iff (h : net.Renamed φ net') (hw : net.WellFormed)
    (hw' : net'.WellFormed) : net'.Timely ↔ net.Timely := by
  have dangling := hw.linked.noDangling
  rw [Net.timely_iff hw', Net.timely_iff hw]
  refine h.forall_source?_iff dangling fun c slot p hc hp => ?_
  rw [Urgent, h.slot?_rename hc, h.demanded_rename dangling hc, h.operator?_rename hp,
    h.known_rename dangling hp, Urgent]

/-- What is demanded early of a punctual net is known, so all its edges are in time. -/
theorem Punctual.timely (h : net.Punctual) (hw : net.WellFormed) : net.Timely := by
  refine (timely_iff hw).2 fun c slot p hs early => .inr ?_
  exact ((isKnown_iff hw).1 (h.isKnown hw hs early)).2

theorem inTime_knownEarly {e : Edge} (he : e ∈ net.edges) {s : Slot}
    (hs : net.slot? e.consumer e.slot = some s) :
    net.inTime net.demanded (net.knownEarly net.demanded).contains e.consumer s e.producer =
      net.inTime net.demanded net.isKnown e.consumer s e.producer := by
  rw [inTime, inTime]
  cases early : s.compileTime || net.demanded.contains e.consumer with
  | false => rfl
  | true =>
    have mem : e.producer ∈ ((net.edges.filter fun e =>
        net.demands e || net.demanded.contains e.consumer).map (·.producer)).eraseDups := by
      rw [List.mem_eraseDups]
      refine List.mem_map_of_mem (List.mem_filter.2 ⟨he, ?_⟩)
      rw [demands, hs]
      exact early
    congr 1
    rw [Bool.eq_iff_iff, List.contains_iff_mem, knownEarly, List.mem_filter, and_iff_right mem]

theorem checkInTime_eq_ok {e : Edge} (he : e ∈ net.edges) :
    net.checkInTime net.demanded (net.knownEarly net.demanded) e = .ok () ↔
      net.InTime e.consumer e.slot e.producer := by
  rw [checkInTime, InTime]
  cases hslot : net.slot? e.consumer e.slot with
  | none => exact iff_of_true rfl fun s hs => by cases hs
  | some slot =>
    dsimp only
    rw [inTime_knownEarly he hslot]
    split
    · rename_i h
      exact iff_of_true rfl fun s hs => Option.some.inj hs ▸ h
    · rename_i h
      exact iff_of_false (fun he => by cases he) fun hs => h (hs slot rfl)

/-! ### Lengths -/

omit [Platform] in
theorem checkFound_eq_ok {number found : Nat} {slot : Slot} :
    checkFound n number slot p found = .ok () ↔ found = slot.length := by
  rw [checkFound]
  split
  · rename_i h
    exact iff_of_true rfl h
  · rename_i h
    exact iff_of_false (fun he => nomatch he) h

theorem checkLength_eq_ok {number : Nat} {slot : Slot} :
    net.checkLength n number slot p = .ok () ↔
      (slot.length ≠ 0 → net.probe p = .ok slot.length) := by
  rw [checkLength]
  split
  · rename_i h
    exact iff_of_true rfl fun hne => absurd h hne
  · rename_i h
    rw [imp_iff_right h]
    cases net.probe p with
    | error cause => exact iff_of_false (fun he => by cases he) fun he => by cases he
    | ok found =>
      rw [Except.ok.injEq]
      change checkFound n number slot p found = .ok () ↔ _
      exact checkFound_eq_ok

/-- A new edge is accepted exactly when both its ends are there, it closes no cycle, its value comes
in time, and its length fits. -/
theorem checkEdge_eq_ok_iff (hw : net.WellFormed) : net.checkEdge n slot p = .ok () ↔
    ((net.inlet? n slot).isSome ∧ net.contains p = true ∧ ¬ReflTransGen net.Feeds n p) ∧
      net.InTime n slot p ∧ net.LengthFits n slot p := by
  rw [← slot?_isSome_iff hw.toWired, checkEdge, InTime, LengthFits, slot?, operator?]
  cases hn : net.node? n with
  | none => exact iff_of_false (fun h => by cases h) fun h => by cases h.1.1
  | some node =>
    cases hp : net.node? p with
    | none =>
      refine iff_of_false (fun h => by cases h) fun h => ?_
      rw [contains, hp] at h
      cases h.1.2.1
    | some producer =>
      have live : net.contains p = true := Option.isSome_of_eq_some hp
      dsimp only [Option.map_some, Option.bind_some]
      cases node.operator.slots[slot]? with
      | none => exact iff_of_false (fun h => by cases h) fun h => by cases h.1.1
      | some s =>
        rw [← reaches_iff hw.linked.noDangling live]
        dsimp only
        split
        · rename_i cycle
          exact iff_of_false (fun h => by cases h) fun h => h.1.2.2 cycle
        split
        · rename_i late
          refine iff_of_false (fun h => by cases h) fun h => ?_
          rw [h.2.1 s rfl] at late
          cases late
        · rename_i cycle inTime
          rw [Bool.not_eq_true, Bool.not_eq_false'] at inTime
          rw [checkLength_eq_ok]
          constructor
          · intro fits
            refine ⟨⟨rfl, live, cycle⟩, fun s' hs' => ?_, fun s' hs' => ?_⟩
            · cases hs'
              exact inTime
            · cases hs'
              exact fits
          · exact fun h => h.2.2 s rfl

def checkFit (net : Net) (e : Edge) : Except GraphError Unit :=
  match net.slot? e.consumer e.slot with
  | none => .ok ()
  | some slot => net.checkLength e.consumer e.slot slot e.producer

theorem checkFit_eq_ok {e : Edge} :
    net.checkFit e = .ok () ↔ net.LengthFits e.consumer e.slot e.producer := by
  rw [checkFit, LengthFits]
  cases net.slot? e.consumer e.slot with
  | none => simp
  | some slot => simp [checkLength_eq_ok]

/-- The lengths found so far are those of the probes. -/
def Found (net : Net) (found : List (NodeId × Nat)) : Prop :=
  ∀ p length, found.lookup p = some length → net.probe p = .ok length

theorem Found.cons {found : List (NodeId × Nat)} (hf : net.Found found) {length : Nat}
    (hp : net.probe p = .ok length) : net.Found ((p, length) :: found) := by
  intro q known hk
  rw [List.lookup_cons] at hk
  split at hk
  · rename_i he
    cases hk
    rw [eq_of_beq he]
    exact hp
  · exact hf q known hk

/-- With the lengths found before, an edge is checked as it is by itself. -/
theorem checkFixedLength_cases {found : List (NodeId × Nat)} (hf : net.Found found) (e : Edge) :
    (net.checkFit e = .ok () ∧
      ∃ found', net.checkFixedLength found e = .ok found' ∧ net.Found found') ∨
    ∃ refusal, net.checkFit e = .error refusal ∧
      net.checkFixedLength found e = .error refusal := by
  have probed : (found.lookup e.producer).elim (net.probe e.producer) .ok =
      net.probe e.producer := by
    cases hl : found.lookup e.producer with
    | none => rfl
    | some length => exact (hf _ _ hl).symm
  rw [checkFixedLength, checkFit]
  cases net.slot? e.consumer e.slot with
  | none => exact .inl ⟨rfl, found, rfl, hf⟩
  | some slot =>
    dsimp only
    rw [checkLength, probed]
    split
    · exact .inl ⟨rfl, found, rfl, hf⟩
    · cases hp : net.probe e.producer with
      | error cause => exact .inr ⟨cause, rfl, rfl⟩
      | ok length =>
        simp only [bind, Except.bind]
        cases checkFound e.consumer e.slot slot e.producer length with
        | error refusal => exact .inr ⟨refusal, rfl, rfl⟩
        | ok _ => exact .inl ⟨rfl, _, rfl, hf.cons hp⟩

theorem foldlM_checkFixedLength {edges : List Edge} {found : List (NodeId × Nat)}
    (hf : net.Found found) :
    discard (edges.foldlM net.checkFixedLength found) = edges.forM net.checkFit := by
  induction edges generalizing found with
  | nil => rfl
  | cons e edges ih =>
    have both : (e :: edges).forM net.checkFit =
        net.checkFit e >>= fun _ => edges.forM net.checkFit := rfl
    rw [List.foldlM_cons, both]
    rcases checkFixedLength_cases hf e with ⟨fits, found', step, hf'⟩ | ⟨refusal, fits, step⟩
    · rw [fits, step]
      exact ih hf'
    · rw [fits, step]
      rfl

theorem found_nil (net : Net) : net.Found [] := fun _ _ h => by cases h

theorem measured_iff :
    net.Measured ↔ ∃ found, net.edges.foldlM net.checkFixedLength [] = .ok found := by
  have all : net.Measured ↔ net.edges.forM net.checkFit = .ok () := by
    rw [forM_eq_ok]
    constructor
    · intro h e he
      exact checkFit_eq_ok.2 (h _ _ _ (mem_edges.1 he))
    · intro h c slot p hs
      exact checkFit_eq_ok.1 (h ⟨p, c, slot⟩ (mem_edges.2 hs))
  rw [all, ← foldlM_checkFixedLength net.found_nil]
  cases net.edges.foldlM net.checkFixedLength [] with
  | error refusal => exact iff_of_false nofun nofun
  | ok found => exact iff_of_true rfl ⟨found, rfl⟩

/-! ### Loads -/

theorem forM_checkInTime :
    net.edges.forM (net.checkInTime net.demanded (net.knownEarly net.demanded)) = .ok () ↔
      net.Timely := by
  rw [forM_eq_ok]
  constructor
  · intro h c slot p hs
    have mem : ⟨p, c, slot⟩ ∈ net.edges := mem_edges.2 hs
    exact (checkInTime_eq_ok mem).1 (h _ mem)
  · intro h e he
    exact (checkInTime_eq_ok he).2 (h _ _ _ (mem_edges.1 he))

/-- A document is loaded exactly when its records make a net that passes all checks. -/
theorem ofDocument_eq_ok_iff {document : Document} {catalog : Catalog} :
    Net.ofDocument document catalog = .ok net ↔
      ∃ bare, ofRecords document catalog = .ok bare ∧ bare.Acyclic ∧ bare.Timely ∧
        bare.resolve.Measured ∧ net = bare.resolve := by
  constructor
  · intro h
    obtain ⟨bare, hr, acyclic, timely, measured, rfl⟩ := ofDocument_eq_ok h
    rw [checkAcyclic_eq_ok (wired_ofRecords hr).1] at acyclic
    rw [← forM_eq_ok, forM_checkInTime] at timely
    exact ⟨bare, hr, acyclic, timely, measured_iff.2 measured, rfl⟩
  · rintro ⟨bare, hr, acyclic, timely, measured, rfl⟩
    rw [← checkAcyclic_eq_ok (wired_ofRecords hr).1] at acyclic
    rw [← forM_checkInTime] at timely
    obtain ⟨found, measured⟩ := measured_iff.1 measured
    unfold Net.ofDocument
    simp only [hr, acyclic, timely, bind, Except.bind]
    rw [measured]
    rfl

end Net
end Patchbay
