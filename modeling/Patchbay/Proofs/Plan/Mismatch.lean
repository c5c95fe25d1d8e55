import Patchbay.Proofs.Graph.Checks
import Patchbay.Proofs.Plan.Faults
import Patchbay.Proofs.Plan.Shared

/-! # Where a compile refuses a length

A compile stops at the first node that reads a vector of another length than its slot takes. At the
node that was asked for it stops exactly when all producers compile alone and without a fault, the
slots before fit, and the slot does not.
-/

namespace Patchbay
open Relation

variable [Platform]

namespace Net
variable {net : Net} {n p q : NodeId} {slot : Nat} {done : List Trial} {e : Entry}

/-- The node compiles alone, and without a fault. -/
def Clean (net : Net) (n : NodeId) : Prop :=
  ∃ plan, net.compile n [] = .ok plan ∧ plan.fault? n = none

theorem Trials.clean_iff {output : NodeId} {trials : List Trial}
    (h : net.Trials output [] trials) {t : Trial} (ht : t ∈ trials) (hs : t.source = output) :
    net.Clean output ↔ t.fault = none := by
  subst hs
  rw [Clean, (compile_eq_ok h.wellFormed).2 ⟨trials, h, rfl⟩]
  simp [h.fault?_plan ht]

/-- The producers of an entry were tried before it as they are tried alone. -/
def Preceded (net : Net) (done : List Trial) (e : Entry) : Prop :=
  ∀ q ∈ e.node.sources, ∃ u, trial? done q = some u ∧ ∃ trials, net.Trials q [] trials ∧ u ∈ trials

section Preceded
variable (he : e ∈ net.entries n) (hd : net.Preceded done e)
include he hd

/-- One slot refuses what it reads exactly when the length does not fit. -/
theorem leg_cases {x : Slot × Inlet} {k : Nat} (hx : e.node.sockets[k]? = some x) :
    (∀ q, net.source? e.source k = some q → net.LengthFits e.source k q) ∧
      (∃ leg, e.leg done (x, k) = .ok leg) ∨
    (∃ q, net.source? e.source k = some q ∧ ¬net.LengthFits e.source k q) ∧
      ∃ expected found, e.leg done (x, k) = .error (.lengthMismatch e.source k expected found) := by
  have node := (entry_of_mem_entries he).1
  obtain ⟨slot, inlet⟩ := x
  obtain ⟨hslot, hinlet⟩ := List.getElem?_zip_eq_some.1 hx
  have source : net.source? e.source k = inlet.source := source?_of_inlet node hinlet
  rw [source, Entry.leg]
  cases hp : inlet.source with
  | none =>
    refine .inl ⟨by simp, [inlet.default], ?_⟩
    simp [Entry.producer?, hp]
  | some q =>
    have mem : q ∈ e.node.sources := List.mem_filterMap.2 ⟨inlet, List.mem_of_getElem? hinlet, hp⟩
    obtain ⟨u, found, trials, ht, hu⟩ := hd q mem
    obtain ⟨_, rfl⟩ := mem_of_trial? found
    have slot? : net.slot? e.source k = some slot := by simp [Net.slot?, operator?, node, hslot]
    have fits : net.LengthFits e.source k u.source ↔
        ¬(0 < slot.length ∧ u.cells.length ≠ slot.length) := by
      simp only [LengthFits, slot?, Option.some.injEq, forall_eq', ht.probe hu, Except.ok.injEq]
      omega
    simp only [Entry.producer?, hp, Option.bind_some, found, Option.some.injEq, forall_eq',
      exists_eq_left', fits]
    split
    · rename_i misfit
      exact .inr ⟨not_not.2 misfit, _, _, rfl⟩
    · rename_i misfit
      exact .inl ⟨misfit, _, rfl⟩

theorem legs_mismatch_iff (hw : net.WellFormed) (hs : net.source? e.source slot = some p) :
    (∃ expected found, e.legs done = .error (.lengthMismatch e.source slot expected found)) ↔
      (∀ k < slot, ∀ q, net.source? e.source k = some q → net.LengthFits e.source k q) ∧
        ¬net.LengthFits e.source slot p := by
  have node := (entry_of_mem_entries he).1
  have socket {k : Nat} (hk : k ≤ slot) : ∃ x, e.node.sockets[k]? = some x := by
    obtain ⟨node', inlet, hn, hi, _⟩ := exists_inlet_of_source? hs
    cases node.symm.trans hn
    have arity := hw.arity _ _ node
    have bound := (List.getElem?_eq_some_iff.1 hi).1
    rw [← Option.isSome_iff_exists, isSome_getElem?, Node.sockets, List.length_zip]
    rw [Operator.arity] at arity
    omega
  have at_ (k : Nat) : e.node.sockets.zipIdx[k]? = e.node.sockets[k]?.map fun x => (x, k) := by
    rw [List.getElem?_zipIdx]
    simp
  simp only [Entry.legs, mapM_eq_error_iff, at_, Option.map_eq_some_iff]
  constructor
  · rintro ⟨expected, found, i, _, ⟨x, hx, rfl⟩, failed, before⟩
    rcases leg_cases he hd hx with ⟨_, leg, hl⟩ | ⟨⟨q, hq, misfit⟩, _, _, hl⟩
    · cases hl.symm.trans failed
    · cases hl.symm.trans failed
      cases hq.symm.trans hs
      refine ⟨fun k hk => ?_, misfit⟩
      obtain ⟨y, hy⟩ := socket hk.le
      rcases leg_cases he hd hy with ⟨fits, _⟩ | ⟨_, _, _, hl⟩
      · exact fits
      · obtain ⟨leg, hleg⟩ := before k hk (y, k) ⟨y, hy, rfl⟩
        cases hl.symm.trans hleg
  · rintro ⟨fits, misfit⟩
    obtain ⟨x, hx⟩ := socket le_rfl
    rcases leg_cases he hd hx with ⟨fit, _⟩ | ⟨_, expected, found, failed⟩
    · exact absurd (fit p hs) misfit
    · refine ⟨expected, found, slot, (x, slot), ⟨x, hx, rfl⟩, failed, fun k hk b hb => ?_⟩
      obtain ⟨y, hy, rfl⟩ := hb
      rcases leg_cases he hd hy with ⟨_, ok⟩ | ⟨⟨q, hq, bad⟩, _⟩
      · exact ok
      · exact absurd (fits k hk q hq) bad

theorem faultedSource?_eq_none_iff :
    e.faultedSource? done = none ↔ ∀ q, net.Feeds q e.source → net.Clean q := by
  rw [Entry.faultedSource?, List.find?_eq_none]
  refine forall_congr' fun q => ?_
  rw [mem_sources_entry he]
  refine imp_congr_right fun feeds => ?_
  obtain ⟨u, found, trials, ht, hu⟩ := hd q ((mem_sources_entry he).2 feeds)
  rw [found, ht.clean_iff hu (mem_of_trial? found).2]
  simp

theorem tryAfter_mismatch_iff (hw : net.WellFormed)
    (hs : net.source? e.source slot = some p) :
    (∃ expected found, e.tryAfter net.expand [] done =
      .error (.lengthMismatch e.source slot expected found)) ↔
      (∀ q, net.Feeds q e.source → net.Clean q) ∧
      (∀ k < slot, ∀ q, net.source? e.source k = some q → net.LengthFits e.source k q) ∧
        ¬net.LengthFits e.source slot p := by
  rw [← legs_mismatch_iff he hd hw hs, ← faultedSource?_eq_none_iff he hd, Entry.tryAfter]
  cases e.faultedSource? done with
  | some p => simp
  | none => cases e.legs done <;> simp [Except.map]

end Preceded

theorem source_of_mismatch {expand : NodeId → Legs → Except CompileError Plan} {externals : Legs}
    {expected found : Nat} (h : e.tryAfter expand externals done =
      .error (.lengthMismatch n slot expected found)) : e.source = n := by
  rw [Entry.tryAfter] at h
  split at h
  · cases h
  · have failed : e.legs done = .error (.lengthMismatch n slot expected found) := by
      cases hl : e.legs done <;> simp_all [Except.map]
    obtain ⟨_, ⟨⟨s, inlet⟩, k⟩, _, failed, _⟩ := mapM_eq_error_iff.1 failed
    rw [Entry.leg] at failed
    split at failed
    · cases failed
    · split at failed <;> cases failed
      rfl

section Compile
variable {new : List Trial} {after : List Entry} (hd : net.Deep WellFormed)
  (hc : net.contains n = true) (hs : net.entries n = new.map (·.toEntry) ++ e :: after)
  (tried : Tried net.expand [] new.reverse)
include hd hc hs tried

theorem compiles_of_prefix {u : Trial} (hu : u ∈ new) :
    ∃ trials, net.Trials u.source [] trials := by
  cases compiled : net.compile u.source [] with
  | ok plan =>
    obtain ⟨trials, ht, _⟩ := (compile_eq_ok hd.here).1 compiled
    exact ⟨trials, ht⟩
  | error cause =>
    have refused := evalTo_of_error hd.here hd.enters compiled new.reverse.length
    rcases (placed_of_entries hd.here hc hs tried).evalTo hd.enters new.reverse.length
      (List.mem_reverse.2 hu) with ⟨_, few⟩ | found
    · exact absurd few (Nat.lt_irrefl _)
    · exact absurd (found.symm.trans refused) u.found_ne_refused

theorem preceded_of_prefix (alone : ∀ q ∈ e.node.sources, ∃ trials, net.Trials q [] trials) :
    net.Preceded new.reverse e := by
  intro q hq
  obtain ⟨u, hu, found⟩ := exists_trial_of_prefix hd.here hc hs hq
  obtain ⟨trials, ht⟩ := alone q hq
  have up : ReflTransGen net.Feeds u.source q := by rw [(mem_of_trial? found).2]
  exact ⟨u, found, trials, ht, ht.mem_of_prefix hc hs tried hu up⟩

end Compile

/-- A compile fails at a slot of the node that was asked for exactly when all its producers compile
alone without a fault, the slots before fit, and the slot does not. -/
theorem compile_mismatch_iff (hd : net.Deep WellFormed) (hs : net.source? n slot = some p) :
    (∃ expected found, net.compile n [] = .error (.lengthMismatch n slot expected found)) ↔
      (∀ q, net.Feeds q n → net.Clean q) ∧
      (∀ k < slot, ∀ q, net.source? n k = some q → net.LengthFits n k q) ∧
        ¬net.LengthFits n slot p := by
  have hw := hd.here
  have hc := contains_of_source? hs
  rw [compile_eq, compileWith, if_pos hc]
  constructor
  · rintro ⟨expected, found, failed⟩
    have failed : tryAll net.expand [] (net.entries n) [] =
        .error (.lengthMismatch n slot expected found) := by
      cases hr : tryAll net.expand [] (net.entries n) [] <;> simp_all [Except.map]
    obtain ⟨new, e, after, entries, tried, stopped⟩ := tryAll_eq_error (by trivial) failed
    rw [List.append_nil] at tried stopped
    have he : e ∈ net.entries n := by simp [entries]
    obtain rfl := source_of_mismatch stopped
    have preceded := preceded_of_prefix hd hc entries tried fun q hq => by
      obtain ⟨u, hu, found⟩ := exists_trial_of_prefix hw hc entries hq
      exact (mem_of_trial? found).2 ▸ compiles_of_prefix hd hc entries tried hu
    exact (tryAfter_mismatch_iff he preceded hw hs).1 ⟨expected, found, stopped⟩
  · rintro ⟨clean, rules⟩
    have alone (q : NodeId) (hq : net.Feeds q n) : ∃ trials, net.Trials q [] trials := by
      obtain ⟨plan, compiled, _⟩ := clean q hq
      obtain ⟨trials, ht, _⟩ := (compile_eq_ok hw).1 compiled
      exact ⟨trials, ht⟩
    cases all : tryAll net.expand [] (net.entries n) [] with
    | ok trials =>
      have h := trials_of_tryAll hw hc all
      obtain ⟨t, ht, rfl⟩ := h.trial?_output
      have preceded : net.Preceded trials t.toEntry := by
        intro q hq
        have feeds := (h.mem_sources ht).1 hq
        obtain ⟨u, hu, found, rfl⟩ := h.exists_producer ht feeds
        obtain ⟨trials', h'⟩ := alone u.source feeds
        exact ⟨u, found, trials', h', h'.mem_of_mem h hu .refl⟩
      obtain ⟨expected, found, failed⟩ :=
        (tryAfter_mismatch_iff (h.mem_entries ht) preceded hw hs).2 ⟨clean, rules⟩
      cases (h.tryAfter ht).symm.trans failed
    | error cause =>
      obtain ⟨new, e, after, entries, tried, stopped⟩ := tryAll_eq_error (by trivial) all
      rw [List.append_nil] at tried stopped
      have he : e ∈ net.entries n := by simp [entries]
      rcases (upstream_of_mem_entries hw hc he).cases_tail with rfl | ⟨q, up, feeds⟩
      · have preceded := preceded_of_prefix hd hc entries tried fun q hq =>
          alone q ((mem_sources_entry he).1 hq)
        obtain ⟨expected, found, failed⟩ :=
          (tryAfter_mismatch_iff he preceded hw hs).2 ⟨clean, rules⟩
        obtain rfl := Except.error.inj (stopped.symm.trans failed)
        exact ⟨expected, found, rfl⟩
      · obtain ⟨trials, ht⟩ := alone q feeds
        obtain ⟨t, _, passed⟩ := ht.passes hc entries tried up
        cases stopped.symm.trans passed

end Net
end Patchbay
