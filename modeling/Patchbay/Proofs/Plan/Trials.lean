import Patchbay.Plan.Layout
import Patchbay.Proofs.ListSteps
import Patchbay.Proofs.Net.WellFormed

/-! # The trials of a compile

A compile tries every node of a lineage after its producers. Since every handle stands in the
lineage once and after its producers, the trial of a node can be read off from all trials at once,
whatever order they were made in.
-/

namespace Patchbay
open Relation

variable [Platform]

section Lookup
variable {trials : List Trial} {t p : Trial} {n : NodeId}

theorem mem_of_trial? (h : trial? trials n = some t) : t ∈ trials ∧ t.source = n :=
  ⟨List.mem_of_find?_eq_some h, by simpa using List.find?_some h⟩

theorem trial?_of_mem (hn : (trials.map (·.source)).Nodup) (ht : t ∈ trials) :
    trial? trials t.source = some t := find?_of_mem hn ht

theorem exists_trial? (hn : n ∈ trials.map (·.source)) : ∃ t, trial? trials n = some t := by
  obtain ⟨t, ht, he⟩ := List.mem_map.1 hn
  rw [← Option.isSome_iff_exists, trial?, List.find?_isSome]
  exact ⟨t, ht, beq_iff_eq.2 he⟩

theorem trial?_of_forall₂ {R : Trial → Trial → Prop} {trials' : List Trial} {m : NodeId}
    (h : List.Forall₂ R trials trials') (same : ∀ t t', R t t' → (t'.source = m ↔ t.source = n)) :
    Option.Rel R (trial? trials n) (trial? trials' m) := by
  induction h with
  | nil => exact .none
  | @cons t t' _ _ ht _ ih =>
    have key : (t'.source == m) = (t.source == n) :=
      Bool.eq_iff_iff.2 (by rw [beq_iff_eq, beq_iff_eq, same t t' ht])
    rw [trial?, trial?, List.find?_cons, List.find?_cons, key]
    cases t.source == n with
    | true => exact .some ht
    | false => exact ih

namespace Trial

def vector (t : Trial) (value : Trial → Cells) (s : Socket) : Cells :=
  match s.producer with
  | none => [s.inlet.default]
  | some p => (value p).map fun c => c.convert p.kind (t.reads s.slot)

def legsOf (trials : List Trial) (value : Trial → Cells) (t : Trial) : Legs :=
  (t.sockets trials).map (t.vector value)

/-- Whether all producers of a node give vectors of the lengths that its slots demand. -/
def Fitting (trials : List Trial) (t : Trial) : Prop :=
  ∀ s ∈ t.sockets trials, ∀ p, s.producer = some p → 0 < s.slot.length →
    p.cells.length = s.slot.length

theorem getElem?_sockets {s : Socket} {i : Nat} :
    (t.sockets trials)[i]? = some s ↔
      t.node.operator.slots[i]? = some s.slot ∧ t.node.inlets[i]? = some s.inlet ∧ s.number = i ∧
        s.producer = Entry.producer? trials s.inlet := by
  obtain ⟨slot, inlet, number, producer⟩ := s
  simp only [sockets, List.getElem?_map, List.getElem?_zipIdx, Option.map_map, Node.sockets,
    List.getElem?_zip_eq_some, Option.map_eq_some_iff, Function.comp_apply, Socket.mk.injEq,
    Prod.exists, Nat.zero_add]
  constructor
  · rintro ⟨_, _, ⟨hs, hi⟩, rfl, rfl, rfl, rfl⟩
    exact ⟨hs, hi, rfl, rfl⟩
  · rintro ⟨hs, hi, rfl, rfl⟩
    exact ⟨slot, inlet, ⟨hs, hi⟩, rfl, rfl, rfl, rfl⟩

theorem mem_sockets {s : Socket} (h : s ∈ t.sockets trials) :
    (t.sockets trials)[s.number]? = some s := by
  obtain ⟨i, hi⟩ := List.getElem?_of_mem h
  rw [(getElem?_sockets.1 hi).2.2.1]
  exact hi

theorem getElem?_legsOf (value : Trial → Cells) {s : Socket} (h : s ∈ t.sockets trials) :
    (t.legsOf trials value)[s.number]? = some (t.vector value s) := by
  rw [legsOf, List.getElem?_map, mem_sockets h, Option.map_some]

end Trial

/-- A node gets its legs exactly when they have the demanded lengths. -/
theorem legs_eq_ok {legs : Legs} :
    t.toEntry.legs trials = .ok legs ↔ t.Fitting trials ∧ legs = t.legsOf trials Trial.cells := by
  have pointwise (x : (Slot × Inlet) × Nat) (leg : Cells) :
      t.toEntry.leg trials x = .ok leg ↔
        (∀ p, Entry.producer? trials x.1.2 = some p → 0 < x.1.1.length →
          p.cells.length = x.1.1.length) ∧
        leg = t.vector Trial.cells ⟨x.1.1, x.1.2, x.2, Entry.producer? trials x.1.2⟩ := by
    obtain ⟨⟨slot, inlet⟩, number⟩ := x
    simp only [Entry.leg, Trial.vector]
    cases Entry.producer? trials inlet with
    | none => simp [eq_comm]
    | some p =>
      by_cases h : 0 < slot.length ∧ p.cells.length ≠ slot.length
      · simp only [if_pos h, Option.some.injEq, forall_eq', reduceCtorEq, false_iff]
        exact fun hp => h.2 (hp.1 h.1)
      · simp only [if_neg h, Except.ok.injEq, Option.some.injEq, forall_eq']
        have fits : 0 < slot.length → p.cells.length = slot.length := by
          intro hs
          by_contra hl
          exact h ⟨hs, hl⟩
        exact ⟨fun he => ⟨fits, he.symm⟩, fun he => he.2.symm⟩
  rw [Entry.legs, mapM_eq_ok_of_map fun x _ leg => pointwise x leg, Trial.Fitting, Trial.legsOf,
    Trial.sockets, List.map_map]
  simp only [List.forall_mem_map]
  rfl

end Lookup

/-- Trials of which each was made after the ones behind it. -/
def Tried (expand : NodeId → Legs → Except CompileError Plan) (externals : Legs) :
    List Trial → Prop
  | [] => True
  | t :: done => t.toEntry.tryAfter expand externals done = .ok t ∧ Tried expand externals done

section Tried
variable {expand : NodeId → Legs → Except CompileError Plan} {externals : Legs}

theorem Tried.of_append {l₁ l₂ : List Trial} (h : Tried expand externals (l₁ ++ l₂)) :
    Tried expand externals l₂ := by
  induction l₁ with
  | nil => exact h
  | cons t l₁ ih => exact ih h.2

theorem entry_of_tryAfter {e : Entry} {done : List Trial} {t : Trial}
    (h : e.tryAfter expand externals done = .ok t) : t.toEntry = e := by
  unfold Entry.tryAfter at h
  split at h
  · cases h
    rfl
  · cases hl : e.legs done with
    | error => simp [hl, Except.map] at h
    | ok legs =>
      simp only [hl, Except.map, Except.ok.injEq] at h
      rw [← h]

theorem tryAll_eq_ok {entries : List Entry} {done trials : List Trial}
    (hd : Tried expand externals done) :
    Net.tryAll expand externals entries done = .ok trials ↔
      ∃ new, trials = done.reverse ++ new ∧ new.map (·.toEntry) = entries ∧
        Tried expand externals (new.reverse ++ done) := by
  induction entries generalizing done with
  | nil =>
    rw [Net.tryAll, Except.ok.injEq]
    constructor
    · rintro rfl
      exact ⟨[], (List.append_nil _).symm, rfl, hd⟩
    · rintro ⟨new, rfl, hn, _⟩
      rw [List.map_eq_nil_iff.1 hn, List.append_nil]
  | cons e rest ih =>
    rw [Net.tryAll]
    constructor
    · intro h
      cases ht : e.tryAfter expand externals done with
      | error => simp [ht, bind, Except.bind] at h
      | ok t =>
        have entry := entry_of_tryAfter ht
        have tried : Tried expand externals (t :: done) := ⟨by rw [entry]; exact ht, hd⟩
        simp only [ht, bind, Except.bind] at h
        obtain ⟨new, rfl, hn, hnew⟩ := (ih tried).1 h
        refine ⟨t :: new, by simp, by rw [List.map_cons, hn, entry], ?_⟩
        rw [List.reverse_cons, List.append_assoc]
        exact hnew
    · rintro ⟨new, rfl, hn, hnew⟩
      obtain ⟨t, new, rfl, rfl, rfl⟩ := List.map_eq_cons_iff.1 hn
      rw [List.reverse_cons, List.append_assoc] at hnew
      have tried : Tried expand externals (t :: done) := hnew.of_append
      simp only [tried.1, bind, Except.bind]
      exact (ih tried).2 ⟨new, by simp, rfl, hnew⟩

theorem tryAll_eq_error {entries : List Entry} {done : List Trial} {cause : CompileError}
    (hd : Tried expand externals done)
    (h : Net.tryAll expand externals entries done = .error cause) :
    ∃ (new : List Trial) (e : Entry) (after : List Entry),
      entries = new.map (·.toEntry) ++ e :: after ∧
      Tried expand externals (new.reverse ++ done) ∧
      e.tryAfter expand externals (new.reverse ++ done) = .error cause := by
  induction entries generalizing done with
  | nil => cases h
  | cons e rest ih =>
    rw [Net.tryAll] at h
    cases ht : e.tryAfter expand externals done with
    | error c =>
      simp only [ht, bind, Except.bind, Except.error.injEq] at h
      exact ⟨[], e, rest, rfl, hd, h ▸ ht⟩
    | ok t =>
      have entry := entry_of_tryAfter ht
      have tried : Tried expand externals (t :: done) := ⟨by rw [entry]; exact ht, hd⟩
      simp only [ht, bind, Except.bind] at h
      obtain ⟨new, e', after, rfl, hnew, he⟩ := ih tried h
      refine ⟨t :: new, e', after, by rw [List.map_cons, entry]; rfl, ?_, ?_⟩ <;>
        rw [List.reverse_cons, List.append_assoc]
      · exact hnew
      · exact he

section Congr
variable {e : Entry} {done done' : List Trial}
  (h : ∀ p ∈ e.node.sources, trial? done p = trial? done' p)
include h

theorem producer?_congr {s : Slot × Inlet} (hs : s ∈ e.node.sockets) :
    Entry.producer? done s.2 = Entry.producer? done' s.2 := by
  rw [Entry.producer?, Entry.producer?]
  cases hp : s.2.source with
  | none => rfl
  | some p => exact h p (List.mem_filterMap.2 ⟨s.2, (List.of_mem_zip hs).2, hp⟩)

theorem attached_congr : e.attached done = e.attached done' :=
  List.map_congr_left fun s hs => by rw [producer?_congr h hs]

theorem legs_congr : e.legs done = e.legs done' := by
  apply mapM_congr
  intro x hx
  obtain ⟨⟨slot, inlet⟩, number⟩ := x
  have hs : (slot, inlet) ∈ e.node.sockets :=
    List.mem_of_getElem? (List.mem_zipIdx_iff_getElem?.1 hx)
  simp only [Entry.leg, producer?_congr h hs]

theorem tryAfter_congr :
    e.tryAfter expand externals done = e.tryAfter expand externals done' := by
  have faulted : e.faultedSource? done = e.faultedSource? done' := by
    rw [Entry.faultedSource?, Entry.faultedSource?]
    refine List.find?_congr fun p hp => ?_
    rw [h p hp]
  rw [Entry.tryAfter, Entry.tryAfter, faulted, legs_congr h, attached_congr h]

end Congr

end Tried

theorem Operator.template?_eq_some {op : Operator} {u : Template} :
    op.template? = some u ↔ op.body = .promoted u := by
  rw [template?]
  cases op.body <;> simp

namespace Net
variable {net : Net} {output n p : NodeId} {externals : Legs} {trials : List Trial} {t : Trial}
  {node : Node} {u : Template}

theorem template?_eq_some (hn : net.node? n = some node) :
    net.template? n = some u ↔ node.operator.body = .promoted u := by
  rw [template?, operator?, hn, Option.map_some, Option.bind_some, Operator.template?_eq_some]

def expand (net : Net) (n : NodeId) (legs : Legs) : Except CompileError Plan :=
  match net.template? n with
  | some t => t.net.compile t.output legs
  | none => .error (.outputNotFound n)

theorem expand_of_body (hn : net.node? n = some node) (hu : node.operator.body = .promoted u)
    (legs : Legs) : net.expand n legs = u.net.compile u.output legs := by
  rw [expand, (template?_eq_some hn).2 hu]

/-- The trials that a compile of a well-formed net makes. -/
structure Trials (net : Net) (output : NodeId) (externals : Legs) (trials : List Trial) : Prop where
  wellFormed : net.WellFormed
  contains : net.contains output = true
  entries : trials.map (·.toEntry) = net.entries output
  tried : Tried net.expand externals trials.reverse

theorem compile_eq (net : Net) (output : NodeId) (externals : Legs) :
    net.compile output externals = compileWith net.expand net output externals := by
  rw [compile]
  congr 1
  funext n legs
  rw [expand]
  split <;> rename_i ht <;> rw [ht]

theorem Trials.tryAll (h : net.Trials output externals trials) :
    Net.tryAll net.expand externals (net.entries output) [] = .ok trials := by
  refine (tryAll_eq_ok (by trivial)).2 ⟨trials, rfl, h.entries, ?_⟩
  rw [List.append_nil]
  exact h.tried

theorem trials_of_tryAll (h : net.WellFormed) (hc : net.contains output = true)
    (ht : Net.tryAll net.expand externals (net.entries output) [] = .ok trials) :
    net.Trials output externals trials := by
  obtain ⟨new, rfl, entries, tried⟩ := (tryAll_eq_ok (by trivial)).1 ht
  rw [List.append_nil] at tried
  exact ⟨h, hc, entries, tried⟩

theorem compile_eq_ok {plan : Plan} (h : net.WellFormed) :
    net.compile output externals = .ok plan ↔
      ∃ trials, net.Trials output externals trials ∧ plan = .ofTrials output trials := by
  rw [compile_eq, compileWith]
  split
  · rename_i hc
    constructor
    · intro hp
      cases ht : tryAll net.expand externals (net.entries output) [] with
      | error => simp [ht, Except.map] at hp
      | ok trials =>
        simp only [ht, Except.map, Except.ok.injEq] at hp
        exact ⟨trials, trials_of_tryAll h hc ht, hp.symm⟩
    · rintro ⟨trials, ht, rfl⟩
      rw [ht.tryAll]
      rfl
  · rename_i hc
    exact iff_of_false (fun hp => nomatch hp) fun ⟨_, ht, _⟩ => hc ht.contains

theorem map_source_entries (h : net.WellFormed) (hc : net.contains output = true) :
    (net.entries output).map (·.source) = net.lineage output := by
  rw [Net.entries, List.map_filterMap]
  refine Eq.trans (List.filterMap_congr fun n hn => ?_) List.filterMap_some
  obtain ⟨node, hnode⟩ := Option.isSome_iff_exists.1
    (contains_of_mem_lineage h.linked h.acyclic hc hn)
  rw [hnode]
  rfl

theorem entry_of_mem_entries {e : Entry} (he : e ∈ net.entries output) :
    net.node? e.source = some e.node ∧ e.index = net.inputs.idxOf? e.source ∧
      e.known = (net.knownAmong (net.lineage output)).contains e.source := by
  obtain ⟨n, _, hn⟩ := List.mem_filterMap.1 he
  obtain ⟨node, hnode, rfl⟩ := Option.map_eq_some_iff.1 hn
  exact ⟨hnode, rfl, rfl⟩

theorem upstream_of_mem_entries (h : net.WellFormed) (hc : net.contains output = true) {e : Entry}
    (he : e ∈ net.entries output) : ReflTransGen net.Feeds e.source output := by
  rw [← mem_lineage h.linked h.acyclic hc, ← map_source_entries h hc]
  exact List.mem_map_of_mem he

theorem mem_sources_entry {e : Entry} (he : e ∈ net.entries output) :
    p ∈ e.node.sources ↔ net.Feeds p e.source := by
  rw [← Net.mem_sources, sources, (entry_of_mem_entries he).1]
  rfl

namespace Trials
variable (h : net.Trials output externals trials)
include h

theorem map_source : trials.map (·.source) = net.lineage output := by
  rw [← map_source_entries h.wellFormed h.contains, ← h.entries, List.map_map]
  rfl

theorem nodup : (trials.map (·.source)).Nodup := by
  rw [h.map_source]
  exact nodup_lineage h.wellFormed.linked output

theorem mem_entries (ht : t ∈ trials) : t.toEntry ∈ net.entries output := by
  rw [← h.entries]
  exact List.mem_map_of_mem ht

theorem entry_of_mem (ht : t ∈ trials) :
    net.node? t.source = some t.node ∧ t.index = net.inputs.idxOf? t.source ∧
      t.known = (net.knownAmong (net.lineage output)).contains t.source :=
  entry_of_mem_entries (h.mem_entries ht)

theorem upstream (ht : t ∈ trials) : ReflTransGen net.Feeds t.source output :=
  upstream_of_mem_entries h.wellFormed h.contains (h.mem_entries ht)

theorem exists_of_upstream (hn : ReflTransGen net.Feeds n output) : ∃ t ∈ trials, t.source = n := by
  rw [← mem_lineage h.wellFormed.linked h.wellFormed.acyclic h.contains, ← h.map_source] at hn
  exact List.mem_map.1 hn

theorem trial?_output : ∃ t ∈ trials, t.source = output := h.exists_of_upstream .refl

theorem mem_sources (ht : t ∈ trials) : p ∈ t.node.sources ↔ net.Feeds p t.source :=
  mem_sources_entry (h.mem_entries ht)

theorem exists_producer (ht : t ∈ trials) (hp : net.Feeds p t.source) :
    ∃ q ∈ trials, trial? trials p = some q ∧ q.source = p := by
  obtain ⟨q, hq, rfl⟩ := h.exists_of_upstream (.head hp (h.upstream ht))
  exact ⟨q, hq, trial?_of_mem h.nodup hq, rfl⟩

theorem trial?_before {before after : List Trial} (hs : trials = before ++ t :: after) :
    ∀ p ∈ t.node.sources, trial? before.reverse p = trial? trials p ∧
      ∃ q ∈ before, q.source = p := by
  intro p hp
  have ht : t ∈ trials := hs ▸ List.mem_append_right _ List.mem_cons_self
  have grounded := grounded_lineage h.wellFormed.linked output
  rw [← h.map_source, ← List.map_reverse, hs, List.reverse_append, List.reverse_cons,
    List.append_assoc, List.map_append, List.map_append] at grounded
  obtain ⟨q, hq, rfl⟩ := List.mem_map.1 (grounded.of_append.1 p ((h.mem_sources ht).1 hp))
  have nodup := h.nodup
  rw [hs, List.map_append, List.nodup_append] at nodup
  have nodup : (before.reverse.map (·.source)).Nodup := by
    rw [List.map_reverse]
    exact List.nodup_reverse.2 nodup.1
  have mem : q ∈ trials := hs ▸ List.mem_append_left _ (List.mem_reverse.1 hq)
  exact ⟨by rw [trial?_of_mem nodup hq, trial?_of_mem h.nodup mem], q, List.mem_reverse.1 hq, rfl⟩

theorem tryAfter_before {before after : List Trial} (hs : trials = before ++ t :: after) :
    t.toEntry.tryAfter net.expand externals before.reverse = .ok t := by
  have tried := h.tried
  rw [hs, List.reverse_append, List.reverse_cons, List.append_assoc] at tried
  exact tried.of_append.1

theorem tryAfter (ht : t ∈ trials) : t.toEntry.tryAfter net.expand externals trials = .ok t := by
  obtain ⟨before, after, hs⟩ := List.append_of_mem ht
  rw [← h.tryAfter_before hs]
  exact tryAfter_congr fun p hp => (h.trial?_before hs p hp).1.symm

theorem sublist_of_feeds {p : Trial} (hp : p ∈ trials) (ht : t ∈ trials)
    (hf : net.Feeds p.source t.source) : [p, t].Sublist trials := by
  obtain ⟨before, after, hs⟩ := List.append_of_mem ht
  obtain ⟨q, hq, he⟩ := (h.trial?_before hs _ ((h.mem_sources ht).2 hf)).2
  have same : q = p := by
    have mem : q ∈ trials := hs ▸ List.mem_append_left _ hq
    have := trial?_of_mem h.nodup mem
    rw [he, trial?_of_mem h.nodup hp] at this
    exact (Option.some.inj this).symm
  rw [hs, ← same]
  exact (List.singleton_sublist.2 hq).append (List.singleton_sublist.2 List.mem_cons_self)

/-- The producer of a slot among the trials is the one that the net attaches to it. -/
theorem producer_eq (ht : t ∈ trials) {s : Trial.Socket} (hs : s ∈ t.sockets trials) :
    s.producer.map (·.source) = net.source? t.source s.number ∧
      ∀ p, s.producer = some p → p ∈ trials := by
  obtain ⟨_, hi, _, hp⟩ := Trial.getElem?_sockets.1 (Trial.mem_sockets hs)
  have source : net.source? t.source s.number = s.inlet.source :=
    source?_of_inlet (h.entry_of_mem ht).1 hi
  refine ⟨?_, fun p he => ?_⟩
  · rw [hp, source, Entry.producer?]
    cases hsrc : s.inlet.source with
    | none => rfl
    | some p =>
      obtain ⟨q, _, hq, rfl⟩ := h.exists_producer ht ⟨s.number, source.trans hsrc⟩
      rw [Option.bind_some, hq, Option.map_some]
  · rw [he, Entry.producer?] at hp
    obtain ⟨_, _, hq⟩ := Option.bind_eq_some_iff.1 hp.symm
    exact (mem_of_trial? hq).1

theorem map_source_producer (ht : t ∈ trials) {s : Trial.Socket} (hs : s ∈ t.sockets trials) :
    s.producer.map (·.source) = s.inlet.source := by
  obtain ⟨-, inlet, -, -⟩ := Trial.getElem?_sockets.1 (Trial.mem_sockets hs)
  rw [(h.producer_eq ht hs).1]
  exact source?_of_inlet (h.entry_of_mem ht).1 inlet

theorem feeds_of_producer (ht : t ∈ trials) {s : Trial.Socket} (hs : s ∈ t.sockets trials)
    {p : Trial} (hp : s.producer = some p) : net.Feeds p.source t.source := by
  have same := (h.producer_eq ht hs).1
  rw [hp, Option.map_some] at same
  exact ⟨s.number, same.symm⟩

/-- A trial either takes over the fault of a producer or runs the body on sound legs. -/
theorem outcome_cases (ht : t ∈ trials) :
    (∃ p ∈ trials, net.Feeds p.source t.source ∧ p.fault.isSome ∧
      t.outcome = .error (.inherited p.source)) ∨
    (∀ s ∈ t.sockets trials, ∀ p, s.producer = some p → p.fault = none) ∧ t.Fitting trials ∧
      t.outcome = t.yield net.expand externals (t.legsOf trials Trial.cells)
        (t.attached trials) := by
  have tried := h.tryAfter ht
  unfold Entry.tryAfter at tried
  split at tried
  · rename_i p hp
    have feeds := (h.mem_sources ht).1 (List.mem_of_find?_eq_some hp)
    obtain ⟨q, hq, htrial, rfl⟩ := h.exists_producer ht feeds
    have fault := List.find?_some hp
    rw [htrial, Option.any_some] at fault
    refine .inl ⟨q, hq, feeds, fault, ?_⟩
    rw [← Except.ok.inj tried]
  · rename_i hp
    cases hl : t.toEntry.legs trials with
    | error => simp [hl, Except.map] at tried
    | ok legs =>
      obtain ⟨fitting, rfl⟩ := legs_eq_ok.1 hl
      simp only [hl, Except.map, Except.ok.injEq] at tried
      refine .inr ⟨fun s hs p he => ?_, fitting, (congrArg Trial.outcome tried).symm⟩
      have none := List.find?_eq_none.1 hp p.source ((h.mem_sources ht).2
        (h.feeds_of_producer ht hs he))
      rw [trial?_of_mem h.nodup ((h.producer_eq ht hs).2 p he), Option.any_some] at none
      simpa using none

theorem sound_of_fault (ht : t ∈ trials) (hf : t.fault = none) :
    (∀ s ∈ t.sockets trials, ∀ p, s.producer = some p → p.fault = none) ∧ t.Fitting trials ∧
      t.outcome = t.yield net.expand externals (t.legsOf trials Trial.cells)
        (t.attached trials) := by
  rcases h.outcome_cases ht with ⟨p, _, _, _, ho⟩ | ho
  · rw [Trial.fault, ho] at hf
    cases hf
  · exact ho

/-- What a node without a fault was tried on, told from the trials before it. -/
theorem seen {before after : List Trial} (hs : trials = before ++ t :: after)
    (hf : t.fault = none) :
    t.toEntry.legs before.reverse = .ok (t.legsOf trials Trial.cells) ∧
      t.outcome = t.yield net.expand externals (t.legsOf trials Trial.cells)
        (t.attached before.reverse) := by
  have ht : t ∈ trials := hs ▸ List.mem_append_right _ List.mem_cons_self
  have earlier : ∀ p ∈ t.node.sources, trial? before.reverse p = trial? trials p :=
    fun p hp => (h.trial?_before hs p hp).1
  obtain ⟨_, fitting, outcome⟩ := h.sound_of_fault ht hf
  rw [legs_congr earlier, attached_congr earlier]
  exact ⟨legs_eq_ok.2 ⟨fitting, rfl⟩, outcome⟩

/-- What the body of a node gave when it was tried without a fault. -/
theorem body_cases (ht : t ∈ trials) (hf : t.fault = none) :
    (∃ k n, t.node.operator.body = .kernel k ∧
      k.length ⟨t.node.config, t.legsOf trials Trial.cells, t.attached trials⟩ = .ok n ∧
      t.outcome = .ok ⟨k.fill t.node.config .detached (t.legsOf trials Trial.cells)
        (List.replicate n .zero), none⟩) ∨
    (t.node.operator.body = .input ∧
      t.outcome = .ok ⟨(t.index.bind fun i => externals[i]?).getD [t.fallback], none⟩) ∨
    ∃ u plan, t.node.operator.body = .promoted u ∧ net.template? t.source = some u ∧
      u.net.compile u.output (t.legsOf trials Trial.cells) = .ok plan ∧
      t.outcome = .ok ⟨plan.firstOutput (t.legsOf trials Trial.cells), some plan⟩ := by
  obtain ⟨_, _, outcome⟩ := h.sound_of_fault ht hf
  have ok : ∀ f, t.outcome ≠ .error f := fun f he => by simp [Trial.fault, he] at hf
  rw [outcome]
  rw [outcome] at ok
  unfold Entry.yield at ok ⊢
  split
  · rename_i k hk
    refine .inl ⟨k, ?_⟩
    cases hn : k.length ⟨t.node.config, t.legsOf trials Trial.cells, t.attached trials⟩ with
    | error f => simp [hk, hn] at ok
    | ok n =>
      by_cases hm : maxLength < n
      · simp [hk, hn, hm] at ok
      · exact ⟨n, hk, rfl, if_neg hm⟩
  · rename_i hb
    exact .inr (.inl ⟨hb, rfl⟩)
  · rename_i u hb
    have node := (h.entry_of_mem ht).1
    cases hp : net.expand t.source (t.legsOf trials Trial.cells) with
    | error cause => simp [hb, hp] at ok
    | ok plan =>
      exact .inr (.inr ⟨u, plan, hb, (template?_eq_some node).2 hb,
        (expand_of_body node hb _).symm.trans hp, rfl⟩)

end Trials
end Net
end Patchbay
