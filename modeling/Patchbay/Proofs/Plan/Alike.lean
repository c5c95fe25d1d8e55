import Patchbay.Proofs.Graph.Regular

/-! # Compiles that differ only in what changes between blocks

Two lists of vectors from outside are similar for a net when they agree on the inputs of which
something is demanded early and have the same lengths on the others. Compiles with similar vectors
try every node alike: what is known is the same, and the rest has the same length and the same
fault. Their plans then give the same in every block.
-/

namespace Patchbay
open Relation

variable [Platform]

/-- Two plans that give the same in every block. -/
structure Plan.Alike (p p' : Plan) : Prop where
  output : ∀ host legs, (p.run (.fresh p) host legs).output = (p'.run (.fresh p') host legs).output
  host : ∀ host legs, (p.run (.fresh p) host legs).host = (p'.run (.fresh p') host legs).host

theorem Plan.Alike.length {p p' : Plan} {lawful : Prop} (h : p.Alike p') (hp : p.Steady lawful)
    (legs legs' : Legs) : (p.firstOutput legs).length = (p'.firstOutput legs').length := by
  rw [hp.length_firstOutput, ← hp.length_firstOutput legs', firstOutput, firstOutput, h.output]

/-- Two results of a trial of which a block cannot tell one from the other, unless it reads cells
that are known. -/
inductive Yield.Alike : Except Fault Yield → Except Fault Yield → Prop
  | error (f f' : Fault) : Yield.Alike (.error f) (.error f')
  | ok {y y' : Yield} (length : y.cells.length = y'.cells.length)
    (inner : Option.Rel Plan.Alike y.inner y'.inner) : Yield.Alike (.ok y) (.ok y')

/-- Two trials of one node, in compiles with similar vectors. -/
structure Trial.Alike (t t' : Trial) : Prop where
  entry : t.toEntry = t'.toEntry
  known : t.known = true → t.outcome = t'.outcome
  outcome : Yield.Alike t.outcome t'.outcome

/-- Legs of the same lengths that agree where a slot needs its value early. -/
structure Legs.Alike (slots : List Slot) (legs legs' : Legs) : Prop where
  lengths : legs.map List.length = legs'.map List.length
  early : ∀ (i : Nat) (s : Slot), slots[i]? = some s → s.compileTime = true → legs[i]? = legs'[i]?

/-- Vectors from outside between which a compile does not distinguish. -/
structure Net.Similar (net : Net) (externals externals' : Legs) : Prop where
  length : ∀ (i : Nat) n node, net.inputs[i]? = some n → net.node? n = some node →
    (externals[i]?.getD [node.fallback]).length = (externals'[i]?.getD [node.fallback]).length
  demanded : ∀ (i : Nat) n node, net.inputs[i]? = some n → net.node? n = some node →
    net.Demanded n → externals[i]?.getD [node.fallback] = externals'[i]?.getD [node.fallback]

theorem Net.Similar.symm {net : Net} {externals externals' : Legs}
    (h : net.Similar externals externals') : net.Similar externals' externals where
  length i n node hi hn := (h.length i n node hi hn).symm
  demanded i n node hi hn hd := (h.demanded i n node hi hn hd).symm

namespace Trial.Alike
variable {t t' : Trial} (h : t.Alike t')
include h

theorem source : t.source = t'.source := by rw [h.entry]

theorem fault : t.fault.isSome = t'.fault.isSome := by
  have outcome := h.outcome
  rw [Trial.fault, Trial.fault]
  generalize t.outcome = o, t'.outcome = o' at outcome ⊢
  cases outcome <;> rfl

theorem length : t.cells.length = t'.cells.length := by
  have outcome := h.outcome
  rw [Trial.cells, Trial.cells]
  generalize t.outcome = o, t'.outcome = o' at outcome ⊢
  cases outcome with
  | error => rfl
  | ok length => exact length

theorem inner : Option.Rel Plan.Alike t.inner t'.inner := by
  have outcome := h.outcome
  rw [Trial.inner, Trial.inner]
  generalize t.outcome = o, t'.outcome = o' at outcome ⊢
  cases outcome with
  | error => exact .none
  | ok _ inner => exact inner

theorem cells (hk : t.known = true) : t.cells = t'.cells := by
  rw [Trial.cells, Trial.cells, h.known hk]

end Trial.Alike

theorem trial?_alike {done done' : List Trial} (h : List.Forall₂ Trial.Alike done done')
    (n : NodeId) : Option.Rel Trial.Alike (trial? done n) (trial? done' n) :=
  trial?_of_forall₂ h fun _ _ ht => by rw [ht.source]

theorem producer?_alike {done done' : List Trial} (h : List.Forall₂ Trial.Alike done done')
    (inlet : Inlet) :
    Option.Rel Trial.Alike (Entry.producer? done inlet) (Entry.producer? done' inlet) := by
  rw [Entry.producer?, Entry.producer?]
  cases inlet.source with
  | none => exact .none
  | some p => exact trial?_alike h p

/-! ### Legs -/

section Legs
variable {e : Entry} {done done' : List Trial} (h : List.Forall₂ Trial.Alike done done')
include h

theorem leg_alike {x : (Slot × Inlet) × Nat} {leg : Cells} (hx : e.leg done x = .ok leg) :
    ∃ leg', e.leg done' x = .ok leg' ∧ leg.length = leg'.length ∧
      ((∀ q, Entry.producer? done x.1.2 = some q → q.known = true) → leg = leg') := by
  obtain ⟨⟨slot, inlet⟩, number⟩ := x
  have producers := producer?_alike h inlet
  simp only [Entry.leg] at hx ⊢
  generalize Entry.producer? done inlet = o, Entry.producer? done' inlet = o' at producers hx ⊢
  cases producers with
  | none => exact ⟨_, rfl, by cases hx; rfl, fun _ => (Except.ok.inj hx).symm⟩
  | @some q q' hq =>
    have kind : q.kind = q'.kind := by rw [hq.entry]
    dsimp only at hx ⊢
    rw [← hq.length, ← kind]
    split at hx
    · cases hx
    · rename_i fits
      cases hx
      rw [if_neg fits]
      refine ⟨_, rfl, by rw [List.length_map, List.length_map, hq.length], fun known => ?_⟩
      rw [hq.cells (known q rfl)]

theorem attached_alike : e.attached done = e.attached done' := by
  apply List.map_congr_left
  intro s _
  have producers := producer?_alike h s.2
  generalize Entry.producer? done s.2 = o, Entry.producer? done' s.2 = o' at producers ⊢
  cases producers <;> rfl

theorem faultedSource?_alike : e.faultedSource? done = e.faultedSource? done' := by
  refine List.find?_congr fun p _ => ?_
  have trials := trial?_alike h p
  generalize trial? done p = o, trial? done' p = o' at trials ⊢
  cases trials with
  | none => rfl
  | some hq => exact hq.fault

theorem legs_alike {legs : Legs} (hl : e.legs done = .ok legs)
    (early : ∀ (i : Nat) (s : Slot) inlet q, e.node.operator.slots[i]? = some s →
      s.compileTime = true → e.node.inlets[i]? = some inlet →
        Entry.producer? done inlet = some q → q.known = true) :
    ∃ legs', e.legs done' = .ok legs' ∧ legs.Alike e.node.operator.slots legs' ∧
      ((∀ x ∈ e.node.sockets, ∀ q, Entry.producer? done x.2 = some q → q.known = true) →
        legs = legs') := by
  obtain ⟨legs', hl', length, related⟩ := mapM_transfer hl fun x _ leg hx => leg_alike h hx
  have positions := length_of_mapM hl
  rw [List.length_zipIdx] at positions
  have missing {i : Nat} (hi : legs[i]? = none) : legs'[i]? = none := by
    rw [List.getElem?_eq_none_iff] at hi ⊢
    rwa [length]
  have found {i : Nat} {leg : Cells} (hi : legs[i]? = some leg) :
      ∃ x leg', e.node.sockets[i]? = some x ∧ legs'[i]? = some leg' ∧ leg.length = leg'.length ∧
        ((∀ q, Entry.producer? done x.2 = some q → q.known = true) → leg = leg') := by
    have bound := (List.getElem?_eq_some_iff.1 hi).choose
    have hx := List.getElem?_eq_getElem (l := e.node.sockets) (i := i) (by omega)
    have hi' := List.getElem?_eq_getElem (l := legs') (i := i) (by omega)
    refine ⟨_, _, hx, hi', related i (e.node.sockets[i], i) _ _ ?_ hi hi'⟩
    rw [List.getElem?_zipIdx, hx, Option.map_some, Nat.zero_add]
  refine ⟨legs', hl', ⟨List.ext_getElem? fun i => ?_, fun i s hs hc => ?_⟩, fun known => ?_⟩
  · rw [List.getElem?_map, List.getElem?_map]
    cases hi : legs[i]? with
    | none => rw [missing hi]
    | some leg =>
      obtain ⟨_, _, _, hi', same, _⟩ := found hi
      rw [hi', Option.map_some, Option.map_some, same]
  · cases hi : legs[i]? with
    | none => rw [missing hi]
    | some leg =>
      obtain ⟨x, _, hx, hi', _, same⟩ := found hi
      obtain ⟨hslot, hinlet⟩ := List.getElem?_zip_eq_some.1 hx
      rw [hi', same fun q => early i s x.2 q hs hc hinlet]
  · apply List.ext_getElem?
    intro i
    cases hi : legs[i]? with
    | none => rw [missing hi]
    | some leg =>
      obtain ⟨x, _, hx, hi', _, same⟩ := found hi
      rw [hi', same (known x (List.mem_of_getElem? hx))]

end Legs

/-! ### Nets -/

namespace Net
variable {net : Net} {n p : NodeId}

theorem exists_of_mem_inputs (h : n ∈ net.inputs) :
    ∃ node, net.node? n = some node ∧ node.operator.isInput = true := by
  obtain ⟨⟨m, node⟩, hm, rfl⟩ := List.mem_map.1 h
  rw [List.mem_mergeSort, List.mem_filter, mem_live] at hm
  exact ⟨node, hm⟩

theorem getElem?_promotedSlots {i : Nat} {node : Node} (hi : net.inputs[i]? = some n)
    (hn : net.node? n = some node) :
    net.promotedSlots[i]? = some (net.promotedSlot i n node) := by
  rw [promotedSlots, getElem?_filterMap]
  · rw [List.getElem?_zipIdx, hi, Option.map_some, Option.bind_some]
    dsimp only
    rw [hn, Nat.zero_add, Option.map_some]
  · rintro ⟨m, position⟩ hm
    obtain ⟨_, hm, _⟩ := exists_of_mem_inputs
      (List.mem_of_getElem? (List.mem_zipIdx_iff_getElem?.1 hm))
    dsimp only at hm ⊢
    rw [hm]
    rfl

/-- Legs that are alike for a promoted node are similar for its net. -/
theorem similar_of_alike (hs : net.NoDangling) {legs legs' : Legs}
    (h : legs.Alike net.promotedSlots legs') : net.Similar legs legs' where
  length i n node hi hn := by
    have lengths := congrArg (·[i]?) h.lengths
    simp only [List.getElem?_map] at lengths
    cases hl : legs[i]? with
    | none =>
      rw [hl] at lengths
      rw [Option.map_eq_none_iff.1 lengths.symm]
    | some leg =>
      rw [hl] at lengths
      obtain ⟨leg', hl', same⟩ := Option.map_eq_some_iff.1 lengths.symm
      rw [hl', Option.getD_some, Option.getD_some, same]
  demanded i n node hi hn hd := by
    rw [h.early i _ (getElem?_promotedSlots hi hn)]
    exact (isDemanded_iff hs).2 hd

section Entries
variable {output : NodeId} {e : Entry} (hw : net.WellFormed) (he : e ∈ net.entries output)
include hw he

theorem known_iff_of_mem_entries (hc : net.contains output = true) :
    e.known = true ↔ net.Known e.source := by
  have mem : e.source ∈ net.lineage output := by
    rw [← map_source_entries hw hc]
    exact List.mem_map_of_mem he
  rw [(entry_of_mem_entries he).2.2, List.contains_iff_mem,
    mem_knownAmong hw.linked.noDangling (grounded_lineage hw.linked output), and_iff_right mem]

theorem known_of_compileTime (punctual : net.Punctual) {i : Nat} {s : Slot} {inlet : Inlet}
    (hs : e.node.operator.slots[i]? = some s) (ht : s.compileTime = true)
    (hi : e.node.inlets[i]? = some inlet) (hp : inlet.source = some p) : net.Known p := by
  have hn := (entry_of_mem_entries he).1
  have source : net.source? e.source i = some p := (source?_of_inlet hn hi).trans hp
  have early : net.Early p e.source := by
    refine ⟨i, source, ?_⟩
    rw [slot?, operator?, hn, Option.map_some, Option.bind_some, hs, Option.any_some, ht]
  exact punctual.known hw (hw.linked.noDangling p e.source ⟨i, source⟩)
    ⟨p, e.source, early, .refl⟩

end Entries

namespace Trials
variable {output : NodeId} {externals : Legs} {trials : List Trial} {t : Trial}
  (h : net.Trials output externals trials) (ht : t ∈ trials)
include h ht

theorem known_iff : t.known = true ↔ net.Known t.source :=
  known_iff_of_mem_entries h.wellFormed (h.mem_entries ht) h.contains

theorem not_live_of_known (known : net.Known t.source) : t.live = false := by
  rw [Trial.live, (h.known_iff ht).2 known]
  rfl

end Trials

/-- Compiles of a net with similar vectors succeed together and give the same in every block. -/
def Stable (net : Net) : Prop :=
  ∀ output externals externals' plan, net.Similar externals externals' →
    net.compile output externals = .ok plan →
      ∃ plan', net.compile output externals' = .ok plan' ∧ plan.Alike plan'

theorem Stable.cases {externals externals' : Legs} (h : net.Stable) (output : NodeId)
    (hs : net.Similar externals externals') :
    (∃ cause cause', net.compile output externals = .error cause ∧
      net.compile output externals' = .error cause') ∨
    ∃ plan plan', net.compile output externals = .ok plan ∧
      net.compile output externals' = .ok plan' ∧ plan.Alike plan' := by
  cases hx : net.compile output externals with
  | error cause =>
    cases hx' : net.compile output externals' with
    | error cause' => exact .inl ⟨cause, cause', rfl, rfl⟩
    | ok plan' =>
      obtain ⟨plan, hp, _⟩ := h _ _ _ _ hs.symm hx'
      cases hx.symm.trans hp
  | ok plan =>
    obtain ⟨plan', hp, alike⟩ := h _ _ _ _ hs hx
    exact .inr ⟨plan, plan', rfl, hp, alike⟩

section Yield
variable {output : NodeId} {e : Entry} {externals externals' : Legs} (hr : net.Regular)
  (hc : net.contains output = true) (he : e ∈ net.entries output)
  (hs : net.Similar externals externals')
  (inside : ∀ n u, net.template? n = some u → u.net.Deep Regular ∧ u.net.Stable)
include hr hc he hs inside

omit hc in
theorem yield_alike {legs legs' : Legs} (hl : legs.Alike e.node.operator.slots legs')
    (attached : List Bool) :
    Yield.Alike (e.yield net.expand externals legs attached)
      (e.yield net.expand externals' legs' attached) := by
  have hn := (entry_of_mem_entries he).1
  have regular := hr.operators _ _ (operator?_of_node? hn)
  rw [Entry.yield, Entry.yield]
  cases hb : e.node.operator.body with
  | kernel k =>
    have length := (regular.kernel k hb).foreseen ⟨e.node.config, legs, attached⟩
      ⟨e.node.config, legs', attached⟩ rfl rfl hl.lengths hl.early
    dsimp only
    rw [← length]
    cases k.length ⟨e.node.config, legs, attached⟩ with
    | error f => exact .error _ _
    | ok n =>
      dsimp only
      split
      · exact .error _ _
      · exact .ok (by rw [k.length_fill, k.length_fill]) .none
  | input =>
    refine .ok ?_ .none
    rw [(entry_of_mem_entries he).2.1]
    cases hi : net.inputs.idxOf? e.source with
    | none => rfl
    | some i => exact hs.length i e.source e.node (getElem?_of_idxOf? hi) hn
  | promoted u =>
    have template : net.template? e.source = some u := (template?_eq_some hn).2 hb
    obtain ⟨deep, stable⟩ := inside _ u template
    have similar : u.net.Similar legs legs' := by
      apply similar_of_alike deep.here.wellFormed.linked.noDangling
      rw [← regular.promoted u (Operator.template?_eq_some.2 hb)]
      exact hl
    simp only [expand, template]
    obtain ⟨cause, cause', hx, hx'⟩ | ⟨plan, plan', hx, hx', alike⟩ :=
      stable.cases u.output similar
    · rw [hx, hx']
      exact .error _ _
    · rw [hx, hx']
      exact .ok (alike.length (compile_steady deep.lawful hx) legs legs') (.some alike)

omit hr hc inside in
theorem yield_known (hk : net.Known e.source) (legs : Legs) (attached : List Bool) :
    e.yield net.expand externals legs attached = e.yield net.expand externals' legs attached := by
  have entry := entry_of_mem_entries he
  rw [Entry.yield, Entry.yield]
  cases hb : e.node.operator.body with
  | kernel k => rfl
  | promoted u => rfl
  | input =>
    have demanded : net.Demanded e.source := by
      cases hk with
      | input _ _ _ demanded => exact demanded
      | body hn _ input _ =>
        cases entry.1.symm.trans hn
        simp [Operator.isInput, hb] at input
    dsimp only
    rw [entry.2.1]
    cases hi : net.inputs.idxOf? e.source with
    | none => rfl
    | some i =>
      have same := hs.demanded i e.source e.node (getElem?_of_idxOf? hi) entry.1 demanded
      rw [Option.bind_some, Option.bind_some, show e.fallback = e.node.fallback from rfl, same]

theorem tryAfter_alike {done done' : List Trial} (h : List.Forall₂ Trial.Alike done done')
    (hd : ∀ t ∈ done, t.toEntry ∈ net.entries output) {t : Trial}
    (ht : e.tryAfter net.expand externals done = .ok t) :
    ∃ t', e.tryAfter net.expand externals' done' = .ok t' ∧ t.Alike t' := by
  have hn := (entry_of_mem_entries he).1
  have producer {inlet : Inlet} {q : Trial} (hq : Entry.producer? done inlet = some q) :
      inlet.source = some q.source ∧ (q.known = true ↔ net.Known q.source) := by
    obtain ⟨p, hp, hq⟩ := Option.bind_eq_some_iff.1 hq
    obtain ⟨hm, rfl⟩ := mem_of_trial? hq
    exact ⟨hp, known_iff_of_mem_entries hr.wellFormed (hd q hm) hc⟩
  have known (hk : net.Known e.source) :
      ∀ x ∈ e.node.sockets, ∀ q, Entry.producer? done x.2 = some q → q.known = true := by
    intro x hx q hq
    obtain ⟨source, hqk⟩ := producer hq
    have feeds : net.Feeds q.source e.source := by
      rw [← mem_sources, sources, hn]
      exact List.mem_filterMap.2 ⟨x.2, (List.of_mem_zip hx).2, source⟩
    cases hk with
    | body _ _ _ producers => exact hqk.2 (producers _ feeds)
    | input hn' _ input _ =>
      refine absurd feeds (hr.rooted.not_feeds hr.wellFormed.toWired ?_ input)
      rw [operator?, hn']
      rfl
  unfold Entry.tryAfter at ht ⊢
  rw [← faultedSource?_alike h]
  split at ht
  · cases ht
    exact ⟨_, rfl, rfl, fun _ => rfl, .error _ _⟩
  · cases hl : e.legs done with
    | error cause => simp [hl, Except.map] at ht
    | ok legs =>
      obtain ⟨legs', hl', alike, same⟩ := legs_alike h hl fun i s inlet q hslot hc' hinlet hq =>
        (producer hq).2.2
          (known_of_compileTime hr.wellFormed he hr.punctual hslot hc' hinlet (producer hq).1)
      simp only [hl, Except.map, Except.ok.injEq] at ht
      subst ht
      rw [hl', ← attached_alike h]
      refine ⟨_, rfl, rfl, fun hk => ?_, yield_alike hr he hs inside alike _⟩
      have hk := (known_iff_of_mem_entries hr.wellFormed he hc).1 hk
      rw [← same (known hk)]
      exact yield_known he hs hk legs _

end Yield

theorem tryAll_alike {output : NodeId} {externals externals' : Legs} (hr : net.Regular)
    (hc : net.contains output = true) (hs : net.Similar externals externals')
    (inside : ∀ n u, net.template? n = some u → u.net.Deep Regular ∧ u.net.Stable)
    {entries : List Entry} (he : ∀ e ∈ entries, e ∈ net.entries output)
    {done done' trials : List Trial} (h : List.Forall₂ Trial.Alike done done')
    (hd : ∀ t ∈ done, t.toEntry ∈ net.entries output)
    (ht : tryAll net.expand externals entries done = .ok trials) :
    ∃ trials', tryAll net.expand externals' entries done' = .ok trials' ∧
      List.Forall₂ Trial.Alike trials trials' := by
  induction entries generalizing done done' with
  | nil =>
    cases ht
    exact ⟨_, rfl, List.forall₂_reverse_iff.2 h⟩
  | cons e entries ih =>
    rw [List.forall_mem_cons] at he
    rw [tryAll] at ht ⊢
    cases hx : e.tryAfter net.expand externals done with
    | error cause => simp [hx, bind, Except.bind] at ht
    | ok t =>
      simp only [hx, bind, Except.bind] at ht
      obtain ⟨t', hx', alike⟩ := tryAfter_alike hr hc he.1 hs inside h hd hx
      simp only [hx', bind, Except.bind]
      refine ih he.2 (.cons alike h) (List.forall_mem_cons.2 ⟨?_, hd⟩) ht
      rw [entry_of_tryAfter hx]
      exact he.1

end Net
end Patchbay
