import Patchbay.Generator
import Patchbay.Proofs.Graph.Layout
import Patchbay.Proofs.Plan.Alike

/-! # Old plans and new ones

A plan that was compiled some time ago, on a state that ran any blocks since, renders what a plan
would that is compiled anew: with the vectors of the block, as far as nothing needs them early, and
with those of the old compile otherwise. Compiles that are alike render the same, and a used state
leaves no trace.
-/

namespace Patchbay
open Relation

section
variable [Platform]

namespace Trial.Alike
variable {t t' : Trial} (h : t.Alike t')
include h

theorem live : t.live = t'.live := by
  have fault := congrArg Bool.not h.fault
  rw [Trial.live, Trial.live, h.entry]
  rw [Option.not_isSome, Option.not_isSome] at fault
  rw [fault]

theorem cells_of_not_live (hl : t.live = false) : t.cells = t'.cells := by
  by_cases hf : t.fault = none
  · rcases Trial.folded_or_live hf with hd | hl'
    · exact h.cells (Trial.fault_of_folded hd).2
    · rw [hl] at hl'
      cases hl'
  · have none := Trial.cells_of_fault hf
    rw [none]
    have length := h.length
    rw [none] at length
    exact (List.eq_nil_of_length_eq_zero length.symm).symm

theorem legsOf {trials trials' : List Trial} (ha : List.Forall₂ Trial.Alike trials trials')
    (value value' : NodeId → Cells)
    (hv : ∀ s ∈ t.sockets trials, ∀ p, s.producer = some p → value p.source = value' p.source) :
    t.legsOf trials (fun p => value p.source) = t'.legsOf trials' fun p => value' p.source := by
  have node : t.node = t'.node := by rw [h.entry]
  rw [Trial.legsOf, Trial.legsOf, Trial.sockets, Trial.sockets, ← node, List.map_map, List.map_map]
  apply List.map_congr_left
  intro x hx
  have same := hv _ (List.mem_map_of_mem hx)
  have producers := producer?_alike ha x.1.2
  simp only [Function.comp_apply, Trial.vector] at same ⊢
  generalize Entry.producer? trials x.1.2 = o, Entry.producer? trials' x.1.2 = o'
    at producers same ⊢
  cases producers with
  | none => rfl
  | @some p p' hp =>
    dsimp only
    rw [same p rfl, ← hp.source, show p.kind = p'.kind by rw [hp.entry],
      show t.reads = t'.reads by rw [h.entry]]

theorem render {trials trials' : List Trial} {externals : Legs} {r r' : Rendering}
    (host : r.host = r'.host)
    (legs : (t.legsOf trials fun p => r.value p.source) =
      t'.legsOf trials' fun p => r'.value p.source) :
    t.render trials externals r = t'.render trials' externals r' := by
  have node : t.node = t'.node := by rw [h.entry]
  have index : t.index = t'.index := by rw [h.entry]
  have inner := h.inner
  rw [Trial.render, Trial.render, legs, host, ← node]
  cases hb : t.node.operator.body with
  | kernel k => simp only [h.length]
  | input => simp only [h.length, index, show t.fallback = t'.fallback by rw [h.entry]]
  | promoted u =>
    dsimp only
    generalize t.inner = o, t'.inner = o' at inner ⊢
    cases inner with
    | none => rfl
    | some alike =>
      dsimp only
      rw [alike.output, alike.host]

end Trial.Alike

namespace Net
variable {net : Net} {output : NodeId} {externals externals' : Legs} {trials trials' : List Trial}

theorem Trials.rendering_alike (h : net.Trials output externals trials)
    (h' : net.Trials output externals' trials') (ha : List.Forall₂ Trial.Alike trials trials')
    (legs : Legs) (host : Host) :
    (rendering trials legs host).host = (rendering trials' legs host).host ∧
      ∀ t ∈ trials, (rendering trials legs host).value t.source =
        (rendering trials' legs host).value t.source := by
  have all := foldl_forall₂ (c := .start trials host) (d := .start trials' host)
    (f := Rendering.step trials legs) (g := Rendering.step trials' legs)
    (P := fun done (r r' : Rendering) => r.host = r'.host ∧
      ∀ t ∈ trials, (t.live = true → t ∈ done) → r.value t.source = r'.value t.source)
    ha ⟨rfl, fun t ht idle => ?_⟩ fun done t rest t' r r' hs alike ⟨hosts, values⟩ => ?_
  · exact ⟨all.1, fun t ht => all.2 t ht fun _ => ht⟩
  · obtain ⟨t', ht', alike⟩ := exists_of_forall₂ ha ht
    have hl : t.live = false := Bool.eq_false_iff.2 fun hl => nomatch idle hl
    rw [h.start_value host ht, alike.source, h'.start_value host ht', alike.cells_of_not_live hl]
  · have ht : t ∈ trials := hs ▸ List.mem_append_right _ List.mem_cons_self
    rw [Rendering.step, Rendering.step, ← alike.live]
    cases hl : t.live with
    | false =>
      refine ⟨hosts, fun u hu live => values u hu fun hul => ?_⟩
      apply (List.mem_append.1 (live hul)).resolve_right
      intro he
      rw [List.mem_singleton.1 he, hl] at hul
      cases hul
    | true =>
      have legs := alike.legsOf ha r.value r'.value fun s hs' p hp => by
        apply values p ((h.producer_eq ht hs').2 p hp)
        intro hpl
        have feeds := h.feeds_of_producer ht hs' hp
        obtain ⟨q, hq, he⟩ := (h.trial?_before hs _ ((h.mem_sources ht).2 feeds)).2
        rw [← h.eq_of_source (hs ▸ List.mem_append_left _ hq) ((h.producer_eq ht hs').2 p hp) he]
        exact hq
      rw [if_pos rfl, if_pos rfl, ← alike.render hosts legs, ← alike.source]
      refine ⟨rfl, fun u hu live => ?_⟩
      by_cases he : u.source = t.source
      · exact (if_pos he).trans (if_pos he).symm
      · refine (if_neg he).trans ((values u hu fun hul => ?_).trans (if_neg he).symm)
        refine (List.mem_append.1 (live hul)).resolve_right fun hm => he ?_
        rw [List.mem_singleton.1 hm]

/-- Compiles with similar vectors succeed together, and their plans give the same in every block. -/
theorem Deep.stable (h : net.Deep Regular) : net.Stable := by
  induction h with
  | @intro net here inside ih =>
    intro output externals externals' plan hs hp
    obtain ⟨trials, ht, rfl⟩ := (compile_eq_ok here.wellFormed).1 hp
    obtain ⟨trials', ht', alike⟩ := tryAll_alike here ht.contains hs
      (fun n u hu => ⟨inside n u hu, ih n u hu⟩) (fun _ he => he) .nil (fun _ hm => nomatch hm)
      ht.tryAll
    have ht' := trials_of_tryAll here.wellFormed ht.contains ht'
    have deep : net.Deep Regular := .intro here inside
    have steady := ht.steady_inner deep.lawful
    have steady' := ht'.steady_inner deep.lawful
    have run (host : Host) (legs : Legs) :=
      ht.run_eq_rendering steady host legs (ht.fits_fresh steady)
    have run' (host : Host) (legs : Legs) :=
      ht'.run_eq_rendering steady' host legs (ht'.fits_fresh steady')
    refine ⟨_, (compile_eq_ok here.wellFormed).2 ⟨trials', ht', rfl⟩,
      fun host legs => ?_, fun host legs => ?_⟩
    · obtain ⟨t, hm, rfl⟩ := ht.trial?_output
      rw [(run host legs).2.1, (run' host legs).2.1]
      exact (ht.rendering_alike ht' alike legs host).2 t hm
    · rw [(run host legs).1, (run' host legs).1]
      exact (ht.rendering_alike ht' alike legs host).1

/-! ### The vectors of a later block -/

/-- The vectors from outside with which a compile keeps the lengths and the early values of an older
one: an input of which something is demanded early keeps the vector it had, and every other takes
the vector of `later`, cut or filled to the length it had. -/
def refit (net : Net) (externals later : Legs) : Legs :=
  net.inputs.zipIdx.map fun (n, i) =>
    let fallback := (net.node? n).elim .zero Node.fallback
    let seen := externals[i]?.getD [fallback]
    if net.isDemanded n then seen else fit (later[i]?.getD []) fallback seen.length

theorem getElem?_refit {later : Legs} {i : Nat} {n : NodeId} {node : Node}
    (hi : net.inputs[i]? = some n) (hn : net.node? n = some node) :
    (net.refit externals later)[i]? = some (if net.isDemanded n then
      externals[i]?.getD [node.fallback] else
      fit (later[i]?.getD []) node.fallback (externals[i]?.getD [node.fallback]).length) := by
  rw [refit, List.getElem?_map, List.getElem?_zipIdx, hi, Option.map_some, Option.map_some]
  dsimp only
  rw [hn, Nat.zero_add, Option.elim_some]

theorem similar_refit (hs : net.NoDangling) (externals later : Legs) :
    net.Similar externals (net.refit externals later) where
  length i n node hi hn := by
    rw [getElem?_refit hi hn, Option.getD_some]
    split
    · rfl
    · rw [length_fit]
  demanded i n node hi hn hd := by
    rw [getElem?_refit hi hn, if_pos ((isDemanded_iff hs).2 hd), Option.getD_some]

/-- Nothing is demanded early of an input that is read in every block. -/
theorem Trials.isDemanded_of_live (h : net.Trials output externals trials) (idle : net.InputsIdle)
    {t : Trial} (ht : t ∈ trials) (hl : t.live = true) (hb : t.node.operator.body = .input) :
    net.isDemanded t.source = false := by
  rw [Bool.eq_false_iff]
  intro hd
  have hn := (h.entry_of_mem ht).1
  have input : t.node.operator.isInput = true := by rw [Operator.isInput, hb]
  have known : net.Known t.source :=
    .input hn (idle t.source _ (operator?_of_node? hn) input) input
      ((isDemanded_iff h.wellFormed.linked.noDangling).1 hd)
  rw [← h.known_iff ht, (Trial.fault_of_live hl).2] at known
  cases known

/-- The fallback and the length of a live input do not change when the vectors are refitted. -/
theorem Trials.fit_refit (h : net.Trials output externals trials) (idle : net.InputsIdle)
    {t : Trial} (ht : t ∈ trials) (hl : t.live = true) (hb : t.node.operator.body = .input)
    (later : Legs) :
    fit ((t.index.bind fun i => later[i]?).getD []) t.fallback t.cells.length =
      fit ((t.index.bind fun i => (net.refit externals later)[i]?).getD []) t.fallback
        t.cells.length := by
  obtain ⟨hnode, hindex, _⟩ := h.entry_of_mem ht
  cases hi : t.index with
  | none => rfl
  | some i =>
    have seen : t.cells = externals[i]?.getD [t.fallback] := by
      obtain ⟨_, _, hk, _⟩ | ⟨_, outcome⟩ | ⟨_, _, hp, _⟩ :=
        h.body_cases ht (Trial.fault_of_live hl).1
      · rw [hb] at hk
        cases hk
      · rw [Trial.cells, outcome, hi]
        rfl
      · rw [hb] at hp
        cases hp
    rw [hi] at hindex
    rw [Option.bind_some, Option.bind_some, getElem?_refit (getElem?_of_idxOf? hindex.symm) hnode,
      h.isDemanded_of_live idle ht hl hb, Option.getD_some, seen]
    exact (fit_of_length_eq (length_fit _ _ _)).symm

/-- A block looks at the vectors from outside only as far as they are refitted. -/
theorem Trials.rendering_refit (h : net.Trials output externals trials) (hr : net.Regular)
    (later : Legs) (host : Host) :
    rendering trials later host = rendering trials (net.refit externals later) host := by
  apply List.foldl_ext
  intro r t ht
  rw [Rendering.step, Rendering.step]
  cases hl : t.live with
  | false => rfl
  | true =>
    rw [if_pos rfl, if_pos rfl]
    have same : t.render trials later r = t.render trials (net.refit externals later) r := by
      rw [Trial.render, Trial.render]
      cases hb : t.node.operator.body with
      | kernel k => rfl
      | promoted u => rfl
      | input =>
        dsimp only
        rw [h.fit_refit hr.rooted.inputsIdle ht hl hb later]
    rw [same]

theorem Trials.run_refit (h : net.Trials output externals trials) (idle : net.InputsIdle)
    (s : State) (host : Host) (later : Legs) :
    (Plan.ofTrials output trials).run s host (net.refit externals later) =
      (Plan.ofTrials output trials).run s host later := by
  rw [Plan.run_eq, Plan.run_eq, Plan.runWith, Plan.runWith]
  have same : (Plan.ofTrials output trials).steps.foldl ((Plan.ofTrials output trials).stepWith
      (Plan.ofTrials output trials).runInner (net.refit externals later)) (s, host) =
        (Plan.ofTrials output trials).steps.foldl ((Plan.ofTrials output trials).stepWith
          (Plan.ofTrials output trials).runInner later) (s, host) := by
    apply List.foldl_ext
    intro x step hstep
    cases step with
    | convert | evaluate => rfl
    | read n index fallback dest =>
      obtain ⟨t, ht, hstep⟩ := Plan.mem_steps_ofTrials.1 hstep
      obtain ⟨hl, ⟨hi, he⟩ | ⟨_, ⟨_, _, _, he⟩ | he⟩⟩ := Plan.mem_steps.1 hstep
      · cases he
        have body : t.node.operator.body = .input := by
          cases hb : t.node.operator.body <;> simp [Trial.isInput, Operator.isInput, hb] at hi ⊢
        rw [Plan.stepWith, Plan.stepWith, (h.regionOf_output ht).1,
          h.fit_refit idle ht hl body later]
      · cases he
      · cases he
  rw [same]

end Net

/-- A state on which a plan has run any number of blocks. -/
inductive Plan.Used (plan : Plan) : State → Prop
  | fresh : plan.Used (.fresh plan)
  | block {s : State} (hs : plan.Used s) (host : Host) (externals : Legs) :
    plan.Used (plan.run s host externals).state

theorem Plan.Used.fits {plan : Plan} {s : State} (hs : plan.Used s) (h : plan.Steady True) :
    plan.Fits s := by
  induction hs with
  | fresh => exact h.fresh
  | block _ host externals ih => exact (h.run _ ih host externals).2.2.2 trivial

namespace Graph
variable {depth : Nat} {g g' : Graph} {context : ContextId} {output : NodeId} {externals : Legs}
  {compiled : Context} {s : State}

/-- A plan over built-in operators and graphs promoted from them, on a state that it has used for
any blocks, gives in a block what the graph gives when it is compiled anew with the vectors of the
block refitted, in the first block on a fresh state. -/
theorem run_eq_recompiled (h : g.Reachable (Operator.Built (· ∈ Builtin.operators) depth))
    (hc : g.compile context output externals = .ok (g', compiled)) (hs : compiled.plan.Used s)
    (renewed : ContextId) (host : Host) (later : Legs) :
    ∃ (g'' : Graph) (recompiled : Context),
      g.compile renewed output (g.net.refit externals later) = .ok (g'', recompiled) ∧
      (compiled.plan.run s host later).output =
        (recompiled.plan.run (.fresh recompiled.plan) host
          (g.net.refit externals later)).output := by
  have deep := h.deep_regular fun op hop => Builtin.regular_of_mem hop
  have hr := deep.here
  obtain ⟨trials, ht, hplan⟩ := (Net.compile_eq_ok hr.wellFormed).1 (plan_of_compile hc)
  obtain ⟨plan', hp, alike⟩ := deep.stable _ _ _ _
    (Net.similar_refit hr.wellFormed.linked.noDangling externals later) (plan_of_compile hc)
  have steady := Net.compile_steady deep.lawful (plan_of_compile hc)
  refine ⟨_, _, by rw [Graph.compile, hp]; rfl, ?_⟩
  have inner := ht.steady_inner deep.lawful
  have run (legs : Legs) :
      (compiled.plan.run (.fresh compiled.plan) host legs).output =
        (rendering trials legs host).value output := by
    rw [hplan]
    exact (ht.run_eq_rendering inner host legs (ht.fits_fresh inner)).2.1
  rw [(steady.run s (hs.fits steady) host later).1, run, ht.rendering_refit hr later host, ← run]
  exact alike.output host _

end Graph

end

namespace Graph

/-- An input that is repeated as often as another says. The count is demanded early. -/
def counted : Document :=
  [⟨.builtin 2, [], [], .empty, 0⟩, ⟨.builtin 2, [], [], .empty, 0⟩,
    ⟨.builtin 44, [0, 1], [], .empty, 0⟩]

/-- After a block, the first input is read anew and the count is still the one of the compile. -/
theorem run_eq_recompiled_counted :
    ∃ (g g' g'' : Graph) (compiled recompiled : Context),
      ofDocument 0 counted Builtin.catalog = .ok g ∧
      g.compile 0 2 [[⟨5⟩], [.ofInteger 2]] = .ok (g', compiled) ∧
      g.compile 1 2 [[⟨7⟩], [.ofInteger 2]] = .ok (g'', recompiled) ∧
      let used := (compiled.plan.run (.fresh compiled.plan) .detached []).state
      (compiled.plan.run used .detached [[⟨7⟩, ⟨8⟩], [⟨9⟩]]).output =
        (recompiled.plan.run (.fresh recompiled.plan) .detached
          [[⟨7⟩], [.ofInteger 2]]).output := by
  have computed : ((ofDocument 0 counted Builtin.catalog).toOption.bind fun g =>
      (g.compile 0 2 [[⟨5⟩], [.ofInteger 2]]).toOption).isSome = true := by cbv
  have refitted : ((ofDocument 0 counted Builtin.catalog).toOption.map fun g =>
      g.net.refit [[⟨5⟩], [.ofInteger 2]] [[⟨7⟩, ⟨8⟩], [⟨9⟩]]) =
        some [[⟨7⟩], [.ofInteger 2]] := by cbv
  obtain ⟨⟨g', compiled⟩, hr⟩ := Option.isSome_iff_exists.1 computed
  obtain ⟨g, hg, hc⟩ := Option.bind_eq_some_iff.1 hr
  rw [hg, Option.map_some, Option.some.injEq] at refitted
  rw [toOption_eq_some] at hg hc
  have reachable : g.Reachable (Operator.Built (· ∈ Builtin.operators) 0) :=
    .loaded (fun op hop => have hm := Builtin.mem_operators hop
      ⟨hm, (Builtin.regular_of_mem hm).2⟩) hg
  obtain ⟨g'', recompiled, hc', same⟩ := run_eq_recompiled reachable hc
    (.block .fresh .detached []) 1 .detached [[⟨7⟩, ⟨8⟩], [⟨9⟩]]
  rw [refitted] at hc' same
  exact ⟨g, g', g'', compiled, recompiled, hg, hc, hc', same⟩

end Graph
end Patchbay
