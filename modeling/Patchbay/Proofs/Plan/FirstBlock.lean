import Patchbay.Generator
import Patchbay.Proofs.Builtin.Kernels
import Patchbay.Proofs.Graph.Layout
import Patchbay.Proofs.Plan.Evaluate
import Patchbay.Proofs.Plan.Steady

/-! # The first block

Without a host, the first block of a plan renders what its trials found: the cells that were known
stay, and the others are computed again from the same legs. So it leaves at every node what a direct
evaluation of the net finds there, in the nets of promoted nodes as well.
-/

namespace Patchbay

section
variable [Platform]

theorem Plan.run_detached (plan : Plan) (s : State) (legs : Legs) :
    (plan.run s .detached legs).host = .detached := by
  rw [run_eq, runWith]
  have step (x : State × Host) (i : Step) (hx : x.2 = .detached) :
      (plan.stepWith plan.runInner legs x i).2 = .detached := by
    cases i with
    | read | convert => exact hx
    | evaluate n regions dest =>
      rw [stepWith]
      split
      · exact hx
      split
      · dsimp only
        rw [hx]
        rfl
      · split
        · rename_i b hb
          obtain ⟨child, _, hb⟩ := Option.bind_eq_some_iff.1 hb
          obtain ⟨p, hp, rfl⟩ := Option.map_eq_some_iff.1 hb
          rw [hx]
          exact run_detached p child _
        · exact hx
      · exact hx
  exact foldl_prefix (P := fun _ (x : State × Host) => x.2 = .detached)
    (b := (s, .detached)) rfl fun _ i _ x _ hx => step x i hx
termination_by sizeOf plan
decreasing_by exact sizeOf_inner? hp

namespace Net.Trials
variable {net : Net} {output : NodeId} {externals : Legs} {trials : List Trial}
  (h : net.Trials output externals trials)
include h

theorem legsOf_congr {value value' : Trial → Cells} {t : Trial} (ht : t ∈ trials)
    (hv : ∀ p ∈ trials, value p = value' p) : t.legsOf trials value = t.legsOf trials value' := by
  apply List.map_congr_left
  intro s hs
  rw [Trial.vector, Trial.vector]
  cases hp : s.producer with
  | none => rfl
  | some p =>
    dsimp only
    rw [hv p ((h.producer_eq ht hs).2 p hp)]

/-- Without a host, a node renders in the first block what it gave when it was tried. -/
theorem render_detached {t : Trial} {r : Rendering} (ht : t ∈ trials) (hl : t.live = true)
    (host : r.host = .detached) (value : ∀ p ∈ trials, r.value p.source = p.cells) :
    t.render trials externals r = (t.cells, .detached) := by
  have legs : (t.legsOf trials fun p => r.value p.source) = t.legsOf trials Trial.cells :=
    h.legsOf_congr ht value
  rcases h.body_cases ht (Trial.fault_of_live hl).1 with ⟨k, n, hb, _, ho⟩ | ⟨hb, ho⟩ |
    ⟨u, p, hb, _, _, ho⟩
  · have cells : t.cells = k.fill t.node.config .detached (t.legsOf trials Trial.cells)
        (List.replicate n .zero) := by rw [Trial.cells, ho]
    have length : t.cells.length = n := by rw [cells, k.length_fill, List.length_replicate]
    simp only [Trial.render, hb, legs, host, length, ← cells]
    rfl
  · have cells : t.cells = (t.index.bind fun i => externals[i]?).getD [t.fallback] := by
      rw [Trial.cells, ho]
    simp only [Trial.render, hb, host, cells]
    cases t.index.bind fun i => externals[i]? with
    | none => rfl
    | some v => simp [fit]
  · have cells : t.cells = p.firstOutput (t.legsOf trials Trial.cells) := by rw [Trial.cells, ho]
    have inner : t.inner = some p := by rw [Trial.inner, ho]
    simp only [Trial.render, hb, inner, legs, host, Plan.run_detached, cells, Plan.firstOutput]

theorem rendering_detached :
    (rendering trials externals .detached).host = .detached ∧
      ∀ t ∈ trials, (rendering trials externals .detached).value t.source = t.cells := by
  refine foldl_prefix
    (P := fun _ (r : Rendering) => r.host = .detached ∧ ∀ t ∈ trials, r.value t.source = t.cells)
    ⟨rfl, fun t ht => h.start_value .detached ht⟩ fun done t rest r hs ⟨host, value⟩ => ?_
  have ht : t ∈ trials := hs ▸ List.mem_append_right _ List.mem_cons_self
  rw [Rendering.step]
  cases hl : t.live with
  | false => exact ⟨host, value⟩
  | true =>
    rw [if_pos rfl, h.render_detached ht hl host value]
    refine ⟨rfl, fun u hu => ?_⟩
    by_cases he : u.source = t.source
    · rw [h.eq_of_source hu ht he]
      exact if_pos rfl
    · exact (if_neg he).trans (value u hu)

end Net.Trials

namespace Net
variable {net : Net} {output : NodeId} {externals : Legs} {plan : Plan}

theorem Deep.steady (h : net.Deep WellFormed) :
    net.Deep fun net => net.WellFormed ∧ (False → net.Lawful) :=
  h.imp fun _ hw => ⟨hw, False.elim⟩

/-- The first block of a compiled plan leaves what the evaluation finds. -/
theorem Trials.run_fresh {trials : List Trial} (h : net.Trials output externals trials)
    (hd : net.Deep WellFormed) (he : net.Enters) :
    (∀ t ∈ trials, (regionOf (placement trials) (.output t.source)).read
      ((Plan.ofTrials output trials).run (.fresh (.ofTrials output trials)) .detached
        externals).state.field = (net.evaluate externals t.source).cells) ∧
    (Plan.ofTrials output trials).firstOutput externals =
      (net.evaluate externals output).cells := by
  have steady := h.steady_inner hd.steady
  have run := h.run_eq_rendering steady .detached externals (h.fits_fresh steady)
  have value (t : Trial) (ht : t ∈ trials) : (rendering trials externals .detached).value t.source =
      (net.evaluate externals t.source).cells := by
    rw [h.evaluate he ht, Trial.cells_found, h.rendering_detached.2 t ht]
  refine ⟨fun t ht => (run.2.2 t ht).trans (value t ht), ?_⟩
  obtain ⟨t, ht, rfl⟩ := h.trial?_output
  exact run.2.1.trans (value t ht)

/-- Where all nets inside a net compile as they evaluate, entering them finds what their compiles
give. -/
theorem Deep.enters (h : net.Deep WellFormed) : net.Enters := by
  induction h with
  | @intro net here inside ih =>
    constructor
    · intro n legs plan hx
      rw [expand] at hx
      rw [enter]
      cases hu : net.template? n with
      | none => simp [hu] at hx
      | some u =>
        simp only [hu] at hx ⊢
        obtain ⟨trials, ht, rfl⟩ := (compile_eq_ok (inside n u hu).here).1 hx
        obtain ⟨t, hm, hs⟩ := ht.trial?_output
        refine ⟨?_, (ht.run_fresh (inside n u hu) (ih n u hu)).2.symm⟩
        rw [← hs, ht.evaluate (ih n u hu) hm]
        exact t.found_ne_refused
    · intro n legs cause hx
      rw [expand] at hx
      rw [enter]
      cases hu : net.template? n with
      | none => rfl
      | some u =>
        simp only [hu] at hx ⊢
        exact evaluate_of_error (inside n u hu).here (ih n u hu) hx

end Net

namespace Graph
variable {allowed : Operator → Prop} {depth : Nat} {g g' : Graph} {context : ContextId}
  {output : NodeId} {externals : Legs} {compiled : Context}

/-- The first block of a compile, on a fresh state and without a host, leaves in the region of every
node without a fault the vector that the graph evaluates to there. The nodes with a fault are those
at which the evaluation faults, and the output is what the graph evaluates to at its node. -/
theorem run_eq_evaluate (h : g.Reachable (Operator.Built allowed depth))
    (hc : g.compile context output externals = .ok (g', compiled)) :
    let block := compiled.plan.run (.fresh compiled.plan) .detached externals
    (∀ p ∈ compiled.plan.nodes, g.net.evaluate externals p.source =
      if p.fault.isSome then .faulted else .vector (p.region.read block.state.field)) ∧
    block.output = (g.net.evaluate externals output).cells := by
  have deep := h.deep_wellFormed
  obtain ⟨trials, ht, hplan⟩ := (Net.compile_eq_ok deep.here).1 (plan_of_compile hc)
  have run := ht.run_fresh deep deep.enters
  rw [hplan]
  refine ⟨fun p hp => ?_, run.2⟩
  obtain ⟨t, hm, rfl⟩ := List.mem_map.1 hp
  change g.net.evaluate externals t.source = if t.fault.isSome then _ else
    Outcome.vector ((regionOf (placement trials) (.output t.source)).read _)
  rw [run.1 t hm, ht.evaluate deep.enters hm, Trial.cells_found]
  split
  · rename_i hf
    exact Trial.found_eq_faulted.2 hf
  · rename_i hf
    exact Trial.found_eq_vector (by simpa using hf)

end Graph

end

namespace Graph

/-- The graph of `mixed` as the only node of another graph, which feeds its input with a tiny
decimal. -/
def nested : Option Graph := do
  let inner ← (ofDocument 0 mixed Builtin.catalog).toOption
  let promoted ← (inner.promote 2 ⟨1, 0⟩ "mixed").toOption
  let placed ← ((Graph.empty 1).add promoted).toOption
  (placed.graph.setDefault 0 0 ⟨3⟩).toOption

theorem reachable_nested {g : Graph} (h : nested = some g)
    (hall : ∀ op ∈ Builtin.catalog.operators, allowed op) :
    g.Reachable (Operator.Built allowed 1) := by
  unfold nested at h
  simp only [Option.bind_eq_bind, Option.bind_eq_some_iff, toOption_eq_some] at h
  obtain ⟨inner, hi, promoted, hp, placed, ha, hs⟩ := h
  have inside : inner.Reachable (Operator.Built allowed 0) :=
    .loaded (fun op hop => ⟨hall op hop, (Builtin.regular_of_mem (Builtin.mem_operators hop)).2⟩) hi
  have op : Operator.Built allowed 1 promoted :=
    .inr ⟨inner, _, _, _, promoted, inside, hp, .inl rfl⟩
  exact .step (.step (.empty 1) (.add op ha)) (.setDefault hs)

theorem run_eq_evaluate_nested : ∃ (g g' : Graph) (compiled : Context),
    nested = some g ∧ g.compile 0 0 [] = .ok (g', compiled) ∧
      (compiled.plan.run (.fresh compiled.plan) .detached []).output = [⟨3⟩] := by
  have computed : (nested.bind fun g => (g.compile 0 0 []).toOption).isSome = true := by cbv
  have evaluated : (nested.map fun g => g.net.evaluate [] 0) = some (.vector [⟨3⟩]) := by
    cbv
  obtain ⟨⟨g', compiled⟩, hr⟩ := Option.isSome_iff_exists.1 computed
  obtain ⟨g, hg, hc⟩ := Option.bind_eq_some_iff.1 hr
  rw [toOption_eq_some] at hc
  rw [hg, Option.map_some, Option.some.injEq] at evaluated
  refine ⟨g, g', compiled, hg, hc, ?_⟩
  rw [(run_eq_evaluate (reachable_nested hg fun _ _ => trivial) hc).2, evaluated]
  rfl

end Graph
end Patchbay
