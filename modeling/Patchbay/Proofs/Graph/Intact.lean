import Patchbay.Generator
import Patchbay.Proofs.Plan.FirstBlock
import Patchbay.Proofs.Plan.Guarded

/-! # Blocks inside their buffers

A block leaves the length of its buffer and every cell that no step writes: the cells of the folded
nodes, the defaults and the converted constants among them. The same holds in the buffers of
promoted nodes, whose plans are compiles of their own nets. On such a state no guard of a block
fails, and the block leaves another one, whatever comes in from outside.
-/

namespace Patchbay

section
variable [Platform]

def Region.Covers (r : Region) (i : Nat) : Prop := r.offset ≤ i ∧ i < r.stop

namespace Plan

/-- A buffer of a plan in which all that no step writes is as it was laid down. -/
structure Kept (plan : Plan) (net : Net) (field : Cells) : Prop where
  length : field.length = plan.field.length
  cells : ∀ i, (∀ step ∈ plan.steps, ¬step.dest.Covers i) → field[i]? = plan.field[i]?
  folded : ∀ p ∈ plan.nodes, p.folded = true → p.region.read field = p.region.read plan.field
  constants : ∀ r ∈ plan.constants net, r.read field = r.read plan.field

/-- A state of the plan of a net whose buffers are kept at every depth. Each promoted node that runs
in every block has a state, and each plan inside belongs to the net of its node. -/
inductive Intact : Plan → Net → State → Prop
  | intro {net : Net} {plan : Plan} {s : State} (here : plan.Kept net s.field)
    (children : ∀ n ∈ plan.liveInner, (s.inner.lookup n).isSome)
    (promoted : ∀ n p, plan.inner? n = some p → (net.template? n).isSome)
    (inner : ∀ n t p child, net.template? n = some t → plan.inner? n = some p →
      s.inner.lookup n = some child → p.Intact t.net child) : plan.Intact net s

section Kept
variable {plan : Plan} {net : Net} {field : Cells}

theorem holds_iff : plan.Holds field ↔ field.length = plan.field.length ∧
    ∀ i, (∀ step ∈ plan.steps, ¬step.dest.Covers i) → field[i]? = plan.field[i]? := by
  constructor
  · intro h
    refine ⟨h.length, fun i hi => ?_⟩
    have alone : ∀ step ∈ plan.steps, (⟨i, 1⟩ : Region).Apart step.dest := by
      intro step hs
      have outside := hi step hs
      simp only [Region.Covers, Region.Apart, Region.stop] at outside ⊢
      omega
    have read := congrArg (·[0]?) (h.fixed ⟨i, 1⟩ alone)
    simpa [Region.read, List.getElem?_take, List.getElem?_drop] using read
  · rintro ⟨length, cells⟩
    refine ⟨length, fun r hr => ?_⟩
    apply List.ext_getElem?
    intro i
    simp only [Region.read, List.getElem?_take, List.getElem?_drop]
    by_cases hi : i < r.length
    · rw [if_pos hi, if_pos hi]
      apply cells
      intro step hs
      have apart := hr step hs
      simp only [Region.Covers, Region.Apart, Region.stop] at apart ⊢
      omega
    · rw [if_neg hi, if_neg hi]

/-- In a layout without aliases it is enough that the regions apart from all steps hold. -/
theorem kept_iff (h : plan.AliasFree net) : plan.Kept net field ↔ plan.Holds field := by
  constructor
  · intro hk
    exact holds_iff.2 ⟨hk.length, hk.cells⟩
  · intro hh
    have first := (List.pairwise_append.1 h.apart).2.2
    have still (r : Region)
        (hr : r ∈ (plan.nodes.filter (·.folded)).map (·.region) ++ plan.constants net) :
        r.read field = r.read plan.field := by
      apply hh.fixed
      intro step hs
      exact .inl (first r hr step.dest (List.mem_map_of_mem hs))
    obtain ⟨length, cells⟩ := holds_iff.1 hh
    refine ⟨length, cells, fun p hp hf => still _ ?_, fun r hr => still r ?_⟩
    · exact List.mem_append_left _ (List.mem_map_of_mem (List.mem_filter.2 ⟨hp, hf⟩))
    · exact List.mem_append_right _ hr

end Kept

section Step
variable {plan : Plan} {net : Net} {x : State × Host}

/-- A step leaves the states of the promoted nodes as they are, or runs a block of one of them. -/
theorem inner_stepWith (plan : Plan) (inner : NodeId → State → Host → Legs → Option Block)
    (externals : Legs) (x : State × Host) (step : Step) :
    (plan.stepWith inner externals x step).1.inner = x.1.inner ∨
      ∃ n child host legs b, x.1.inner.lookup n = some child ∧ inner n child host legs = some b ∧
        (plan.stepWith inner externals x step).1.inner = (x.1.setInner n b.state).inner := by
  cases step with
  | read n index fallback dest => exact .inl rfl
  | convert source dest written reader => exact .inl rfl
  | evaluate n regions dest =>
    rw [stepWith]
    split
    · exact .inl rfl
    split
    · exact .inl rfl
    · split
      · rename_i b hb
        obtain ⟨child, hc, hb⟩ := Option.bind_eq_some_iff.1 hb
        exact .inr ⟨n, child, _, _, b, hc, hb, rfl⟩
      · exact .inl rfl
    · exact .inl rfl

/-- A plan of a net whose guards never fail on a state that is intact, and whose blocks leave one.
-/
structure Safe (plan : Plan) (net : Net) : Prop where
  fresh : plan.Intact net (.fresh plan)
  run : ∀ s, plan.Intact net s → ∀ host externals,
    plan.runGuarded s host externals = some (plan.run s host externals) ∧
      plan.Intact net (plan.run s host externals).state

variable (free : plan.AliasFree net)
  (nested : ∀ n p, plan.inner? n = some p → ∃ t, net.template? n = some t ∧ p.Safe t.net)
include free nested

theorem Intact.step (h : plan.Intact net x.1) (externals : Legs) {step : Step}
    (hs : step ∈ plan.steps) :
    plan.Intact net (plan.stepWith plan.runInner externals x step).1 := by
  obtain ⟨here, children, promoted, inner⟩ := h
  have kept := (kept_iff free).2
    (((kept_iff free).1 here).step plan.runInner externals free.inside_steps hs)
  rcases inner_stepWith plan plan.runInner externals x step with
    he | ⟨n, child, host, legs, b, hc, hb, he⟩
  · rw [← he] at children inner
    exact .intro kept children promoted inner
  · obtain ⟨p, hp, rfl⟩ := Option.map_eq_some_iff.1 hb
    apply Intact.intro kept _ promoted
    · intro m t q child' ht hq hl
      rw [he, lookup_setInner] at hl
      by_cases hmn : m = n
      · subst hmn
        simp only [if_true, hc, Option.map_some, Option.some.injEq] at hl
        cases hp.symm.trans hq
        obtain ⟨u, hu, safe⟩ := nested m p hp
        cases hu.symm.trans ht
        rw [← hl]
        exact (safe.run child (inner m t p child ht hp hc) host legs).2
      · rw [if_neg hmn] at hl
        exact inner m t q child' ht hq hl
    · intro m hm
      rw [he, lookup_setInner]
      by_cases hmn : m = n
      · simp [hmn, hc]
      · simp [hmn, children m hm]

/-- The guards of a block change nothing on a state that is intact, and the block leaves one. -/
theorem Intact.run (hb : plan.Bounded) {s : State} (h : plan.Intact net s) (host : Host)
    (externals : Legs) :
    plan.runGuarded s host externals = some (plan.run s host externals) ∧
      plan.Intact net (plan.run s host externals).state := by
  have step (x : State × Host) (hx : plan.Intact net x.1) (l : Nat × Step)
      (hl : l ∈ located 0 plan.steps) :
      plan.stepGuarded plan.innerGuarded externals x l =
          some (plan.stepWith plan.runInner externals x l.2) ∧
        plan.Intact net (plan.stepWith plan.runInner externals x l.2).1 := by
    refine ⟨?_, hx.step free nested externals (mem_of_located hl)⟩
    obtain ⟨here, _, _, inner⟩ := hx
    apply stepGuarded_eq hb here.length _ externals hl
    intro n p child hp hc host legs
    obtain ⟨t, ht, safe⟩ := nested n p hp
    exact (safe.run child (inner n t p child ht hp hc) host legs).1
  have all := foldlM_eq_foldl (P := fun x => plan.Intact net x.1) (b := (s, host)) step h
  rw [map_located] at all
  have length : (plan.steps.foldl (plan.stepWith plan.runInner externals)
      (s, host)).1.field.length = plan.field.length := by
    obtain ⟨here⟩ := all.2
    exact here.length
  constructor
  · rw [runGuarded_eq, run_eq, runGuardedWith, all.1]
    simp [runWith, slice?_region (length ▸ hb.output)]
  · rw [run_eq]
    exact all.2

theorem safe_of_nested (hb : plan.Bounded) (live : ∀ n ∈ plan.liveInner, (plan.inner? n).isSome) :
    plan.Safe net where
  fresh := by
    rw [fresh_eq]
    apply Intact.intro
    · exact (kept_iff free).2 ⟨rfl, fun _ _ => rfl⟩
    · intro n hn
      rw [State.freshWith, lookup_filterMap, if_pos hn, Option.isSome_map]
      exact live n hn
    · intro n p hp
      obtain ⟨t, ht, _⟩ := nested n p hp
      simp [ht]
    · intro n t p child ht hp hl
      rw [State.freshWith, lookup_filterMap] at hl
      split at hl
      · rw [hp, Option.map_some, Option.some.injEq] at hl
        obtain ⟨u, hu, safe⟩ := nested n p hp
        cases hu.symm.trans ht
        exact hl ▸ safe.fresh
      · cases hl
  run s hs host externals := hs.run free nested hb host externals

end Step
end Plan

namespace Net.Trials
variable {net : Net} {output : NodeId} {externals : Legs} {trials : List Trial}
  (h : net.Trials output externals trials)
include h

theorem bounded_plan : (Plan.ofTrials output trials).Bounded where
  inside := h.inside_plan
  reads := h.aliasFree.reads
  planned n legs dest hs := by
    obtain ⟨t, ht, _, _, rfl, _⟩ := Plan.mem_evaluate.1 hs
    rw [h.node?_plan ht]
    rfl
  output := by
    obtain ⟨t, ht, rfl⟩ := h.trial?_output
    rw [h.outputRegion_plan]
    exact (h.regionOf_output ht).2

end Net.Trials

theorem Net.compile_safe {net : Net} (h : net.Deep WellFormed) {output : NodeId} {externals : Legs}
    {plan : Plan} (hp : net.compile output externals = .ok plan) : plan.Safe net := by
  induction h generalizing output externals plan with
  | @intro net here inside ih =>
    obtain ⟨trials, ht, rfl⟩ := (compile_eq_ok here).1 hp
    apply Plan.safe_of_nested ht.aliasFree _ ht.bounded_plan
    · intro n hn
      obtain ⟨t, hm, _, inner, rfl⟩ := Trials.mem_liveInner.1 hn
      rw [ht.inner?_plan hm]
      exact inner
    · intro n p hn
      obtain ⟨q, hq, hi⟩ := Option.bind_eq_some_iff.1 hn
      rw [Plan.node?_ofTrials] at hq
      obtain ⟨t, found, rfl⟩ := Option.map_eq_some_iff.1 hq
      obtain ⟨hm, rfl⟩ := mem_of_trial? found
      obtain ⟨u, template, compiled⟩ := ht.compile_inner hm hi
      exact ⟨u, template, ih _ u template compiled⟩

namespace Graph
variable {allowed : Operator → Prop} {depth : Nat} {g g' : Graph} {context : ContextId}
  {output : NodeId} {externals : Legs} {compiled : Context} {s : State}

/-- After any blocks of a compiled graph, no guard of the next one fails, whatever the host is and
whatever comes in from outside, and its state is intact: the buffers have the planned lengths, and
every cell that no step writes is as it was laid down, at every depth. -/
theorem runGuarded_eq_run (h : g.Reachable (Operator.Built allowed depth))
    (hc : g.compile context output externals = .ok (g', compiled)) (hs : compiled.plan.Used s) :
    compiled.plan.Intact g.net s ∧ ∀ host legs,
      compiled.plan.runGuarded s host legs = some (compiled.plan.run s host legs) := by
  have safe := Net.compile_safe h.deep_wellFormed (plan_of_compile hc)
  have intact : compiled.plan.Intact g.net s := by
    induction hs with
    | fresh => exact safe.fresh
    | block hs host legs ih => exact (safe.run _ ih host legs).2
  exact ⟨intact, fun host legs => (safe.run s intact host legs).1⟩

end Graph

end

namespace Graph

theorem runGuarded_eq_run_nested : ∃ (g g' : Graph) (compiled : Context),
    nested = some g ∧ g.compile 0 0 [] = .ok (g', compiled) ∧ compiled.plan.liveInner = [0] ∧
      let s := (compiled.plan.run (.fresh compiled.plan) .detached [[⟨7⟩, ⟨8⟩], []]).state
      compiled.plan.Intact g.net s ∧ ∀ host legs,
        compiled.plan.runGuarded s host legs = some (compiled.plan.run s host legs) := by
  have computed : (nested.bind fun g => (g.compile 0 0 []).toOption).map
      (·.2.plan.liveInner) = some [0] := by cbv
  obtain ⟨⟨g', compiled⟩, hr, live⟩ := Option.map_eq_some_iff.1 computed
  obtain ⟨g, hg, hc⟩ := Option.bind_eq_some_iff.1 hr
  rw [toOption_eq_some] at hc
  have reachable : g.Reachable (Operator.Built (fun _ => True) 1) :=
    reachable_nested hg fun _ _ => trivial
  exact ⟨g, g', compiled, hg, hc, live, runGuarded_eq_run reachable hc (.block .fresh .detached _)⟩

end Graph
end Patchbay
