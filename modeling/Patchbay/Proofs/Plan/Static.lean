import Patchbay.Proofs.Plan.Recompile

/-! # Cells that no block changes

A step writes the region that it is meant for and nothing else, whatever the bodies do. So a region
that lies apart from all that the steps write holds at any point of any block what the plan laid
down there: the cells of a folded node, a default, or converted constants.
-/

namespace Patchbay

variable [Platform]

namespace Plan
variable {plan : Plan} (inner : NodeId → State → Host → Legs → Option Block) (externals : Legs)
  {x : State × Host}

theorem field_stepWith {step : Step} (hd : step.dest.stop ≤ x.1.field.length) :
    (plan.stepWith inner externals x step).1.field = x.1.field ∨
      ∃ cells : Cells, cells.length = step.dest.length ∧
        (plan.stepWith inner externals x step).1.field = step.dest.write cells x.1.field := by
  have whole : (step.dest.read x.1.field).length = step.dest.length := Region.length_read hd
  cases step with
  | read n index fallback dest => exact .inr ⟨_, length_fit _ _ _, rfl⟩
  | convert source dest written reader => exact .inr ⟨_, (length_pour _ _).trans whole, rfl⟩
  | evaluate n regions dest =>
    rw [stepWith]
    split
    · exact .inl rfl
    split
    · rename_i k _
      exact .inr ⟨_, (k.length_fill _ _ _ _).trans whole, rfl⟩
    · split
      · exact .inr ⟨_, (length_pour _ _).trans whole, rfl⟩
      · exact .inl rfl
    · exact .inl rfl

/-- A buffer of a plan that holds what was laid down where no step writes. -/
structure Holds (plan : Plan) (field : Cells) : Prop where
  length : field.length = plan.field.length
  fixed : ∀ r : Region, (∀ step ∈ plan.steps, r.Apart step.dest) →
    r.read field = r.read plan.field

def Inside (plan : Plan) : Prop := ∀ step ∈ plan.steps, step.dest.stop ≤ plan.field.length

theorem AliasFree.inside_steps {net : Net} (h : plan.AliasFree net) : plan.Inside := by
  intro step hs
  apply h.inside
  exact List.mem_append_right _ (List.mem_map_of_mem hs)

theorem Holds.step (h : plan.Holds x.1.field) (hi : plan.Inside) {step : Step}
    (hs : step ∈ plan.steps) :
    plan.Holds (plan.stepWith inner externals x step).1.field := by
  have inside : step.dest.stop ≤ x.1.field.length := h.length ▸ hi step hs
  rcases field_stepWith inner externals inside with he | ⟨cells, hc, he⟩
  · rw [he]
    exact h
  · rw [he]
    refine ⟨(Region.length_write hc inside).trans h.length, fun r hr => ?_⟩
    rw [Region.read_write_of_apart (hr step hs) hc inside, h.fixed r hr]

/-- In the middle of a block the static cells are what they were before it. -/
theorem Holds.foldl (h : plan.Holds x.1.field) (hi : plan.Inside) {steps : List Step}
    (hs : ∀ step ∈ steps, step ∈ plan.steps) :
    plan.Holds (steps.foldl (plan.stepWith inner externals) x).1.field :=
  foldl_prefix (P := fun _ (x : State × Host) => plan.Holds x.1.field) h
    fun _ _ _ _ hl hx =>
      hx.step inner externals hi (hs _ (hl ▸ List.mem_append_right _ List.mem_cons_self))

theorem Holds.run {s : State} (h : plan.Holds s.field) (hi : plan.Inside) (host : Host)
    (externals : Legs) : plan.Holds (plan.run s host externals).state.field := by
  rw [run_eq]
  exact h.foldl plan.runInner externals (x := (s, host)) hi fun _ hs => hs

theorem holds_fresh (plan : Plan) : plan.Holds (State.fresh plan).field := by
  rw [fresh_eq]
  exact ⟨rfl, fun _ _ => rfl⟩

theorem Used.holds {s : State} (h : plan.Used s) (hi : plan.Inside) : plan.Holds s.field := by
  induction h with
  | fresh => exact holds_fresh plan
  | block _ host externals ih => exact ih.run hi host externals

/-- What the body of a node reads, slot by slot, when a block gets to it. -/
def Reads (plan : Plan) (s : State) (host : Host) (externals : Legs) (n : NodeId) (legs : Legs) :
    Prop :=
  ∃ before regions dest after, plan.steps = before ++ .evaluate n regions dest :: after ∧
    legs = regions.map fun r =>
      r.read (before.foldl (plan.stepWith plan.runInner externals) (s, host)).1.field

end Plan

namespace Net.Trials
variable {net : Net} {output : NodeId} {externals : Legs} {trials : List Trial}
  (h : net.Trials output externals trials) {t : Trial} {s : Trial.Socket}
include h

theorem inside_plan : (Plan.ofTrials output trials).Inside := h.aliasFree.inside_steps

/-- A slot that is open, or fed by a folded node, is read from where no step writes, and there lies
what the node was tried on. -/
theorem legRegion_static (ht : t ∈ trials) (hl : t.live = true) (hi : t.isInput = false)
    (hs : s ∈ t.sockets trials) (hp : ∀ p, s.producer = some p → p.folded = true) :
    (∀ step ∈ (Plan.ofTrials output trials).steps,
      (t.legRegion (placement trials) s).stop ≤ step.dest.offset) ∧
    (t.legRegion (placement trials) s).read (Plan.ofTrials output trials).field =
      t.vector Trial.cells s := by
  rcases t.socket_cases s with hc | hc | ⟨hk, hc, p, he, hn⟩
  · obtain ⟨region, _, read⟩ := h.legRegion_constant ht hl hi hs hc
    refine ⟨fun step hstep => ?_, read⟩
    rw [region]
    exact h.static_before (static_constant ht hl hi hs hc) hstep
  · obtain ⟨p, he, hf, _⟩ := Trial.producer_of_convertsLive hc
    rw [hp p he] at hf
    cases hf
  · have mem := (h.producer_eq ht hs).2 p he
    have region := h.legRegion_direct ht hs he hk hc
    have place := regionOf_allotment h.nodup
      (mem_allotments_folded mem (Trial.place_folded (hp p he)))
    refine ⟨fun step hstep => ?_, ?_⟩
    · rw [region]
      exact h.static_before (static_folded mem (hp p he)) hstep
    · rw [region, Trial.vector_of_not_converts he hn]
      exact place.2.2.2

theorem read_static {before : State} (hb : (Plan.ofTrials output trials).Used before)
    (ht : t ∈ trials) (hs : s ∈ t.sockets trials)
    (hp : ∀ p, s.producer = some p → p.folded = true) {host : Host} {later legs : Legs}
    (hr : (Plan.ofTrials output trials).Reads before host later t.source legs) :
    legs[s.number]? = (t.legsOf trials Trial.cells)[s.number]? := by
  obtain ⟨done, regions, dest, rest, hsteps, rfl⟩ := hr
  have mem : .evaluate t.source regions dest ∈ (Plan.ofTrials output trials).steps :=
    hsteps ▸ List.mem_append_right _ List.mem_cons_self
  obtain ⟨u, hu, hl, hi, he, rfl, _⟩ := Plan.mem_evaluate.1 mem
  cases h.eq_of_source ht hu he
  obtain ⟨apart, read⟩ := h.legRegion_static ht hl hi hs hp
  have ran : ∀ step ∈ done, step ∈ (Plan.ofTrials output trials).steps :=
    fun step hstep => hsteps ▸ List.mem_append_left _ hstep
  have holds := (hb.holds h.inside_plan).foldl (Plan.ofTrials output trials).runInner later
    (x := (before, host)) h.inside_plan ran
  rw [List.map_map, List.getElem?_map, Trial.getElem?_legsOf Trial.cells hs,
    Trial.mem_sockets hs, Option.map_some, Function.comp_apply,
    holds.fixed _ fun step hstep => .inl (apart step hstep), read]

omit h in
theorem exists_reads (ht : t ∈ trials) (hl : t.live = true) (hi : t.isInput = false)
    (before : State) (host : Host) (later : Legs) :
    ∃ legs, (Plan.ofTrials output trials).Reads before host later t.source legs := by
  have step : Step.evaluate t.source _ _ ∈ (Plan.ofTrials output trials).steps :=
    Plan.mem_evaluate.2 ⟨t, ht, hl, hi, rfl, rfl, rfl⟩
  obtain ⟨done, rest, hsteps⟩ := List.append_of_mem step
  exact ⟨_, done, _, _, rest, hsteps, rfl⟩

end Net.Trials
end Patchbay
