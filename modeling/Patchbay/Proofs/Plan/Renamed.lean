import Patchbay.Proofs.Plan.Layout
import Patchbay.Proofs.Plan.Retried

/-! # Plans under other handles

Trials of corresponding nodes ask for corresponding places of the same cells, so everything lies
where it lay. The plan is then the same, but for the handles that it names.
-/

namespace Patchbay

variable [Platform]

def Place.rename (φ : NodeId → NodeId) : Place → Place
  | output n => output (φ n)
  | leg n slot => leg (φ n) slot

def Allotment.rename (φ : NodeId → NodeId) (a : Allotment) : Allotment :=
  { a with place := a.place.rename φ }

def Step.rename (φ : NodeId → NodeId) : Step → Step
  | read n index fallback dest => read (φ n) index fallback dest
  | convert source dest written reader => convert source dest written reader
  | evaluate n legs dest => evaluate (φ n) legs dest

/-- Whether a node has a faulted producer, whose fault it then takes over. -/
def Plan.inherits (plan : Plan) (net : Net) (n : NodeId) : Bool :=
  (net.sources n).any fun p => (plan.fault? p).isSome

def PlanNode.rename (φ : NodeId → NodeId) (inherits : Bool) (p : PlanNode) : PlanNode :=
  { p with source := φ p.source, fault := p.fault.map (Fault.rename φ inherits) }

/-- A plan of a net under other handles. The plans of promoted nodes keep the handles of their own
nets. -/
def Plan.rename (φ : NodeId → NodeId) (net : Net) (plan : Plan) : Plan :=
  { nodes := plan.nodes.map fun p => p.rename φ (plan.inherits net p.source)
    steps := plan.steps.map (Step.rename φ)
    field := plan.field
    output := φ plan.output }

/-- A node of a plan under its other handle, when no other node got this handle. -/
theorem Plan.node?_rename {φ : NodeId → NodeId} {net : Net} {plan : Plan} {n : NodeId}
    (distinct : ∀ p ∈ plan.nodes, φ p.source = φ n → p.source = n) :
    (plan.rename φ net).node? (φ n) =
      (plan.node? n).map fun p => p.rename φ (plan.inherits net p.source) := by
  rw [Plan.node?, Plan.rename, List.find?_map, Plan.node?]
  congr 1
  refine List.find?_congr fun p hp => ?_
  rw [Bool.eq_iff_iff, Function.comp_apply, beq_iff_eq, beq_iff_eq]
  exact ⟨distinct p hp, congrArg φ⟩

/-! ### Places -/

namespace Trial
variable {φ : NodeId → NodeId} {net net' : Net} {trials trials' : List Trial} {t t' : Trial}

structure Socket.Renamed (φ : NodeId → NodeId) (net : Net) (s s' : Socket) : Prop where
  slot : s'.slot = s.slot
  default : s'.inlet.default = s.inlet.default
  number : s'.number = s.number
  producer : Option.Rel (Trial.Renamed φ net) s.producer s'.producer

theorem sockets_renamed (hr : net.Renamed φ net') (hs : net.NoDangling)
    (hd : List.Forall₂ (Trial.Renamed φ net) trials trials') (h : t.Renamed φ net t') :
    List.Forall₂ (Socket.Renamed φ net) (t.sockets trials) (t'.sockets trials') := by
  rw [sockets, sockets, h.renamed.sockets, List.zipIdx_map, List.map_map,
    List.forall₂_map_left_iff, List.forall₂_map_right_iff, List.forall₂_same]
  intro x hx
  refine ⟨rfl, rfl, rfl, producer?_renamed hr hd hs h.toRenamed ?_⟩
  exact List.mem_of_getElem? (List.mem_zipIdx_iff_getElem?.1 hx)

section Renamed
variable (h : t.Renamed φ net t')
include h

theorem Renamed.converts {p p' : Trial} (hp : p.Renamed φ net p') (slot : Slot) :
    t'.converts p' slot = t.converts p slot := by
  rw [Trial.converts, hp.kind, h.reads, Trial.converts]

theorem foldedPlace_renamed : t'.foldedPlace = t.foldedPlace.map (Allotment.rename φ) := by
  rw [foldedPlace, h.folded, h.source, h.cells, foldedPlace]
  split <;> rfl

variable (sockets : List.Forall₂ (Socket.Renamed φ net) (t.sockets trials) (t'.sockets trials'))
include sockets

theorem constantPlaces_renamed :
    t'.constantPlaces trials' = (t.constantPlaces trials).map (Allotment.rename φ) := by
  rw [constantPlaces, h.live, h.isInput, constantPlaces]
  split
  · refine filterMap_of_forall₂ sockets fun s s' hs => ?_
    have producer := hs.producer
    generalize s.producer = o, s'.producer = o' at producer ⊢
    rw [h.source, hs.number, hs.default, hs.slot]
    cases producer with
    | none => rfl
    | @some p p' hp =>
      dsimp only
      rw [hp.folded, hp.cells, hp.kind, h.reads, h.converts hp]
      split <;> rfl
  · rfl

theorem convertedSockets_renamed :
    List.Forall₂ (fun x x' => x.1.Renamed φ net x'.1 ∧ x.2.Renamed φ net x'.2)
      (t.convertedSockets trials) (t'.convertedSockets trials') := by
  rw [convertedSockets, convertedSockets]
  refine List.rel_filterMap (fun s s' hs => ?_) sockets
  have producer := hs.producer
  generalize s.producer = o, s'.producer = o' at producer ⊢
  cases producer with
  | none => exact .none
  | @some p p' hp =>
    rw [Option.bind_some, Option.bind_some, hs.slot, hp.folded, h.converts hp]
    split
    · exact .some ⟨hs, hp⟩
    · exact .none

theorem livePlaces_renamed :
    t'.livePlaces trials' = (t.livePlaces trials).map (Allotment.rename φ) := by
  rw [livePlaces, h.live, h.isInput, h.source, h.cells, livePlaces]
  split
  · rfl
  split
  · rfl
  · rw [List.map_append]
    congr 1
    rw [List.map_map]
    refine map_of_forall₂ (convertedSockets_renamed h sockets) ?_
    rintro ⟨s, p⟩ ⟨s', p'⟩ ⟨hs, hp⟩
    dsimp only at hs hp ⊢
    rw [Function.comp_apply, hs.number, hp.cells]
    rfl

end Renamed
end Trial

section Placement
variable {φ : NodeId → NodeId} {net net' : Net} {trials trials' : List Trial}

omit [Platform] in
theorem Allotment.place?_rename (offset : Nat) (allotments : List Allotment) :
    place? offset (allotments.map (Allotment.rename φ)) =
      (place? offset allotments).map fun x => (x.1.rename φ, x.2) := by
  induction allotments generalizing offset with
  | nil => rfl
  | cons a rest ih =>
    rw [List.map_cons, place?, ih, place?, List.map_cons]
    rfl

theorem Place.rename_inj (hr : net.Renamed φ net') {k k' : Place}
    (hk : net.contains k.node = true) (hk' : net.contains k'.node = true)
    (he : k.rename φ = k'.rename φ) : k = k' := by
  cases k <;> cases k' <;> simp only [rename, output.injEq, leg.injEq, reduceCtorEq] at he ⊢
  · exact hr.injective hk hk' he
  · exact ⟨hr.injective hk hk' he.1, he.2⟩

theorem exists_of_mem_placement {x : Place × Region} (hx : x ∈ placement trials) :
    ∃ t ∈ trials, x.1.node = t.source := by
  have key := List.mem_map_of_mem (f := (·.1)) hx
  rw [placement, Allotment.map_fst_place?, map_allotments, List.mem_append, List.mem_append] at key
  simp only [List.mem_flatMap] at key
  have own (t : Trial) := @Trial.node_of_mem_places _ trials t x.1
  simp only [Trial.places, List.mem_append] at own
  rcases key with (⟨t, ht, hk⟩ | ⟨t, ht, hk⟩) | ⟨t, ht, hk⟩
  · exact ⟨t, ht, own t (.inl (.inl hk))⟩
  · exact ⟨t, ht, own t (.inl (.inr hk))⟩
  · exact ⟨t, ht, own t (.inr hk)⟩

variable (hr : net.Renamed φ net') (hs : net.NoDangling)
  (hd : List.Forall₂ (Trial.Renamed φ net) trials trials')
include hr hs hd

/-- Corresponding trials ask for corresponding places, with the same first contents. -/
theorem allotments_renamed :
    allotments trials' = (allotments trials).map (Allotment.rename φ) := by
  have sockets {t t' : Trial} (h : t.Renamed φ net t') := Trial.sockets_renamed hr hs hd h
  rw [allotments, allotments, List.map_append, List.map_append, List.map_flatMap,
    List.map_flatMap, List.map_flatMap]
  simp only [List.flatMap_def]
  congr 1
  · congr 1
    · exact congrArg _ (map_of_forall₂ hd fun t t' h => Trial.foldedPlace_renamed h)
    · exact congrArg _ (map_of_forall₂ hd fun t t' h => Trial.constantPlaces_renamed h (sockets h))
  · exact congrArg _ (map_of_forall₂ hd fun t t' h => Trial.livePlaces_renamed h (sockets h))

theorem lookup_renamed {k : Place} (hk : net.contains k.node = true) :
    (placement trials').lookup (k.rename φ) = (placement trials).lookup k := by
  have laid : placement trials' = (placement trials).map fun x => (x.1.rename φ, x.2) := by
    rw [placement, allotments_renamed hr hs hd, Allotment.place?_rename, placement]
  rw [laid]
  refine lookup_map_of_inj fun x hx he => Place.rename_inj hr ?_ hk he
  obtain ⟨t, ht, hn⟩ := exists_of_mem_placement hx
  obtain ⟨t', _, h⟩ := exists_of_forall₂ hd ht
  rw [hn]
  exact h.contains

/-! ### Steps -/

variable {t t' : Trial} (h : t.Renamed φ net t')
include h

theorem regionOf_output_renamed :
    regionOf (placement trials') (.output t'.source) =
      regionOf (placement trials) (.output t.source) := by
  have found := lookup_renamed hr hs hd (k := .output t.source) h.contains
  rw [regionOf, h.source, regionOf, ← found]
  rfl

theorem lookup_leg_renamed (number : Nat) :
    (placement trials').lookup (.leg t'.source number) =
      (placement trials).lookup (.leg t.source number) := by
  have found := lookup_renamed hr hs hd (k := .leg t.source number) h.contains
  rw [h.source, ← found]
  rfl

theorem legRegion_renamed {s s' : Trial.Socket} (hsock : s.Renamed φ net s') :
    t'.legRegion (placement trials') s' = t.legRegion (placement trials) s := by
  have producer := hsock.producer
  rw [Trial.legRegion, Trial.legRegion, hsock.number, lookup_leg_renamed hr hs hd h]
  generalize s.producer = o, s'.producer = o' at producer ⊢
  cases producer with
  | none => rfl
  | some hp => rw [Option.elim_some, Option.elim_some, regionOf_output_renamed hr hs hd hp]

theorem steps_renamed :
    t'.steps (placement trials') trials' =
      (t.steps (placement trials) trials).map (Step.rename φ) := by
  have sockets := Trial.sockets_renamed hr hs hd h
  rw [Trial.steps, h.live, h.isInput, regionOf_output_renamed hr hs hd h, h.index, Trial.steps]
  split
  · rfl
  split
  · rw [h.source, Entry.fallback, h.renamed.fallback]
    rfl
  · rw [List.map_append]
    congr 1
    · rw [List.map_map]
      refine map_of_forall₂ (Trial.convertedSockets_renamed h sockets) ?_
      rintro ⟨s, p⟩ ⟨s', p'⟩ ⟨hsock, hp⟩
      have leg : regionOf (placement trials') (.leg t'.source s.number) =
          regionOf (placement trials) (.leg t.source s.number) := by
        rw [regionOf, lookup_leg_renamed hr hs hd h, regionOf]
      dsimp only at hsock hp ⊢
      rw [Function.comp_apply, regionOf_output_renamed hr hs hd hp, hsock.number, leg, hp.kind,
        hsock.slot, h.reads]
      rfl
    · have legs := map_of_forall₂ sockets fun s s' hsock => legRegion_renamed hr hs hd h hsock
      rw [legs, h.source]
      rfl

end Placement

/-! ### Plans -/

namespace Net
variable {φ : NodeId → NodeId} {net net' : Net} {output : NodeId} {externals : Legs}
  {trials trials' : List Trial}

section Trials
variable (h : net.Trials output externals trials)
include h

theorem Trials.inherits_plan {t : Trial} (ht : t ∈ trials) :
    (Plan.ofTrials output trials).inherits net t.source =
      (t.toEntry.faultedSource? trials).isSome := by
  have sources : net.sources t.source = t.node.sources := by
    rw [Net.sources, (h.entry_of_mem ht).1]
    rfl
  have faulted (p : NodeId) : ((Plan.ofTrials output trials).fault? p).isSome =
      (trial? trials p).any (·.fault.isSome) := by
    rw [Plan.fault?, Plan.node?_ofTrials]
    cases trial? trials p <;> rfl
  rw [Plan.inherits, sources, Entry.faultedSource?, Bool.eq_iff_iff, List.find?_isSome,
    List.any_eq_true]
  simp only [faulted]

variable (h' : net'.Trials (φ output) externals trials') (hr : net.Renamed φ net')
  (hd : List.Forall₂ (Trial.Renamed φ net) trials trials')
include h' hr hd

/-- Where a node takes over a fault, its counterpart takes over that of the counterpart. -/
theorem Trials.outcome_renamed {t t' : Trial} (ht : t ∈ trials) (ht' : t' ∈ trials')
    (hs : t.Renamed φ net t') : t'.outcome =
      t.outcome.mapError (Fault.rename φ (t.toEntry.faultedSource? trials).isSome) := by
  have tried := tryAfter_renamed hr hd h.wellFormed.linked.noDangling hs.toRenamed externals
  rw [h.tryAfter ht, h'.tryAfter ht'] at tried
  exact congrArg Trial.outcome (Except.ok.inj tried)

theorem Trials.ofTrials_renamed :
    Plan.ofTrials (φ output) trials' = (Plan.ofTrials output trials).rename φ net := by
  have dangling := h.wellFormed.linked.noDangling
  have paired : List.Forall₂ (fun t t' => t ∈ trials ∧ t' ∈ trials' ∧ t.Renamed φ net t')
      trials trials' := by
    refine (List.forall₂_and_left _ _).2 ⟨fun _ ht => ht, List.Forall₂.flip ?_⟩
    exact (List.forall₂_and_left _ _).2 ⟨fun _ ht => ht, hd.flip⟩
  have nodes : trials'.map (Trial.planNode (placement trials')) =
      (trials.map (Trial.planNode (placement trials))).map
        fun p => p.rename φ ((Plan.ofTrials output trials).inherits net p.source) := by
    rw [List.map_map]
    refine map_of_forall₂ paired ?_
    rintro t t' ⟨ht, ht', hs⟩
    have fault : t'.fault =
        t.fault.map (Fault.rename φ (t.toEntry.faultedSource? trials).isSome) := by
      rw [Trial.fault, h.outcome_renamed h' hr hd ht ht' hs, Trial.fault]
      cases t.outcome <;> rfl
    rw [Function.comp_apply, PlanNode.rename, Trial.planNode, Trial.planNode,
      h.inherits_plan ht, fault, regionOf_output_renamed hr dangling hd hs, hs.renamed.operator,
      hs.renamed.config, hs.kind, hs.folded, hs.inner, hs.source]
  have steps : trials'.flatMap (Trial.steps (placement trials') trials') =
      (trials.flatMap (Trial.steps (placement trials) trials)).map (Step.rename φ) := by
    rw [List.map_flatMap, List.flatMap_def, List.flatMap_def]
    exact congrArg _ (map_of_forall₂ hd fun t t' hs => steps_renamed hr dangling hd hs)
  have field : (allotments trials').flatMap (·.cells) =
      (allotments trials).flatMap (·.cells) := by
    rw [allotments_renamed hr dangling hd, List.flatMap_map]
    rfl
  rw [Plan.ofTrials, nodes, steps, field]
  rfl

end Trials

/-- A net under other handles compiles to the same plan under these handles, or it fails for the
same reason. -/
theorem Isomorphic.compile (h : net.Isomorphic φ net') (defaults : net.SameDefaults φ net')
    (hw : net.WellFormed) (hw' : net'.WellFormed) (hc : net.contains output = true)
    (externals : Legs) :
    CompileError.Renamed φ (fun plan plan' => plan' = plan.rename φ net)
      (net.compile output externals) (net'.compile (φ output) externals) := by
  have hc' := h.contains_rename hc
  have tried := tryAll_renamed externals h.toRenamed hw.linked.noDangling
    (h.entries_rename defaults hw hw' hc) .nil
  rw [compile_eq, compile_eq, compileWith, compileWith, if_pos hc, if_pos hc']
  generalize hx : tryAll net.expand externals (net.entries output) [] = x,
    hx' : tryAll net'.expand externals (net'.entries (φ output)) [] = x' at tried ⊢
  cases tried with
  | error cause => exact .error cause
  | ok hd =>
    exact .ok ((trials_of_tryAll hw hc hx).ofTrials_renamed (trials_of_tryAll hw' hc' hx')
      h.toRenamed hd)

end Net
end Patchbay
