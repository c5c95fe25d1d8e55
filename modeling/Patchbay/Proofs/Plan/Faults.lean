import Patchbay.Proofs.Plan.Layout

/-! # How faults spread

A node is faulted when a producer is, or when it finds a fault itself on the vectors that it was
tried on. In the first case its fault names the producer on the first slot that has a faulted one,
so from every faulted node a chain of such faults leads to a node with a fault of its own.
-/

namespace Patchbay
open Relation

variable [Platform]

/-- What a node can find wrong itself: its body refuses to give a length, the length is beyond the
limit, or the net of a promoted node does not compile. -/
inductive Entry.Flaw (e : Entry) (legs : Legs) (attached : List Bool) : Fault → Prop
  | refused {k : Kernel} {f : Fault} (body : e.node.operator.body = .kernel k)
    (length : k.length ⟨e.node.config, legs, attached⟩ = .error f) : Flaw e legs attached f
  | long {k : Kernel} {n : Nat} (body : e.node.operator.body = .kernel k)
    (length : k.length ⟨e.node.config, legs, attached⟩ = .ok n) (limit : maxLength < n) :
    Flaw e legs attached (.invalidConfig (.lengthLimit n))
  | nested {u : Template} {cause : CompileError} (body : e.node.operator.body = .promoted u)
    (compiled : u.net.compile u.output legs = .error cause) : Flaw e legs attached (.promoted cause)

/-- The fault that a node finds itself, on the vectors that its producers gave. -/
def Trial.Fails (trials : List Trial) (t : Trial) (f : Fault) : Prop :=
  ∃ legs, t.toEntry.legs trials = .ok legs ∧ t.toEntry.Flaw legs (t.toEntry.attached trials) f

theorem yield_eq_error {e : Entry} {expand : NodeId → Legs → Except CompileError Plan}
    {externals legs : Legs} {attached : List Bool} {f : Fault}
    (nested : ∀ u, e.node.operator.body = .promoted u →
      expand e.source legs = u.net.compile u.output legs) :
    e.yield expand externals legs attached = .error f ↔ e.Flaw legs attached f := by
  constructor
  · intro h
    unfold Entry.yield at h
    split at h
    · rename_i k hk
      cases hn : k.length ⟨e.node.config, legs, attached⟩ with
      | error f =>
        rw [hn] at h
        cases h
        exact .refused hk hn
      | ok n =>
        rw [hn] at h
        dsimp only at h
        split at h
        · rename_i limit
          cases h
          exact .long hk hn limit
        · cases h
    · cases h
    · rename_i u hu
      cases hp : expand e.source legs with
      | error cause =>
        rw [hp] at h
        cases h
        exact .nested hu ((nested u hu).symm.trans hp)
      | ok plan =>
        rw [hp] at h
        cases h
  · rintro (⟨hk, hn⟩ | ⟨hk, hn, limit⟩ | ⟨hu, hp⟩)
    · simp [Entry.yield, hk, hn]
    · simp [Entry.yield, hk, hn, limit]
    · simp [Entry.yield, hu, nested _ hu, hp]

/-! ### The first faulted slot -/

namespace Plan

/-- The producer on the first slot of a node whose producer is faulted. -/
def FirstFaulted (plan : Plan) (net : Net) (n p : NodeId) : Prop :=
  ∃ slot, net.source? n slot = some p ∧ (plan.fault? p).isSome ∧
    ∀ s < slot, ∀ q, net.source? n s = some q → plan.fault? q = none

/-- The fault of a node comes from another one. -/
def Blames (plan : Plan) (n p : NodeId) : Prop := plan.fault? n = some (.inherited p)

theorem fault?_ofTrials (output : NodeId) (trials : List Trial) (n : NodeId) :
    (ofTrials output trials).fault? n = (trial? trials n).bind (·.fault) := by
  rw [fault?, node?_ofTrials, Option.bind_map]
  rfl

end Plan

theorem find?_sources {node : Node} {p : NodeId} {sort : NodeId → Bool} :
    node.sources.find? sort = some p ↔
      ∃ (slot : Nat) (inlet : Inlet), node.inlets[slot]? = some inlet ∧ inlet.source = some p ∧
        sort p = true ∧ ∀ s < slot, ∀ before : Inlet, node.inlets[s]? = some before →
          before.source.any sort = false := by
  rw [Node.sources, List.find?_filterMap, Option.bind_eq_some_iff]
  constructor
  · rintro ⟨inlet, found, source⟩
    obtain ⟨any, slot, bound, rfl, first⟩ := List.find?_eq_some_iff_getElem.1 found
    rw [source, Option.any_some] at any
    refine ⟨slot, _, List.getElem?_eq_getElem bound, source, any, fun s hs before hb => ?_⟩
    obtain ⟨_, rfl⟩ := List.getElem?_eq_some_iff.1 hb
    have := first s hs
    rwa [Bool.not_eq_true'] at this
  · rintro ⟨slot, inlet, hinlet, source, holds, first⟩
    obtain ⟨bound, rfl⟩ := List.getElem?_eq_some_iff.1 hinlet
    refine ⟨_, List.find?_eq_some_iff_getElem.2 ⟨?_, slot, bound, rfl, fun s hs => ?_⟩, source⟩
    · rw [source, Option.any_some, holds]
    · rw [first s hs _ (List.getElem?_eq_getElem (hs.trans bound))]
      rfl

namespace Net.Trials
variable {net : Net} {output n p : NodeId} {externals : Legs} {trials : List Trial}
  (h : net.Trials output externals trials) {t : Trial}
include h

theorem fault?_plan (ht : t ∈ trials) :
    (Plan.ofTrials output trials).fault? t.source = t.fault := by
  rw [Plan.fault?_ofTrials, trial?_of_mem h.nodup ht]
  rfl

theorem faultedSource?_iff (ht : t ∈ trials) : t.toEntry.faultedSource? trials = some p ↔
    (Plan.ofTrials output trials).FirstFaulted net t.source p := by
  have faulted (q : NodeId) : (trial? trials q).any (·.fault.isSome) =
      ((Plan.ofTrials output trials).fault? q).isSome := by
    rw [Plan.fault?_ofTrials]
    cases trial? trials q <;> rfl
  have node := (h.entry_of_mem ht).1
  rw [Entry.faultedSource?, find?_sources]
  constructor
  · rintro ⟨slot, inlet, hinlet, source, fault, first⟩
    refine ⟨slot, (source?_of_inlet node hinlet).trans source, faulted p ▸ fault,
      fun s hs q hq => ?_⟩
    obtain ⟨node', before, hnode, hbefore, hsource⟩ := exists_inlet_of_source? hq
    obtain rfl := Option.some.inj (node.symm.trans hnode)
    have none := first s hs before hbefore
    rw [hsource, Option.any_some, faulted] at none
    exact Option.isNone_iff_eq_none.1 (Option.isSome_eq_false_iff.1 none)
  · rintro ⟨slot, source, fault, first⟩
    obtain ⟨node', inlet, hnode, hinlet, hsource⟩ := exists_inlet_of_source? source
    obtain rfl := Option.some.inj (node.symm.trans hnode)
    refine ⟨slot, inlet, hinlet, hsource, (faulted p).trans fault, fun s hs before hbefore => ?_⟩
    cases hq : before.source with
    | none => rfl
    | some q =>
      rw [Option.any_some, faulted, first s hs q ((source?_of_inlet node hbefore).trans hq)]
      rfl

/-- A node takes over the fault of the producer on its first faulted slot. If there is none, it has
the faults that it finds itself. -/
theorem fault_cases (ht : t ∈ trials) :
    (∃ p, (Plan.ofTrials output trials).FirstFaulted net t.source p ∧
      t.fault = some (.inherited p)) ∨
    (∀ p, net.Feeds p t.source → (Plan.ofTrials output trials).fault? p = none) ∧
      ∀ f, t.fault = some f ↔ t.Fails trials f := by
  have tried := h.tryAfter ht
  cases hs : t.toEntry.faultedSource? trials with
  | some p =>
    rw [Entry.tryAfter, hs] at tried
    refine .inl ⟨p, (h.faultedSource?_iff ht).1 hs, ?_⟩
    rw [← Except.ok.inj tried]
    rfl
  | none =>
    have sound (p : NodeId) (hp : net.Feeds p t.source) :
        (Plan.ofTrials output trials).fault? p = none := by
      obtain ⟨q, hq, found, rfl⟩ := h.exists_producer ht hp
      have none := List.find?_eq_none.1 hs q.source ((h.mem_sources ht).2 hp)
      rw [found, Option.any_some] at none
      rw [h.fault?_plan hq]
      simpa using none
    rw [Entry.tryAfter, hs] at tried
    cases hl : t.toEntry.legs trials with
    | error => simp [hl, Except.map] at tried
    | ok legs =>
      have outcome : t.toEntry.yield net.expand externals legs (t.toEntry.attached trials) =
          t.outcome := by
        simp only [hl, Except.map, Except.ok.injEq] at tried
        exact congrArg Trial.outcome tried
      have nested (u : Template) (hu : t.node.operator.body = .promoted u) :
          net.expand t.source legs = u.net.compile u.output legs :=
        expand_of_body (h.entry_of_mem ht).1 hu legs
      refine .inr ⟨sound, fun f => ?_⟩
      have fault : t.fault = some f ↔ t.outcome = .error f := by
        rw [Trial.fault]
        cases t.outcome <;> simp
      rw [fault, ← outcome, yield_eq_error nested]
      constructor
      · exact fun flaw => ⟨legs, hl, flaw⟩
      · rintro ⟨legs', hl', flaw⟩
        rw [hl] at hl'
        obtain rfl := Except.ok.inj hl'
        exact flaw

/-- From a faulted node the faults lead to one that has its fault from nobody. -/
theorem exists_origin (ht : t ∈ trials) (hf : t.fault.isSome) :
    ∃ u ∈ trials, ReflTransGen (Plan.ofTrials output trials).Blames t.source u.source ∧
      (∀ p, net.Feeds p u.source → (Plan.ofTrials output trials).fault? p = none) ∧
      ∃ f, u.fault = some f ∧ u.Fails trials f := by
  have wf := h.wellFormed.acyclic.wellFounded h.wellFormed.linked.noDangling
  generalize hn : t.source = n
  induction n using wf.induction generalizing t with
  | _ n ih =>
    subst hn
    rcases h.fault_cases ht with ⟨p, first, inherited⟩ | ⟨sound, own⟩
    · obtain ⟨slot, source, fault, -⟩ := first
      obtain ⟨q, hq, -, rfl⟩ := h.exists_producer ht ⟨slot, source⟩
      rw [h.fault?_plan hq] at fault
      obtain ⟨u, hu, chain, origin⟩ := ih q.source ⟨slot, source⟩ hq fault rfl
      exact ⟨u, hu, .head ((h.fault?_plan ht).trans inherited) chain, origin⟩
    · obtain ⟨f, hf⟩ := Option.isSome_iff_exists.1 hf
      exact ⟨t, ht, .refl, sound, f, hf, (own f).1 hf⟩

end Net.Trials

/-! ### The list of faults -/

def faultsOf (trials : List Trial) : List (NodeId × Fault) :=
  trials.filterMap fun t => t.fault.map (t.source, ·)

/-- Tries the nodes one after the other, and writes down every fault when it is found. -/
def Net.tryNoting (expand : NodeId → Legs → Except CompileError Plan) (externals : Legs) :
    List Entry → List Trial → List (NodeId × Fault) →
      Except CompileError (List Trial × List (NodeId × Fault))
  | [], done, noted => .ok (done.reverse, noted)
  | e :: rest, done, noted => do
    let t ← e.tryAfter expand externals done
    match t.fault with
    | some f => tryNoting expand externals rest (t :: done) (noted ++ [(t.source, f)])
    | none => tryNoting expand externals rest (t :: done) noted

/-- What is written down on the way are the faults of the trials at the end. -/
theorem tryNoting_eq (expand : NodeId → Legs → Except CompileError Plan) (externals : Legs)
    (entries : List Entry) (done : List Trial) :
    Net.tryNoting expand externals entries done (faultsOf done.reverse) =
      (Net.tryAll expand externals entries done).map fun trials => (trials, faultsOf trials) := by
  induction entries generalizing done with
  | nil => rfl
  | cons e rest ih =>
    rw [Net.tryNoting, Net.tryAll]
    cases e.tryAfter expand externals done with
    | error cause => rfl
    | ok t =>
      have one : faultsOf (t :: done).reverse =
          faultsOf done.reverse ++ (t.fault.map (t.source, ·)).toList := by
        rw [faultsOf, List.reverse_cons, List.filterMap_append, ← faultsOf]
        cases hf : t.fault <;> simp [hf]
      simp only [bind, Except.bind]
      rw [← ih, one]
      cases t.fault with
      | none => rw [Option.map_none, Option.toList_none, List.append_nil]
      | some f => rfl

namespace Plan

theorem map_fst_faults (plan : Plan) :
    plan.faults.map (·.1) = (plan.nodes.filter (·.fault.isSome)).map (·.source) := by
  rw [faults, List.map_filterMap, ← List.filterMap_eq_filter, List.map_filterMap]
  refine List.filterMap_congr fun p _ => ?_
  cases hf : p.fault <;> simp [hf]

end Plan

namespace Net.Trials
variable {net : Net} {output n : NodeId} {externals : Legs} {trials : List Trial}
  (h : net.Trials output externals trials)
include h

theorem tryNoting : Net.tryNoting net.expand externals (net.entries output) [] [] =
    .ok (trials, (Plan.ofTrials output trials).faults) := by
  refine (tryNoting_eq net.expand externals (net.entries output) []).trans ?_
  rw [h.tryAll]
  refine congrArg (fun faults => Except.ok (trials, faults)) ?_
  rw [Plan.faults, Plan.ofTrials, List.filterMap_map]
  rfl

theorem mem_faults {f : Fault} : (n, f) ∈ (Plan.ofTrials output trials).faults ↔
    (Plan.ofTrials output trials).fault? n = some f := by
  rw [Plan.fault?_ofTrials, Plan.faults, Plan.ofTrials, List.filterMap_map, List.mem_filterMap,
    Option.bind_eq_some_iff]
  constructor
  · rintro ⟨t, ht, he⟩
    obtain ⟨_, hf, he⟩ := Option.map_eq_some_iff.1 he
    obtain ⟨rfl, rfl⟩ := Prod.mk.inj he
    exact ⟨t, trial?_of_mem h.nodup ht, hf⟩
  · rintro ⟨t, ht, hf⟩
    obtain ⟨mem, rfl⟩ := mem_of_trial? ht
    exact ⟨t, mem, Option.map_eq_some_iff.2 ⟨f, hf, rfl⟩⟩

theorem nodup_faults : ((Plan.ofTrials output trials).faults.map (·.1)).Nodup := by
  have sources := h.nodup
  rw [← Plan.map_source_ofTrials output] at sources
  rw [Plan.map_fst_faults]
  exact sources.sublist (List.filter_sublist.map _)

end Net.Trials
end Patchbay
