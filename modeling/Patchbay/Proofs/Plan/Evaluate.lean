import Patchbay.Proofs.Plan.Trials

/-! # Direct evaluation

A net can be evaluated without a plan: a node runs its body on the vectors of its producers,
wherever they are in the net, and a promoted node evaluates its net on them. What the evaluation
finds at a node is what a compile finds when it tries the node.
-/

namespace Patchbay
open Relation

variable [Platform]

/-- What an evaluation finds at a node. -/
inductive Outcome where
  /-- The node, or one behind it, is fed by a vector of another length than its slot demands. -/
  | refused
  /-- The body of the node, or of one behind it, does not run. -/
  | faulted
  | vector (cells : Cells)
deriving DecidableEq

def Outcome.cells : Outcome → Cells
  | vector cells => cells
  | _ => []

def Outcome.ofYield : Except Fault Yield → Outcome
  | .ok y => .vector y.cells
  | .error _ => .faulted

def Trial.found (t : Trial) : Outcome := .ofYield t.outcome

/-- Runs the body of a node on a buffer of zeros. `enter` evaluates the net of a promoted node, and
what is refused there is a fault out here. -/
def Node.give (enter : Legs → Outcome) (node : Node) (external : Option Cells) (legs : Legs)
    (attached : List Bool) : Outcome :=
  match node.operator.body with
  | .kernel k =>
    match k.length ⟨node.config, legs, attached⟩ with
    | .error _ => .faulted
    | .ok n =>
      if maxLength < n then .faulted
      else .vector (k.fill node.config .detached legs (List.replicate n .zero))
  | .input => .vector (external.getD [node.fallback])
  | .promoted _ =>
    match enter legs with
    | .refused => .faulted
    | found => .vector found.cells

namespace Net

def evalLeg (net : Net) (eval : NodeId → Outcome) (node : Node) (socket : Slot × Inlet) : Cells :=
  match socket.2.source with
  | none => [socket.2.default]
  | some p =>
    (eval p).cells.map fun c =>
      c.convert ((net.node? p).elim .any Node.written) (node.reads socket.1)

/-- Whether the producer of a slot has a length that the slot does not take. -/
def misfit (eval : NodeId → Outcome) (socket : Slot × Inlet) : Bool :=
  socket.2.source.any fun p =>
    0 < socket.1.length && (eval p).cells.length != socket.1.length

def evalNode (net : Net) (enter : NodeId → Legs → Outcome) (externals : Legs)
    (eval : NodeId → Outcome) (n : NodeId) : Outcome :=
  match net.node? n with
  | none => .refused
  | some node =>
    if node.sources.any fun p => eval p = .refused then .refused
    else if node.sources.any fun p => eval p = .faulted then .faulted
    else if node.sockets.any (misfit eval) then .refused
    else
      node.give (enter n) ((net.inputs.idxOf? n).bind fun i => externals[i]?)
        (node.sockets.map (net.evalLeg eval node)) (node.sockets.map (·.2.source.isSome))

/-- Evaluates a node over paths of a bounded length. -/
def evalTo (net : Net) (enter : NodeId → Legs → Outcome) (externals : Legs) : Nat → NodeId → Outcome
  | 0, _ => .refused
  | depth + 1, n => net.evalNode enter externals (evalTo net enter externals depth) n

/-- Evaluates a node. No path visits a node twice, so their number bounds the length of paths. -/
def evaluate (net : Net) (externals : Legs) (n : NodeId) : Outcome :=
  evalTo net (fun m legs => match _h : net.template? m with
    | some u => u.net.evaluate legs u.output
    | none => .refused) externals net.nodes.size n
termination_by sizeOf net
decreasing_by exact sizeOf_template? _h

/-- Evaluates the net of a promoted node. -/
def enter (net : Net) (n : NodeId) (legs : Legs) : Outcome :=
  match net.template? n with
  | some u => u.net.evaluate legs u.output
  | none => .refused

theorem evaluate_eq_evalTo (net : Net) (externals : Legs) (n : NodeId) :
    net.evaluate externals n = net.evalTo net.enter externals net.nodes.size n := by
  rw [evaluate]
  congr 1
  funext m legs
  rw [enter]
  split <;> rename_i ht <;> rw [ht]

end Net

/-! ### Evaluations and trials -/

namespace Trial
variable {t : Trial}

theorem cells_found (t : Trial) : t.found.cells = t.cells := by
  rw [found, cells]
  cases t.outcome <;> rfl

theorem found_ne_refused (t : Trial) : t.found ≠ .refused := by
  rw [found]
  cases t.outcome <;> simp [Outcome.ofYield]

theorem found_eq_faulted : t.found = .faulted ↔ t.fault.isSome = true := by
  rw [found, fault]
  cases t.outcome <;> simp [Outcome.ofYield]

theorem found_eq_vector (h : t.fault = none) : t.found = .vector t.cells := by
  rw [fault] at h
  rw [found, cells]
  cases ho : t.outcome with
  | ok y => rfl
  | error f => simp [ho] at h

end Trial

/-- Entering the net of a promoted node finds what its compile gives. -/
structure Net.Enters (net : Net) : Prop where
  ok : ∀ {n legs plan}, net.expand n legs = .ok plan →
    net.enter n legs ≠ .refused ∧ (net.enter n legs).cells = plan.firstOutput legs
  error : ∀ {n legs cause}, net.expand n legs = .error cause → net.enter n legs = .refused

namespace Net
variable {net : Net} {externals : Legs} {eval : NodeId → Outcome}

theorem give_eq (he : net.Enters) (e : Entry) (legs : Legs) (attached : List Bool) :
    e.node.give (net.enter e.source) (e.index.bind fun i => externals[i]?) legs attached =
      .ofYield (e.yield net.expand externals legs attached) := by
  rw [Node.give, Entry.yield]
  cases e.node.operator.body with
  | input => rfl
  | kernel k =>
    dsimp only
    cases k.length ⟨e.node.config, legs, attached⟩ with
    | error f => rfl
    | ok n =>
      dsimp only
      split <;> rfl
  | promoted u =>
    dsimp only
    cases hx : net.expand e.source legs with
    | error cause =>
      rw [he.error hx]
      rfl
    | ok plan =>
      obtain ⟨hne, hc⟩ := he.ok hx
      dsimp only [Outcome.ofYield]
      rw [← hc]
      cases hf : net.enter e.source legs with
      | refused => exact absurd hf hne
      | faulted | vector => rfl

/-- Where the producers of a node are found as tried, so is the node. -/
structure Agrees (net : Net) (eval : NodeId → Outcome) (done : List Trial) (e : Entry) : Prop where
  node : net.node? e.source = some e.node
  index : e.index = net.inputs.idxOf? e.source
  producers : ∀ p ∈ e.node.sources, ∃ q, trial? done p = some q ∧ net.node? p = some q.node ∧
    eval p = q.found

section Agrees
variable {done : List Trial} {e : Entry} (h : net.Agrees eval done e) {x : Slot × Inlet}
include h

theorem Agrees.socket (hx : x ∈ e.node.sockets) :
    x.2.source = none ∧ Entry.producer? done x.2 = none ∨
      ∃ p q, x.2.source = some p ∧ Entry.producer? done x.2 = some q ∧
        net.node? p = some q.node ∧ eval p = q.found := by
  cases hp : x.2.source with
  | none => exact .inl ⟨rfl, by rw [Entry.producer?, hp]; rfl⟩
  | some p =>
    obtain ⟨q, hq, hn, he⟩ := h.producers p (List.mem_filterMap.2 ⟨x.2, (List.of_mem_zip hx).2, hp⟩)
    exact .inr ⟨p, q, rfl, by rw [Entry.producer?, hp, Option.bind_some, hq], hn, he⟩

theorem Agrees.attached :
    e.node.sockets.map (·.2.source.isSome) = e.attached done := by
  apply List.map_congr_left
  intro x hx
  rcases h.socket hx with ⟨hs, hp⟩ | ⟨_, _, hs, hp, _⟩ <;> rw [hs, hp] <;> rfl

theorem Agrees.legs {t : Trial} (ht : t.toEntry = e) :
    e.node.sockets.map (net.evalLeg eval e.node) = t.legsOf done Trial.cells := by
  subst ht
  rw [Trial.legsOf, Trial.sockets, List.map_map]
  apply List.ext_getElem?
  intro i
  rw [List.getElem?_map, List.getElem?_map, List.getElem?_zipIdx]
  cases hx : t.node.sockets[i]? with
  | none => rfl
  | some x =>
    simp only [Option.map_some, Option.some.injEq, Function.comp_apply, evalLeg, Trial.vector]
    rcases h.socket (List.mem_of_getElem? hx) with ⟨hs, hp⟩ | ⟨p, q, hs, hp, hn, hv⟩
    · rw [hs, hp]
    · rw [hs, hp]
      dsimp only
      rw [hn, hv, Trial.cells_found]
      rfl

theorem Agrees.fitting {t : Trial} (ht : t.toEntry = e) :
    e.node.sockets.any (misfit eval) = true ↔ ¬t.Fitting done := by
  subst ht
  have slot (x : Slot × Inlet) (hx : x ∈ t.node.sockets) : misfit eval x = true ↔
      ¬∀ q, Entry.producer? done x.2 = some q → 0 < x.1.length → q.cells.length = x.1.length := by
    rcases h.socket hx with ⟨hs, hp⟩ | ⟨p, q, hs, hp, _, hv⟩
    · simp [misfit, hs, hp]
    · simp [misfit, hs, hp, hv, Trial.cells_found]
  rw [List.any_eq_true, Trial.Fitting, Trial.sockets]
  simp only [List.forall_mem_map]
  constructor
  · rintro ⟨x, hx, hm⟩ fitting
    obtain ⟨i, hi⟩ := List.getElem?_of_mem hx
    exact (slot x hx).1 hm (fitting (x, i) (List.mem_zipIdx_iff_getElem?.2 hi))
  · intro fitting
    by_contra none
    apply fitting
    intro x hx
    have hx := List.mem_of_getElem? (List.mem_zipIdx_iff_getElem?.1 hx)
    by_contra hm
    exact none ⟨x.1, hx, (slot x.1 hx).2 hm⟩

/-- Where the producers of a node are found as tried, so is the node. -/
theorem evalNode_eq (he : net.Enters) :
    net.evalNode net.enter externals eval e.source =
      match e.tryAfter net.expand externals done with
      | .ok t => t.found
      | .error _ => .refused := by
  have refused : (e.node.sources.any fun p => eval p = .refused) = false := by
    rw [List.any_eq_false]
    intro p hp
    obtain ⟨q, _, _, hv⟩ := h.producers p hp
    simpa [hv] using q.found_ne_refused
  have faulted : (e.node.sources.any fun p => eval p = .faulted) =
      (e.faultedSource? done).isSome := by
    rw [Entry.faultedSource?, List.isSome_find?, Bool.eq_iff_iff, List.any_eq_true,
      List.any_eq_true]
    refine exists_congr fun p => and_congr_right fun hp => ?_
    obtain ⟨q, hq, _, hv⟩ := h.producers p hp
    rw [hq, hv, decide_eq_true_iff, Trial.found_eq_faulted, Option.any_some]
  rw [evalNode, h.node]
  dsimp only
  rw [refused, if_neg (by simp), faulted, Entry.tryAfter]
  cases hf : e.faultedSource? done with
  | some p => rfl
  | none =>
    rw [if_neg (by simp)]
    let t : Trial := { e with outcome := .error (.inherited 0) }
    cases hl : e.legs done with
    | error cause =>
      have unfit : ¬t.Fitting done := fun fits => by
        have := (legs_eq_ok (t := t)).2 ⟨fits, rfl⟩
        rw [hl] at this
        cases this
      rw [if_pos ((h.fitting rfl).2 unfit)]
      rfl
    | ok legs =>
      obtain ⟨fits, rfl⟩ := (legs_eq_ok (t := t)).1 hl
      rw [if_neg fun hm => (h.fitting rfl).1 hm fits, h.legs (t := t) rfl, h.attached, ← h.index]
      exact give_eq he e _ _

end Agrees

/-! ### Values of the producers -/

section Congr
variable {node : Node} {eval' : NodeId → Outcome} (same : ∀ p ∈ node.sources, eval p = eval' p)
include same

theorem any_found_congr (found : Outcome) : (node.sources.any fun p => eval p = found) =
    node.sources.any fun p => eval' p = found := by
  rw [Bool.eq_iff_iff, List.any_eq_true, List.any_eq_true]
  exact exists_congr fun p => and_congr_right fun hp => by rw [same p hp]

omit same in
theorem mem_sources_of_socket {x : Slot × Inlet} {p : NodeId} (hx : x ∈ node.sockets)
    (hp : x.2.source = some p) : p ∈ node.sources :=
  List.mem_filterMap.2 ⟨x.2, (List.of_mem_zip hx).2, hp⟩

theorem any_misfit_congr : node.sockets.any (misfit eval) = node.sockets.any (misfit eval') := by
  rw [Bool.eq_iff_iff, List.any_eq_true, List.any_eq_true]
  refine exists_congr fun x => and_congr_right fun hx => ?_
  rw [misfit, misfit]
  cases hp : x.2.source with
  | none => rfl
  | some p => rw [Option.any_some, Option.any_some, same p (mem_sources_of_socket hx hp)]

theorem map_evalLeg_congr : node.sockets.map (net.evalLeg eval node) =
    node.sockets.map (net.evalLeg eval' node) := by
  apply List.map_congr_left
  intro x hx
  rw [evalLeg, evalLeg]
  cases hp : x.2.source with
  | none => rfl
  | some p =>
    dsimp only
    rw [same p (mem_sources_of_socket hx hp)]

end Congr

/-! ### Depth -/

theorem evalNode_eq_refused {enter : NodeId → Legs → Outcome} {n p : NodeId}
    (hf : net.Feeds p n) (h : eval p = .refused) :
    net.evalNode enter externals eval n = .refused := by
  have source := Net.mem_sources.2 hf
  rw [sources] at source
  rw [evalNode]
  cases hn : net.node? n with
  | none => rfl
  | some node =>
    rw [hn] at source
    exact if_pos (List.any_eq_true.2 ⟨p, source, by simp [h]⟩)

theorem evalTo_eq_refused {enter : NodeId → Legs → Outcome} {n p : NodeId}
    (hf : ReflTransGen net.Feeds p n)
    (h : ∀ depth, net.evalTo enter externals depth p = .refused) (depth : Nat) :
    net.evalTo enter externals depth n = .refused := by
  induction hf generalizing depth with
  | refl => exact h depth
  | tail _ hf ih =>
    cases depth with
    | zero => rfl
    | succ depth => exact evalNode_eq_refused hf (ih depth)

/-- Trials of nodes of the net, each behind those of its consumers. -/
structure Placed (net : Net) (externals : Legs) (done : List Trial) : Prop where
  tried : Tried net.expand externals done
  grounded : net.Grounded (done.map (·.source))
  node : ∀ t ∈ done, net.node? t.source = some t.node ∧ t.index = net.inputs.idxOf? t.source

/-- Where the evaluation agrees with all trials so far, or has not got there, this is so for the
next node. -/
theorem agrees_or_refused {done : List Trial} {e : Entry}
    (hn : net.node? e.source = some e.node) (hi : e.index = net.inputs.idxOf? e.source)
    (hg : ∀ p, net.Feeds p e.source → p ∈ done.map (·.source))
    (hd : ∀ t ∈ done, net.node? t.source = some t.node)
    (found : ∀ t ∈ done, eval t.source = .refused ∨ eval t.source = t.found) :
    (∃ t ∈ done, eval t.source = .refused ∧ net.Feeds t.source e.source) ∨
      net.Agrees eval done e := by
  by_cases hr : ∃ t ∈ done, eval t.source = .refused ∧ net.Feeds t.source e.source
  · exact .inl hr
  refine .inr ⟨hn, hi, fun p hp => ?_⟩
  have feeds : net.Feeds p e.source := by
    rw [← Net.mem_sources, sources, hn]
    exact hp
  obtain ⟨q, hq⟩ := exists_trial? (hg p feeds)
  obtain ⟨hm, rfl⟩ := mem_of_trial? hq
  refine ⟨q, hq, hd q hm, (found q hm).resolve_left fun hr' => hr ⟨q, hm, hr', feeds⟩⟩

/-- An evaluation finds the nodes as they were tried, once it goes deep enough. -/
theorem Placed.evalTo {done : List Trial} (he : net.Enters) (h : net.Placed externals done)
    (depth : Nat) {t : Trial} (ht : t ∈ done) :
    net.evalTo net.enter externals depth t.source = .refused ∧ depth < done.length ∨
      net.evalTo net.enter externals depth t.source = t.found := by
  induction done generalizing depth t with
  | nil => cases ht
  | cons u done ih =>
    have rest : net.Placed externals done :=
      ⟨h.tried.2, h.grounded.2, fun t ht => h.node t (List.mem_cons_of_mem u ht)⟩
    rcases List.mem_cons.1 ht with rfl | ht
    · cases depth with
      | zero => exact .inl ⟨rfl, Nat.succ_pos _⟩
      | succ depth =>
        have node := h.node t List.mem_cons_self
        rcases agrees_or_refused node.1 node.2 h.grounded.1 (fun u hu => (rest.node u hu).1)
          fun u hu => (ih rest depth hu).imp_left And.left with ⟨p, hp, hr, hf⟩ | agrees
        · refine .inl ⟨evalNode_eq_refused hf hr, ?_⟩
          rcases ih rest depth hp with ⟨_, hl⟩ | hv
          · exact Nat.succ_lt_succ hl
          · exact absurd (hv.symm.trans hr) p.found_ne_refused
        · right
          rw [Net.evalTo, evalNode_eq agrees he, h.tried.1]
    · exact (ih rest depth ht).imp_left fun hr => ⟨hr.1, Nat.lt_succ_of_lt hr.2⟩

section Entries
variable {output : NodeId} {new : List Trial} {after : List Entry} (hw : net.WellFormed)
  (hc : net.contains output = true) (hs : net.entries output = new.map (·.toEntry) ++ after)
include hw hc hs

theorem grounded_of_entries :
    net.Grounded ((after.map (·.source)).reverse ++ new.reverse.map (·.source)) := by
  have grounded := grounded_lineage hw.linked output
  rw [← map_source_entries hw hc, hs, List.map_append, List.reverse_append,
    List.map_map] at grounded
  rw [List.map_reverse]
  exact grounded

theorem placed_of_entries (tried : Tried net.expand externals new.reverse) :
    net.Placed externals new.reverse := by
  refine ⟨tried, (grounded_of_entries hw hc hs).of_append, fun t ht => ?_⟩
  have mem : t.toEntry ∈ net.entries output := by
    rw [hs]
    exact List.mem_append_left _ (List.mem_map_of_mem (List.mem_reverse.1 ht))
  exact ⟨(entry_of_mem_entries mem).1, (entry_of_mem_entries mem).2.1⟩

end Entries

variable {output : NodeId} {trials : List Trial}

/-- A compile tries each node as the evaluation finds it. -/
theorem Trials.evalTo (h : net.Trials output externals trials) (he : net.Enters) {t : Trial}
    (ht : t ∈ trials) {depth : Nat} (hd : net.nodes.size ≤ depth) :
    net.evalTo net.enter externals depth t.source = t.found := by
  have entries : net.entries output = trials.map (·.toEntry) ++ [] := by
    rw [h.entries, List.append_nil]
  have placed := placed_of_entries h.wellFormed h.contains entries h.tried
  have inside : trials.map (·.source) ⊆ List.range net.nodes.size := fun n hn => by
    obtain ⟨u, hu, rfl⟩ := List.mem_map.1 hn
    have here : net.contains u.source = true := by
      rw [Net.contains, (h.entry_of_mem hu).1]
      rfl
    exact List.mem_range.2 (lt_size_of_contains here)
  have few := (h.nodup.subperm inside).length_le
  rw [List.length_map, List.length_range] at few
  apply (placed.evalTo he depth (List.mem_reverse.2 ht)).resolve_left
  intro hr
  rw [List.length_reverse] at hr
  exact absurd hr.2 (Nat.not_lt.2 (Nat.le_trans few hd))

theorem evalTo_of_error (hw : net.WellFormed) (he : net.Enters) {cause : CompileError}
    (h : net.compile output externals = .error cause) (depth : Nat) :
    net.evalTo net.enter externals depth output = .refused := by
  rw [compile_eq, compileWith] at h
  split at h
  · rename_i hc
    cases ht : tryAll net.expand externals (net.entries output) [] with
    | ok trials => simp [ht, Except.map] at h
    | error c =>
      obtain ⟨new, e, after, hs, tried, failed⟩ := tryAll_eq_error (by trivial) ht
      rw [List.append_nil] at tried failed
      have placed := placed_of_entries hw hc hs tried
      have mem : e ∈ net.entries output := by
        rw [hs]
        exact List.mem_append_right _ List.mem_cons_self
      have up := upstream_of_mem_entries hw hc mem
      have entry := entry_of_mem_entries mem
      have grounded := grounded_of_entries hw hc hs
      rw [List.map_cons, List.reverse_cons, List.append_assoc] at grounded
      refine evalTo_eq_refused up (fun depth => ?_) depth
      cases depth with
      | zero => rfl
      | succ depth =>
        rcases agrees_or_refused entry.1 entry.2.1 grounded.of_append.1
          (fun u hu => (placed.node u hu).1)
          fun u hu => (placed.evalTo he depth hu).imp_left And.left with ⟨p, _, hr, hf⟩ | agrees
        · exact evalNode_eq_refused hf hr
        · rw [evalTo, evalNode_eq agrees he, failed]
  · rename_i hc
    rw [contains, Option.not_isSome_iff_eq_none] at hc
    cases depth with
    | zero => rfl
    | succ depth => rw [evalTo, evalNode, hc]

theorem Trials.evaluate (h : net.Trials output externals trials) (he : net.Enters) {t : Trial}
    (ht : t ∈ trials) : net.evaluate externals t.source = t.found := by
  rw [evaluate_eq_evalTo]
  exact h.evalTo he ht (Nat.le_refl _)

theorem evaluate_of_error (hw : net.WellFormed) (he : net.Enters) {cause : CompileError}
    (h : net.compile output externals = .error cause) :
    net.evaluate externals output = .refused := by
  rw [evaluate_eq_evalTo]
  exact evalTo_of_error hw he h _

/-- The bound on the depth does not show: an evaluation of a node is one of its producers and a run
of its body. -/
theorem evaluate_eq (hw : net.WellFormed) (he : net.Enters) (n : NodeId) :
    net.evaluate externals n = net.evalNode net.enter externals (net.evaluate externals) n := by
  have deeper : net.evalTo net.enter externals net.nodes.size n =
      net.evalTo net.enter externals (net.nodes.size + 1) n := by
    cases hc : net.compile n externals with
    | error cause => rw [evalTo_of_error hw he hc, evalTo_of_error hw he hc]
    | ok plan =>
      obtain ⟨trials, ht, rfl⟩ := (compile_eq_ok hw).1 hc
      obtain ⟨t, hm, rfl⟩ := ht.trial?_output
      rw [ht.evalTo he hm (Nat.le_refl _), ht.evalTo he hm (Nat.le_succ _)]
  rw [evaluate_eq_evalTo, deeper, Net.evalTo]
  congr 1
  funext m
  exact (evaluate_eq_evalTo net externals m).symm

end Net

end Patchbay
