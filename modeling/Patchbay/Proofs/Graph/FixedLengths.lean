import Patchbay.Generator
import Patchbay.Proofs.Graph.Agreement
import Patchbay.Proofs.Graph.Provenance
import Patchbay.Proofs.Plan.Mismatch

/-! # What an accepted edge promises about a fixed length

An edit measures the producer and then makes the edge, which settles the kinds of all nodes anew.
Kinds decide how a value is rounded and so how many cells a count asks for. Where the new edge
leaves the kinds upstream of the producer as they were, the producer keeps the length that was
measured; otherwise the slot may refuse it at the next compile.
-/

namespace Patchbay
open Relation

section
variable [Platform]

def Node.face (node : Node) : Node := { node with outlets := [], lengths := [], placement := 0 }

namespace Net
variable {net net' : Net} {n m p : NodeId} {slot : Nat}

/-! ### What lies upstream -/

/-- Two nets show an evaluation the same node. -/
def SameFace (net net' : Net) (n : NodeId) : Prop :=
  (net'.node? n).map Node.face = (net.node? n).map Node.face

section Face
variable {node node' : Node} (face : node'.face = node.face)
include face

theorem sources_of_face : node'.sources = node.sources :=
  show node'.face.sources = node.face.sources from congrArg Node.sources face

theorem sockets_of_face : node'.sockets = node.sockets :=
  show node'.face.sockets = node.face.sockets from congrArg Node.sockets face

theorem give_of_face (enter : Legs → Outcome) (external : Option Cells) (legs : Legs)
    (attached : List Bool) :
    node'.give enter external legs attached = node.give enter external legs attached :=
  show node'.face.give enter external legs attached = node.face.give enter external legs attached
    from congrArg (fun node => Node.give enter node external legs attached) face

theorem evalLeg_of_face {eval : NodeId → Outcome} {x : Slot × Inlet}
    (producers : ∀ p, x.2.source = some p → net.SameFace net' p) :
    net'.evalLeg eval node' x = net.evalLeg eval node x := by
  have reads : node'.reads x.1 = node.reads x.1 :=
    show node'.face.reads x.1 = node.face.reads x.1 from congrArg (fun node => node.reads x.1) face
  rw [evalLeg, evalLeg]
  cases hp : x.2.source with
  | none => rfl
  | some p =>
    have written (net : Net) : (net.node? p).elim .any Node.written =
        ((net.node? p).map Node.face).elim .any Node.written := by
      rw [Option.elim_map]
      rfl
    dsimp only
    rw [reads, written net', written net, producers p hp]

end Face

/-- The evaluation of a node reads its face, those of its producers and what they evaluate to. -/
theorem evalNode_congr {enter enter' : NodeId → Legs → Outcome} {eval eval' : NodeId → Outcome}
    (here : net.SameFace net' n) (inside : enter' n = enter n)
    (producers : ∀ p, net.Feeds p n → net.SameFace net' p ∧ eval' p = eval p) :
    net'.evalNode enter' [] eval' n = net.evalNode enter [] eval n := by
  rw [evalNode, evalNode, inside]
  cases hn : net.node? n with
  | none =>
    rw [SameFace, hn, Option.map_none, Option.map_eq_none_iff] at here
    rw [here]
  | some node =>
    rw [SameFace, hn, Option.map_some] at here
    obtain ⟨node', hn', face⟩ := Option.map_eq_some_iff.1 here
    have feeds {q : NodeId} (hq : q ∈ node.sources) : net.Feeds q n := by
      simpa [← Net.mem_sources, Net.sources, hn] using hq
    have same (q : NodeId) (hq : q ∈ node.sources) := (producers q (feeds hq)).2
    have legs : node.sockets.map (net'.evalLeg eval node') =
        node.sockets.map (net.evalLeg eval node) :=
      List.map_congr_left fun x hx => evalLeg_of_face face fun q hq =>
        (producers q (feeds (mem_sources_of_socket hx hq))).1
    have same' (q : NodeId) (hq : q ∈ node'.sources) : eval' q = eval q :=
      same q (sources_of_face face ▸ hq)
    rw [hn']
    dsimp only
    rw [any_found_congr same', any_found_congr same', any_misfit_congr same',
      map_evalLeg_congr same', sources_of_face face, sockets_of_face face, legs, give_of_face face]
    simp

/-- An evaluation reads only what lies upstream. -/
theorem evaluate_congr (size : net'.nodes.size = net.nodes.size)
    (same : ∀ m, ReflTransGen net.Feeds m n → net.SameFace net' m) :
    net'.evaluate [] n = net.evaluate [] n := by
  rw [evaluate_eq_evalTo, evaluate_eq_evalTo, size]
  generalize net.nodes.size = depth
  induction depth generalizing n with
  | zero => rfl
  | succ depth ih =>
    have inside : net'.enter n = net.enter n := by
      have template := congrArg (fun o : Option Node => o.bind (·.operator.template?))
        (same n .refl)
      simp only [Option.bind_map] at template
      change (net'.node? n).bind (fun node => node.operator.template?) =
        (net.node? n).bind fun node => node.operator.template? at template
      funext legs
      simp only [enter, template?, operator?, Option.bind_map, Function.comp_def, template]
    exact evalNode_congr (same n .refl) inside fun p hp =>
      ⟨same p (.single hp), ih fun m hm => same m (hm.tail hp)⟩

/-- The length that a probe finds is that of the evaluation. -/
theorem probe_eq_ok_iff (hd : net.Deep WellFormed) {length : Nat} :
    net.probe n = .ok length ↔
      net.evaluate [] n ≠ .refused ∧ (net.evaluate [] n).cells.length = length := by
  cases compiled : net.compile n [] with
  | error cause =>
    simp [probe, compiled, evaluate_of_error hd.here hd.enters compiled]
  | ok plan =>
    obtain ⟨trials, ht, _⟩ := (compile_eq_ok hd.here).1 compiled
    obtain ⟨t, hm, rfl⟩ := ht.trial?_output
    rw [ht.probe hm, ht.evaluate hd.enters hm, Trial.cells_found, Except.ok.injEq]
    simp [t.found_ne_refused]

/-! ### The net with the new edge -/

theorem sameFace_edited {source : Option NodeId} (hm : m ≠ n)
    (kind : (net.setSource n slot source).resolve.kind? m = net.kind? m) :
    net.SameFace (net.setSource n slot source).resolve m := by
  have wired : ((net.setSource n slot source).node? m).map Node.face =
      (net.node? m).map Node.face := by
    have linked (net : Net) (p : NodeId) :
        ((net.link p ⟨n, slot⟩).node? m).map Node.face = (net.node? m).map Node.face :=
      view_modify (by exact fun _ => rfl) net p m
    have unlinked (net : Net) (p : NodeId) :
        ((net.unlink p ⟨n, slot⟩).node? m).map Node.face = (net.node? m).map Node.face :=
      view_modify (by exact fun _ => rfl) net p m
    have fed : (net.feed n slot source).node? m = net.node? m := by
      rw [feed, node?_modify, if_neg hm.symm]
    rw [setSource, ← fed]
    cases net.source? n slot <;> cases source <;>
      simp only [Option.elim_none, Option.elim_some, unlinked, linked]
  rw [kind?, kind?, resolve, withKinds, node?_mapIdx] at kind
  rw [SameFace, resolve, withKinds, node?_mapIdx, Option.map_map]
  cases hn : net.node? m with
  | none =>
    rw [hn, Option.map_none, Option.map_eq_none_iff] at wired
    simp [wired]
  | some node =>
    rw [hn, Option.map_some] at wired
    obtain ⟨node', hn', face⟩ := Option.map_eq_some_iff.1 wired
    rw [hn, hn', Option.map_some, Option.bind_some, Option.bind_some] at kind
    have restored : ({ node' with kind := node.kind } : Node).face = node.face :=
      show { node'.face with kind := node.kind } = node.face by rw [face]; rfl
    dsimp only at kind
    rw [hn', Option.map_some, Option.map_some, Function.comp_apply, kind, restored]

end Net

namespace Graph
variable {allowed : Operator → Prop} {depth : Nat} {g : Graph} {n p : NodeId} {slot : Nat}
  {e : Edited}

/-- After an accepted edge a compile of its consumer fails at this slot exactly when it gets there
and the producer has not the length any more that it had when it was measured. It has this length
still if the edge left the kinds of the producer and of all behind it as they were. -/
theorem attach_mismatch_iff (h : g.Reachable (Operator.Built allowed depth))
    (ha : g.attach n slot p = .ok e) (context : ContextId) :
    ((∃ expected found,
      e.graph.compile context n [] = .error (.lengthMismatch n slot expected found)) ↔
      (∀ q, e.graph.net.Feeds q n → e.graph.net.Clean q) ∧
      (∀ k < slot, ∀ q, e.graph.net.source? n k = some q → e.graph.net.LengthFits n k q) ∧
        ¬e.graph.net.LengthFits n slot p) ∧
    ((∀ m, ReflTransGen g.net.Feeds m p → e.graph.net.kind? m = g.net.kind? m) →
      e.graph.net.LengthFits n slot p ∧
        ¬∃ expected found,
          e.graph.compile context n [] = .error (.lengthMismatch n slot expected found)) := by
  have deep := h.deep_wellFormed
  have deep' : e.graph.net.Deep Net.WellFormed := (h.step (.attach ha)).deep_wellFormed
  obtain ⟨checked, he⟩ := attach_eq_ok.1 ha
  have edited : e.graph.net = (g.net.setSource n slot (some p)).resolve := he ▸ rfl
  obtain ⟨⟨inlet, live, path⟩, -, fits⟩ := (Net.checkEdge_eq_ok_iff deep.here).1 checked
  have same := Net.sameWiring_resolve (g.net.setSource n slot (some p))
  have source : e.graph.net.source? n slot = some p := by
    rw [edited, Net.source?_eq_wiring?, same.wiring, ← Net.source?_eq_wiring?]
    exact Net.source?_setSource_self inlet
  have compiled (expected found : Nat) :
      e.graph.compile context n [] = .error (.lengthMismatch n slot expected found) ↔
        e.graph.net.compile n [] = .error (.lengthMismatch n slot expected found) := by
    rw [Graph.compile]
    cases e.graph.net.compile n [] <;> simp [Except.map]
  have refusal := Net.compile_mismatch_iff deep' source
  simp only [compiled]
  refine ⟨refusal, fun kinds => ?_⟩
  have fits' : e.graph.net.LengthFits n slot p := by
    intro s hs hl
    have operator : e.graph.net.operator? n = g.net.operator? n := by
      rw [edited, Net.operator?_eq_wiring?, same.wiring, ← Net.operator?_eq_wiring?,
        Net.operator?_setSource]
    rw [Net.slot?, operator] at hs
    have size : e.graph.net.nodes.size = g.net.nodes.size := by
      rw [edited, same.size, Net.size_setSource]
    have evaluated : e.graph.net.evaluate [] p = g.net.evaluate [] p := by
      refine Net.evaluate_congr size fun m up => ?_
      have apart : m ≠ n := fun he => path (he ▸ up)
      rw [edited]
      exact Net.sameFace_edited apart (edited ▸ kinds m up)
    rw [Net.probe_eq_ok_iff deep', evaluated, ← Net.probe_eq_ok_iff deep]
    exact fits s hs hl
  exact ⟨fits', fun failed => (refusal.1 failed).2.2 fits'⟩

end Graph

end

namespace Graph

theorem built_assembled {numbers : List Nat} {edges : List Edge}
    (h : assembled numbers edges = some g) :
    g.Reachable (Operator.Built (· ∈ Builtin.catalog.operators) 0) :=
  (reachable_assembled h).imp fun _ hop =>
    ⟨hop, (Builtin.regular_of_mem (Builtin.mem_operators hop)).2⟩

/-- A constant that counts the cells of a repetition. -/
theorem attach_mismatch_iff_counted : ∃ (g : Graph) (e : Edited),
    assembled [12, 44] [] = some g ∧ g.attach 1 1 0 = .ok e ∧
      ¬∃ expected found, e.graph.compile 0 1 [] = .error (.lengthMismatch 1 1 expected found) := by
  have computed : ((assembled [12, 44] []).bind fun g => (g.attach 1 1 0).toOption.filter fun e =>
      g.net.sources 0 == [] && e.graph.net.kind? 0 == g.net.kind? 0).isSome = true := by cbv
  obtain ⟨e, hr⟩ := Option.isSome_iff_exists.1 computed
  obtain ⟨g, hg, hr⟩ := Option.bind_eq_some_iff.1 hr
  obtain ⟨attached, hr⟩ := Option.filter_eq_some_iff.1 hr
  simp only [Bool.and_eq_true, beq_iff_eq] at hr
  obtain ⟨open_, kind⟩ := hr
  rw [toOption_eq_some] at attached
  refine ⟨g, e, hg, attached,
    ((attach_mismatch_iff (built_assembled hg) attached 0).2 fun m up => ?_).2⟩
  rcases up.cases_tail with rfl | ⟨q, _, feeds⟩
  · exact kind
  · rw [← Net.mem_sources, open_] at feeds
    cases feeds

/-- An input of one and three fifths counts one cell as long as it is a decimal. The last edge makes
an integer of it, which counts two, so what was measured with one cell has two in the compile. -/
theorem attach_mismatch_rounded : ∃ (g : Graph) (e : Edited),
    g.Reachable (· ∈ Builtin.catalog.operators) ∧
    (g.net.slot? 5 1).map (·.length) = some 1 ∧ g.attach 5 1 1 = .ok e ∧
      e.graph.compile 0 5 [] = .error (.lengthMismatch 5 1 1 2) := by
  have computed : ((assembled [2, 79, 1, 1, 44, 44] [⟨3, 4, 1⟩, ⟨0, 3, 0⟩, ⟨0, 2, 0⟩, ⟨2, 4, 0⟩,
      ⟨4, 1, 0⟩, ⟨0, 1, 1⟩]).bind fun g =>
        (g.setNumber 0 "default" ⟨0x3ff999999999999a⟩).toOption.bind fun g =>
          (g.attach 5 1 1).toOption.filter fun e =>
            (g.net.slot? 5 1).map (·.length) == some 1 &&
              failure? (e.graph.compile 0 5 []) == some (.lengthMismatch 5 1 1 2)).isSome =
      true := by cbv
  obtain ⟨e, hr⟩ := Option.isSome_iff_exists.1 computed
  obtain ⟨bare, hg, hr⟩ := Option.bind_eq_some_iff.1 hr
  obtain ⟨g, numbered, hr⟩ := Option.bind_eq_some_iff.1 hr
  obtain ⟨attached, hr⟩ := Option.filter_eq_some_iff.1 hr
  simp only [Bool.and_eq_true, beq_iff_eq] at hr
  have reachable : g.Reachable (· ∈ Builtin.catalog.operators) :=
    .step (reachable_assembled hg) (.setNumber (toOption_eq_some.1 numbered))
  exact ⟨g, e, reachable, hr.1, toOption_eq_some.1 attached, failure?_eq_some.1 hr.2⟩

end Graph
end Patchbay
