import Patchbay.Generator
import Patchbay.Proofs.Plan.Alike
import Patchbay.Proofs.Plan.FirstBlock

/-! # Folded cells

What is known is computed once, ahead of all blocks and without a host. Where no operator looks at a
host unless it says so, a direct evaluation of a folded node finds the same cells under any hosts,
with any vectors from outside that agree where something is demanded early: no body that a known
node is computed from looks at the host, down to the nets inside promoted nodes. An input hands on
what comes from outside, so an evaluation under hosts goes no further there.
-/

namespace Patchbay
open Relation

section
variable [Platform]

/-- The host that each body meets, which others may have changed before. A body is named by the
promoted nodes around it, the outermost first, and its own node. -/
abbrev Hosts := List NodeId → Host

/-- What the bodies inside a promoted node meet. -/
def Hosts.inside (hosts : Hosts) (n : NodeId) : Hosts := fun path => hosts (n :: path)

def Node.giveUnder (host : Host) (enter : Legs → Outcome) (node : Node) (external : Option Cells)
    (legs : Legs) (attached : List Bool) : Outcome :=
  match node.operator.body with
  | .kernel k =>
    match k.length ⟨node.config, legs, attached⟩ with
    | .error _ => .faulted
    | .ok n =>
      if maxLength < n then .faulted
      else .vector (k.fill node.config host legs (List.replicate n .zero))
  | _ => node.give enter external legs attached

theorem Node.giveUnder_detached (enter : Legs → Outcome) (node : Node) (external : Option Cells)
    (legs : Legs) (attached : List Bool) :
    node.giveUnder .detached enter external legs attached =
      node.give enter external legs attached := by
  unfold Node.giveUnder Node.give
  cases node.operator.body <;> rfl

namespace Net

def evalNodeUnder (net : Net) (host : Host) (enter : NodeId → Legs → Outcome) (externals : Legs)
    (eval : NodeId → Outcome) (n : NodeId) : Outcome :=
  match net.node? n with
  | none => .refused
  | some node =>
    if node.sources.any fun p => eval p = .refused then .refused
    else if node.sources.any fun p => eval p = .faulted then .faulted
    else if node.sockets.any (misfit eval) then .refused
    else
      node.giveUnder host (enter n) ((net.inputs.idxOf? n).bind fun i => externals[i]?)
        (node.sockets.map (net.evalLeg eval node)) (node.sockets.map (·.2.source.isSome))

/-- Evaluates a node under hosts over paths of a bounded length. An input runs no body and reads no
slot. It gives what it gives without a host, which is what comes from outside. -/
def evalToUnder (net : Net) (hosts : Hosts) (enter : NodeId → Legs → Outcome) (externals : Legs) :
    Nat → NodeId → Outcome
  | 0, _ => .refused
  | depth + 1, n =>
    if (net.operator? n).any (·.isInput) then net.evalTo net.enter externals (depth + 1) n
    else
      net.evalNodeUnder (hosts [n]) enter externals (evalToUnder net hosts enter externals depth) n

/-- Evaluates a node under hosts. -/
def evaluateUnder (net : Net) (hosts : Hosts) (externals : Legs) (n : NodeId) : Outcome :=
  evalToUnder net hosts (fun m legs => match _h : net.template? m with
    | some u => u.net.evaluateUnder (hosts.inside m) legs u.output
    | none => .refused) externals net.nodes.size n
termination_by sizeOf net
decreasing_by exact sizeOf_template? _h

def enterUnder (net : Net) (hosts : Hosts) (n : NodeId) (legs : Legs) : Outcome :=
  match net.template? n with
  | some u => u.net.evaluateUnder (hosts.inside n) legs u.output
  | none => .refused

theorem evaluateUnder_eq (net : Net) (hosts : Hosts) (externals : Legs) (n : NodeId) :
    net.evaluateUnder hosts externals n =
      net.evalToUnder hosts (net.enterUnder hosts) externals net.nodes.size n := by
  rw [evaluateUnder]
  congr 1
  funext m legs
  rw [enterUnder]
  split <;> rename_i ht <;> rw [ht]

end Net

/-! ### Bodies that keep away from the host -/

/-- An operator that looks at the host only if it is live. A promoted one does not when nothing is
live from which its output is computed. -/
structure Operator.Candid (op : Operator) : Prop where
  kernel : op.live = false → ∀ k, op.body = .kernel k → ∀ config host legs out,
    k.fill config host legs out = k.fill config .detached legs out
  promoted : op.live = false → ∀ u, op.template? = some u → u.net.isLive u.output = false

/-- A net of candid operators. -/
structure Net.Candid (net : Net) : Prop where
  wellFormed : net.WellFormed
  operators : ∀ n op, net.operator? n = some op → op.Candid

namespace Net
variable {net : Net} {n : NodeId}

theorem Candid.of_sameWiring {net' : Net} (h : net.Candid) (hw : net.SameWiring net') :
    net'.Candid := by
  have operator (n : NodeId) : net'.operator? n = net.operator? n := by
    rw [operator?_eq_wiring?, hw.wiring, ← operator?_eq_wiring?]
  exact ⟨h.wellFormed.of_sameWiring hw, fun n op ho => h.operators n op (operator n ▸ ho)⟩

theorem still_of_isLive (hw : net.WellFormed) (h : net.isLive n = false) : net.Still n := by
  intro m op up ho
  have live : net.contains n = true := by
    rcases up.cases_tail with rfl | ⟨_, _, _, hs⟩
    · exact contains_of_operator? ho
    · exact contains_of_source? hs
  rw [isLive, List.any_eq_false] at h
  have idle := h m ((mem_lineage hw.linked hw.acyclic live).2 up)
  rw [ho, Option.any_some, Bool.not_eq_true] at idle
  exact idle

/-! ### Evaluations under hosts and without -/

section Congr
variable {host : Host} {enter enter' : NodeId → Legs → Outcome} {externals externals' : Legs}
  {eval eval' : NodeId → Outcome}

/-- Two evaluations that agree at the producers of a node and on its body agree at the node. -/
theorem evalNodeUnder_eq (producers : ∀ p, net.Feeds p n → eval p = eval' p)
    (body : ∀ node legs attached, net.node? n = some node →
      node.giveUnder host (enter n) ((net.inputs.idxOf? n).bind fun i => externals[i]?) legs
          attached =
        node.give (enter' n) ((net.inputs.idxOf? n).bind fun i => externals'[i]?) legs attached) :
    net.evalNodeUnder host enter externals eval n = net.evalNode enter' externals' eval' n := by
  rw [evalNodeUnder, evalNode]
  cases hn : net.node? n with
  | none => rfl
  | some node =>
    have same (p : NodeId) (hp : p ∈ node.sources) : eval p = eval' p := by
      apply producers
      rw [← mem_sources, sources, hn]
      exact hp
    dsimp only
    rw [any_found_congr same, any_found_congr same, any_misfit_congr same, map_evalLeg_congr same,
      body node _ _ hn]

end Congr

/-- Two lists of vectors from outside give a node the same where it is an input. -/
def Agree (net : Net) (externals externals' : Legs) (n : NodeId) : Prop :=
  ∀ (i : Nat) node, net.inputs[i]? = some n → net.node? n = some node →
    externals[i]?.getD [node.fallback] = externals'[i]?.getD [node.fallback]

theorem Agree.give {externals externals' : Legs} (h : net.Agree externals externals' n)
    {node : Node} (hn : net.node? n = some node) (enter : Legs → Outcome) (legs : Legs)
    (attached : List Bool) :
    node.give enter ((net.inputs.idxOf? n).bind fun i => externals[i]?) legs attached =
      node.give enter ((net.inputs.idxOf? n).bind fun i => externals'[i]?) legs attached := by
  rw [Node.give, Node.give]
  cases node.operator.body with
  | kernel | promoted => rfl
  | input =>
    cases hi : net.inputs.idxOf? n with
    | none => rfl
    | some i => simp only [Option.bind_some, h i node (getElem?_of_idxOf? hi) hn]

/-- An evaluation depends on what comes from outside only at the inputs upstream. -/
theorem evalTo_congr {externals externals' : Legs} (enter : NodeId → Legs → Outcome) (depth : Nat)
    (agree : ∀ m, ReflTransGen net.Feeds m n → net.Agree externals externals' m) :
    net.evalTo enter externals depth n = net.evalTo enter externals' depth n := by
  induction depth generalizing n with
  | zero => rfl
  | succ depth ih =>
    have detached : net.evalTo enter externals (depth + 1) n =
        net.evalNodeUnder .detached enter externals (net.evalTo enter externals depth) n :=
      (evalNodeUnder_eq (fun _ _ => rfl) fun _ _ _ _ => Node.giveUnder_detached ..).symm
    rw [detached, evalTo]
    apply evalNodeUnder_eq
    · intro p hp
      exact ih fun m up => agree m (up.tail hp)
    · intro node legs attached hn
      rw [Node.giveUnder_detached]
      exact (agree n .refl).give hn (enter n) legs attached

/-- A body that is not live runs under a host as it runs without one. -/
theorem Candid.giveUnder_eq (h : net.Candid) {hosts : Hosts}
    (inside : ∀ u legs, net.template? n = some u → u.net.isLive u.output = false →
      net.enterUnder hosts n legs = net.enter n legs)
    {node : Node} (hn : net.node? n = some node) (body : node.operator.isInput = false)
    (live : node.operator.live = false) (external external' : Option Cells) (legs : Legs)
    (attached : List Bool) :
    node.giveUnder (hosts [n]) (net.enterUnder hosts n) external legs attached =
      node.give (net.enter n) external' legs attached := by
  have candid := h.operators n _ (operator?_of_node? hn)
  cases hb : node.operator.body with
  | kernel k =>
    rw [← Node.giveUnder_detached]
    simp only [Node.giveUnder, hb, candid.kernel live k hb]
  | input => simp [Operator.isInput, hb] at body
  | promoted u =>
    have promoted : node.operator.template? = some u := Operator.template?_eq_some.2 hb
    have template : net.template? n = some u := (template?_eq_some hn).2 hb
    simp only [Node.giveUnder, Node.give, hb,
      inside u legs template (candid.promoted live u promoted)]

/-- Nodes that are computed from no live body, and from inputs that are given the same. -/
structure Sheltered (net : Net) (externals externals' : Legs) (s : NodeId → Prop) : Prop where
  input : ∀ {n node}, s n → net.node? n = some node → node.operator.isInput = true →
    ∀ m, ReflTransGen net.Feeds m n → net.Agree externals externals' m
  body : ∀ {n node}, s n → net.node? n = some node → node.operator.isInput = false →
    node.operator.live = false ∧ ∀ p, net.Feeds p n → s p

theorem sheltered_still (externals : Legs) : net.Sheltered externals externals net.Still where
  input _ _ _ _ _ _ _ _ _ := rfl
  body still hn _ := ⟨still _ _ .refl (operator?_of_node? hn), fun _ => still.of_feeds⟩

/-- Of an input that is known something is demanded early, and so it is of all that is upstream. -/
theorem sheltered_known {externals externals' : Legs}
    (agree : ∀ m, net.Demanded m → net.Agree externals externals' m) :
    net.Sheltered externals externals' net.Known where
  input known hn input m up := by
    have operator := known.demanded (operator?_of_node? hn) input
    exact agree m (operator.of_upstream up)
  body known hn body := by
    cases known with
    | input hn' _ input _ =>
      cases hn.symm.trans hn'
      rw [body] at input
      cases input
    | body hn' live _ producers =>
      cases hn.symm.trans hn'
      exact ⟨live, producers⟩

/-- Away from live bodies, an evaluation under hosts is one without. -/
theorem Deep.evaluateUnder_eq (h : net.Deep Candid) (hosts : Hosts) {externals externals' : Legs}
    {s : NodeId → Prop} (sheltered : net.Sheltered externals externals' s) (hs : s n) :
    net.evaluateUnder hosts externals n = net.evaluate externals' n := by
  induction h generalizing hosts externals externals' n s with
  | @intro net here inside ih =>
    rw [Net.evaluateUnder_eq, evaluate_eq_evalTo]
    generalize net.nodes.size = depth
    induction depth generalizing n with
    | zero => rfl
    | succ depth deeper =>
      rw [evalToUnder]
      split
      · rename_i input
        obtain ⟨op, ho, input⟩ := (Option.any_eq_true _ _).1 input
        obtain ⟨node, hn, rfl⟩ := Option.map_eq_some_iff.1 ho
        exact evalTo_congr net.enter (depth + 1) (sheltered.input hs hn input)
      · rename_i body
        have node (node : Node) (hn : net.node? n = some node) : node.operator.live = false ∧
            node.operator.isInput = false ∧ ∀ p, net.Feeds p n → s p := by
          rw [operator?, hn, Option.map_some, Option.any_some, Bool.not_eq_true] at body
          exact ⟨(sheltered.body hs hn body).1, body, (sheltered.body hs hn body).2⟩
        rw [evalTo]
        apply evalNodeUnder_eq
        · intro p hp
          obtain ⟨slot, fed⟩ := hp
          obtain ⟨_, hn⟩ := Option.isSome_iff_exists.1 (contains_of_source? fed)
          exact deeper ((node _ hn).2.2 p ⟨slot, fed⟩)
        · intro _ legs attached hn
          obtain ⟨live, body, _⟩ := node _ hn
          refine here.giveUnder_eq (fun u legs hu idle => ?_) hn body live _ _ legs attached
          rw [enterUnder, enter, hu]
          exact ih n u hu _ (sheltered_still legs)
            (still_of_isLive (inside n u hu).here.wellFormed idle)

/-- Without a host, an evaluation under hosts is the one of the first block. -/
theorem evaluateUnder_detached (net : Net) (externals : Legs) (n : NodeId) :
    net.evaluateUnder (fun _ => .detached) externals n = net.evaluate externals n := by
  rw [evaluateUnder_eq, evaluate_eq_evalTo]
  generalize net.nodes.size = depth
  induction depth generalizing n with
  | zero => rfl
  | succ depth deeper =>
    rw [evalToUnder]
    split
    · rfl
    · rw [evalTo]
      apply evalNodeUnder_eq
      · exact fun p _ => deeper p
      · intro node legs attached hn
        have inside : net.enterUnder (fun _ => .detached) n = net.enter n := by
          funext legs
          rw [enterUnder, enter]
          cases hu : net.template? n with
          | none => rfl
          | some u => exact evaluateUnder_detached u.net legs u.output
        rw [inside, Node.giveUnder_detached]
termination_by sizeOf net
decreasing_by exact sizeOf_template? hu

/-- A folded node lies in the buffer with what it was tried to give. -/
theorem Trials.exists_of_foldedCells? {output : NodeId} {externals : Legs} {trials : List Trial}
    (h : net.Trials output externals trials) {cells : Cells}
    (hc : (Plan.ofTrials output trials).foldedCells? n = some cells) :
    ∃ t ∈ trials, t.source = n ∧ t.folded = true ∧ t.cells = cells := by
  obtain ⟨p, hp, hcells⟩ := Option.bind_eq_some_iff.1 hc
  obtain ⟨t, ht, rfl⟩ := List.mem_map.1 (List.mem_of_find?_eq_some hp)
  have source := List.find?_some hp
  change (if t.folded then _ else none) = some cells at hcells
  split at hcells
  · rename_i hf
    have place := regionOf_allotment h.nodup (mem_allotments_folded ht (Trial.place_folded hf))
    exact ⟨t, ht, eq_of_beq source, hf, place.2.2.2.symm.trans (Option.some.inj hcells)⟩
  · cases hcells

end Net

namespace Operator
variable {allowed : Operator → Prop} {depth : Nat} {op : Operator}

theorem candid_of_promote {g : Graph} {output : NodeId} {id : OperatorId} {name : String}
    (h : g.promote output id name = .ok op) : op.Candid := by
  have template := Graph.template_of_promote h
  unfold Graph.promote at h
  split at h
  · cases h
    constructor
    · intro _ k hk
      cases hk
    · intro live u hu
      cases template.symm.trans hu
      exact live
  · cases h

theorem candid_of_built (hall : ∀ op, allowed op → op.Candid)
    (h : Operator.Built allowed depth op) : op.Candid := by
  induction depth generalizing op with
  | zero => exact hall op h.1
  | succ depth ih =>
    rcases h with h | ⟨_, _, _, _, promoted, _, hp, rfl | ⟨ha, _⟩⟩
    · exact ih h
    · exact candid_of_promote hp
    · exact hall op ha

theorem candid_of_live (h : op.live = true) : op.Candid := by
  constructor <;> intro live <;> rw [h] at live <;> cases live

theorem candid_of_kernel {k : Kernel} (hb : op.body = .kernel k)
    (h : k.fill = fun config _ => k.fill config .detached) : op.Candid where
  kernel _ k' hk config host legs out := by
    cases hb.symm.trans hk
    rw [h]
  promoted _ u hu := by simp [template?, hb] at hu

theorem candid_input (id : OperatorId) : (input id).Candid where
  kernel _ _ hk := nomatch hk
  promoted _ _ hu := nomatch hu

end Operator

namespace Builtin
open Operator

theorem candid_of_mem {op : Operator} (h : op ∈ operators) : op.Candid := by
  simp only [operators, List.mem_append] at h
  rcases h with ((h | h) | h) | h
  · revert op
    simp only [vector, List.forall_mem_cons]
    refine ⟨candid_input _, ?_, ?_, ?_, ?_, ?_, ?_, List.forall_mem_nil _⟩ <;>
      exact candid_of_kernel rfl rfl
  · revert op
    simp only [arithmetic, List.forall_mem_cons]
    refine ⟨?_, ?_, ?_, ?_, ?_, ?_, ?_, ?_, List.forall_mem_nil _⟩ <;>
      exact candid_of_kernel rfl rfl
  · revert op
    simp only [logic, List.forall_mem_cons]
    refine ⟨?_, ?_, ?_, List.forall_mem_nil _⟩ <;> exact candid_of_kernel rfl rfl
  · revert op
    simp only [transport, List.forall_mem_cons]
    exact ⟨candid_of_live rfl, candid_of_live rfl, candid_of_live rfl, candid_of_live rfl,
      List.forall_mem_nil _⟩

end Builtin

namespace Graph
variable {allowed : Operator → Prop} {depth : Nat} {g g' : Graph} {context : ContextId}
  {output n : NodeId} {externals : Legs} {compiled : Context} {cells : Cells}

theorem Reachable.candid (hall : ∀ op, allowed op → op.Candid)
    (h : g.Reachable (Operator.Built allowed depth)) : g.net.Candid where
  wellFormed := h.wellFormed
  operators _ _ ho := Operator.candid_of_built hall (h.operator_placed ho)

/-- Where no operator looks at the host unless it is live, the cells of a folded node are what the
graph evaluates to there under any hosts, with any vectors from outside that agree with those of the
compile on the inputs of which something is demanded early. -/
theorem evaluateUnder_folded (hall : ∀ op, allowed op → op.Candid)
    (h : g.Reachable (Operator.Built allowed depth))
    (hc : g.compile context output externals = .ok (g', compiled))
    (hn : compiled.plan.foldedCells? n = some cells) (hosts : Hosts) {later : Legs}
    (agree : ∀ m, g.net.Demanded m → g.net.Agree later externals m) :
    g.net.evaluateUnder hosts later n = .vector cells := by
  have deep : g.net.Deep Net.Candid := h.deep fun _ g hg =>
    ⟨hg.candid hall, (hg.candid hall).of_sameWiring (Net.sameWiring_resolve g.net)⟩
  have plain := h.deep_wellFormed
  obtain ⟨trials, ht, hplan⟩ := (Net.compile_eq_ok h.wellFormed).1 (plan_of_compile hc)
  rw [hplan] at hn
  obtain ⟨t, hm, rfl, hf, rfl⟩ := ht.exists_of_foldedCells? hn
  obtain ⟨fault, known⟩ := Trial.fault_of_folded hf
  rw [ht.known_iff hm] at known
  rw [deep.evaluateUnder_eq hosts (Net.sheltered_known agree) known, ht.evaluate plain.enters hm,
    Trial.found_eq_vector fault]

end Graph

end

namespace Graph

/-- A constant repeated as often as one input says, beside another input. -/
def sized : Document :=
  [⟨.builtin 12, [], [], .empty, 0⟩, ⟨.builtin 2, [], [], .empty, 0⟩,
    ⟨.builtin 44, [0, 1], [], .empty, 0⟩, ⟨.builtin 2, [], [], .empty, 0⟩,
    ⟨.builtin 4, [2, 3], [], .empty, 0⟩]

/-- The repetition is folded, and it stays the same under other hosts and when the other input
changes. -/
theorem evaluateUnder_folded_sized : ∃ (g g' : Graph) (compiled : Context),
    ofDocument 0 sized Builtin.catalog = .ok g ∧
      g.compile 0 4 [[.ofInteger 2], [⟨5⟩]] = .ok (g', compiled) ∧
        ∀ hosts, g.net.evaluateUnder hosts [[.ofInteger 2], [⟨7⟩, ⟨9⟩]] 2 =
          .vector [.zero, .zero] := by
  have computed : ((ofDocument 0 sized Builtin.catalog).toOption.bind fun g =>
      (g.compile 0 4 [[.ofInteger 2], [⟨5⟩]]).toOption.filter fun c =>
        g.net.inputs == [1, 3] && !g.net.isDemanded 3 &&
          c.2.plan.foldedCells? 2 == some [.zero, .zero]).isSome = true := by cbv
  obtain ⟨⟨g', compiled⟩, hr⟩ := Option.isSome_iff_exists.1 computed
  obtain ⟨g, hg, hr⟩ := Option.bind_eq_some_iff.1 hr
  obtain ⟨hc, hr⟩ := Option.filter_eq_some_iff.1 hr
  simp only [Bool.and_eq_true, beq_iff_eq, Bool.not_eq_true'] at hr
  obtain ⟨⟨inputs, idle⟩, folded⟩ := hr
  rw [toOption_eq_some] at hg hc
  have reachable : g.Reachable (Operator.Built (· ∈ Builtin.operators) 0) :=
    .loaded (fun op hop => have hm := Builtin.mem_operators hop
      ⟨hm, (Builtin.regular_of_mem hm).2⟩) hg
  refine ⟨g, g', compiled, hg, hc, fun hosts => ?_⟩
  refine evaluateUnder_folded (fun _ => Builtin.candid_of_mem) reachable hc folded hosts ?_
  intro m demanded i node hi _
  rw [inputs] at hi
  rcases i with _ | _ | i
  · rfl
  · cases hi
    rw [← Net.isDemanded_iff reachable.wellFormed.linked.noDangling, idle] at demanded
    cases demanded
  · cases hi

end Graph
end Patchbay
