import Patchbay.Generator
import Patchbay.Proofs.Plan.Static

/-! # What is needed early is known

Whatever feeds a slot that needs its value before the first block, or feeds a node behind which
there is such a slot, is known. So a compile folds it, and the body reads in every block the value
on which its length was found.
-/

namespace Patchbay

section
variable [Platform]

namespace Net
variable {net : Net}

namespace Trials
variable {output : NodeId} {externals : Legs} {trials : List Trial}
  (h : net.Trials output externals trials) {t : Trial} {s : Trial.Socket}
include h

/-- In a punctual net the producer of an early slot is folded, unless the node has a fault. -/
theorem folded_of_compileTime (hp : net.Punctual) (ht : t ∈ trials) (hf : t.fault = none)
    (hs : s ∈ t.sockets trials) (early : s.slot.compileTime = true) {p : Trial}
    (he : s.producer = some p) : p.folded = true := by
  obtain ⟨source, mem⟩ := h.producer_eq ht hs
  obtain ⟨hslot, hinlet, _, found⟩ := Trial.getElem?_sockets.1 (Trial.mem_sockets hs)
  have fault := (h.sound_of_fault ht hf).1 s hs p he
  obtain ⟨q, hq, hqp⟩ := Option.bind_eq_some_iff.1 (found.symm.trans he)
  obtain ⟨_, rfl⟩ := mem_of_trial? hqp
  have known := known_of_compileTime h.wellFormed (h.mem_entries ht) hp hslot early hinlet hq
  rw [← h.known_iff (mem p he)] at known
  rw [Trial.folded, known, fault]
  rfl

theorem read_of_compileTime (hp : net.Punctual) (ht : t ∈ trials) (hf : t.fault = none)
    (hs : s ∈ t.sockets trials) (early : s.slot.compileTime = true) {before : State}
    (hb : (Plan.ofTrials output trials).Used before) {host : Host} {later legs : Legs}
    (hr : (Plan.ofTrials output trials).Reads before host later t.source legs) :
    legs[s.number]? = (t.legsOf trials Trial.cells)[s.number]? :=
  h.read_static hb ht hs (fun _ => h.folded_of_compileTime hp ht hf hs early) hr

end Trials

theorem Trials.exists_socket_of_inlet {output : NodeId} {externals : Legs} {trials : List Trial}
    (h : net.Trials output externals trials) {t : Trial} (ht : t ∈ trials) {slot : Nat} {s : Slot}
    {inlet : Inlet} (hs : t.node.operator.slots[slot]? = some s)
    (hi : net.inlet? t.source slot = some inlet) :
    ∃ socket ∈ t.sockets trials,
      socket.slot = s ∧ socket.number = slot ∧ socket.inlet = inlet := by
  rw [inlet?, (h.entry_of_mem ht).1, Option.bind_some] at hi
  have mem : (t.sockets trials)[slot]? = some ⟨s, inlet, slot, Entry.producer? trials inlet⟩ :=
    Trial.getElem?_sockets.2 ⟨hs, hi, rfl, rfl⟩
  exact ⟨_, List.mem_of_getElem? mem, rfl, rfl, rfl⟩

theorem Trials.exists_socket {output : NodeId} {externals : Legs} {trials : List Trial}
    (h : net.Trials output externals trials) {t : Trial} (ht : t ∈ trials) {slot : Nat} {s : Slot}
    (hs : t.node.operator.slots[slot]? = some s) :
    ∃ socket ∈ t.sockets trials, socket.slot = s ∧ socket.number = slot := by
  have arity := h.wellFormed.arity _ _ (h.entry_of_mem ht).1
  have bound := (List.getElem?_eq_some_iff.1 hs).choose
  rw [Operator.arity] at arity
  obtain ⟨inlet, hinlet⟩ : ∃ inlet, t.node.inlets[slot]? = some inlet :=
    ⟨_, List.getElem?_eq_getElem (arity ▸ bound)⟩
  have found : net.inlet? t.source slot = some inlet := by
    rw [inlet?, (h.entry_of_mem ht).1]
    exact hinlet
  obtain ⟨socket, mem, spec, number, -⟩ := h.exists_socket_of_inlet ht hs found
  exact ⟨socket, mem, spec, number⟩

end Net

namespace Graph
variable {placed : Operator → Prop} {g g' : Graph}

/-- In a graph with a history every producer of which an early value is demanded is known. In its
compiles the producers of early slots are folded wherever the consumer has no fault, and in every
block such a slot is read as it was when the length was found, also where it is open. -/
theorem early_known (h : g.Reachable placed)
    (hp : ∀ op, placed op → op.isInput = true → op.slots = [] ∧ op.live = false) :
    (∀ p c slot, g.net.source? c slot = some p →
      (g.net.slot? c slot).any (·.compileTime) = true ∨ g.net.Demanded c →
        g.net.isKnown p = true) ∧
    ∀ context output externals g' compiled,
      g.compile context output externals = .ok (g', compiled) →
        ∃ trials, Net.tryAll g.net.expand externals (g.net.entries output) [] = .ok trials ∧
          compiled.plan = .ofTrials output trials ∧
          ∀ before t after, trials = before ++ t :: after → t.fault = none →
            ∃ seen, t.toEntry.legs before.reverse = .ok seen ∧
              t.outcome = t.toEntry.yield g.net.expand externals seen
                (t.toEntry.attached before.reverse) ∧
              ∀ slot s, t.node.operator.slots[slot]? = some s → s.compileTime = true →
                (∀ p, g.net.source? t.source slot = some p → compiled.plan.isFolded p = true) ∧
                ∀ state, compiled.plan.Used state → ∀ host later,
                  (t.live = true → ∃ legs, compiled.plan.Reads state host later t.source legs) ∧
                  ∀ legs, compiled.plan.Reads state host later t.source legs →
                    legs[slot]? = seen[slot]? := by
  have punctual := h.punctual hp
  refine ⟨fun p c slot hs early => punctual.isKnown h.wellFormed hs early,
    fun context output externals g' compiled hc => ?_⟩
  obtain ⟨trials, ht, hplan⟩ := (Net.compile_eq_ok h.wellFormed).1 (plan_of_compile hc)
  refine ⟨trials, ht.tryAll, hplan, fun before t after hsplit hf => ?_⟩
  rw [hplan]
  have mem : t ∈ trials := hsplit ▸ List.mem_append_right _ List.mem_cons_self
  obtain ⟨legs, outcome⟩ := ht.seen hsplit hf
  refine ⟨_, legs, outcome, fun slot s hslot early => ?_⟩
  obtain ⟨socket, hs, rfl, rfl⟩ := ht.exists_socket mem hslot
  refine ⟨fun p hp => ?_, fun state used host later =>
    ⟨fun live => ?_, fun legs => ht.read_of_compileTime punctual mem hf hs early used⟩⟩
  · obtain ⟨source, producers⟩ := ht.producer_eq mem hs
    rw [hp] at source
    obtain ⟨q, hq, rfl⟩ := Option.map_eq_some_iff.1 source
    rw [Plan.isFolded, ht.node?_plan (producers q hq)]
    exact ht.folded_of_compileTime punctual mem hf hs early hq
  · have input : t.isInput = false := by
      rw [Bool.eq_false_iff]
      intro hi
      have operator : g.net.operator? t.source = some t.node.operator := by
        rw [Net.operator?, (ht.entry_of_mem mem).1]
        rfl
      rw [(h.rooted hp _ _ operator hi).1] at hslot
      cases hslot
    exact Net.Trials.exists_reads mem live input state host later

end Graph

end

namespace Graph

/-- The count of a repetition must be known early. It comes from an input, which is known for that
reason; the input that is repeated is not. -/
theorem early_known_counted : ∃ g : Graph, ofDocument 0 counted Builtin.catalog = .ok g ∧
    g.net.isKnown 1 = true ∧ g.net.isKnown 0 = false := by
  have computed : ((ofDocument 0 counted Builtin.catalog).toOption.any fun g =>
      g.net.source? 2 1 == some 1 && (g.net.slot? 2 1).any (·.compileTime) &&
        !g.net.isKnown 0) = true := by cbv
  obtain ⟨g, hg, hs⟩ := (Option.any_eq_true _ _).1 computed
  simp only [Bool.and_eq_true, beq_iff_eq, Bool.not_eq_true'] at hs
  rw [toOption_eq_some] at hg
  have reachable : g.Reachable (· ∈ Builtin.operators) :=
    .loaded (fun op hop => Builtin.mem_operators hop) hg
  have main := early_known reachable fun op hop => (Builtin.regular_of_mem hop).1.input
  exact ⟨g, hg, main.1 1 2 1 hs.1.1 (.inl hs.1.2), hs.2⟩

end Graph
end Patchbay
