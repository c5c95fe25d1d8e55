import Patchbay.Proofs.Graph.Intact
import Patchbay.Proofs.Net.GuardedOrder
import Patchbay.Proofs.Plan.Shared

/-! # Compiles that stay in range

The order of a compile lists every producer before its consumers. So when a node is tried, each of
its producers has a position, and at this position stands its trial. All indices are then in range,
and what is found by position is what is found by handle. In the net of a promoted node the same
holds again.
-/

namespace Patchbay
open Relation

variable [Platform]

namespace Guarded
variable {ε α β : Type}

omit [Platform] in
theorem mapM_of {l : List α} {f : α → Guarded ε β} {g : α → Except ε β}
    (h : ∀ a ∈ l, f a = of (g a)) : l.mapM f = of (l.mapM g) := by
  induction l with
  | nil => rfl
  | cons a l ih =>
    rw [List.forall_mem_cons] at h
    rw [List.mapM_cons, List.mapM_cons, h.1, ih h.2]
    cases g a with
    | error e => rfl
    | ok b => cases l.mapM g <;> rfl

end Guarded

/-! ### One trial -/

/-- The producers of a node are in the order, and at their positions stand the trials that were made
of them. -/
def Entry.Seated (order : List NodeId) (done : List Trial) (e : Entry) : Prop :=
  ∀ p ∈ e.node.sources, p ∈ order ∧ ∃ t, done[order.idxOf p]? = some t ∧
    trial? done.reverse p = some t

namespace Entry.Seated
variable {order : List NodeId} {done : List Trial} {e : Entry} (h : e.Seated order done)
include h

theorem map_position : e.node.inlets.filterMap (position? order) =
    e.node.sources.map order.idxOf := by
  have all : e.node.sources.filterMap order.idxOf? = e.node.sources.map order.idxOf := by
    rw [List.filterMap_congr fun p hp => idxOf?_of_mem (h p hp).1, List.filterMap_eq_map']
  rw [← all, Node.sources, List.filterMap_filterMap]
  rfl

theorem faultedGuarded_eq : e.faultedGuarded order done =
    some ((e.faultedSource? done.reverse).map order.idxOf) := by
  have bound : ∀ i ∈ e.node.sources.map order.idxOf, i < order.length := by
    intro i hi
    obtain ⟨p, hp, rfl⟩ := List.mem_map.1 hi
    exact List.idxOf_lt_length_of_mem (h p hp).1
  have same : ∀ p ∈ e.node.sources, (done[order.idxOf p]?).any (·.fault.isSome) =
      (trial? done.reverse p).any (·.fault.isSome) := by
    intro p hp
    obtain ⟨-, t, seat, found⟩ := h p hp
    rw [seat, found]
  rw [faultedGuarded, h.map_position, findM?_eq fun i hi => if_pos (bound i hi), List.find?_map,
    faultedSource?, ← List.find?_congr same]
  rfl

section Slots
variable {slot : Slot} {inlet : Inlet} (hs : (slot, inlet) ∈ e.node.sockets)
include hs

/-- A slot is open, or its producer has a position and a trial. -/
theorem slot_cases : position? order inlet = none ∧ producer? done.reverse inlet = none ∨
    ∃ i t, position? order inlet = some i ∧ done[i]? = some t ∧
      producer? done.reverse inlet = some t := by
  rw [position?, producer?]
  cases hp : inlet.source with
  | none => exact .inl ⟨rfl, rfl⟩
  | some p =>
    have mem : p ∈ e.node.sources := List.mem_filterMap.2 ⟨inlet, (List.of_mem_zip hs).2, hp⟩
    obtain ⟨ho, t, seat, found⟩ := h p mem
    exact .inr ⟨order.idxOf p, t, idxOf?_of_mem ho, seat, found⟩

theorem legGuarded_eq (number : Nat) : e.legGuarded order done ((slot, inlet), number) =
    .of (e.leg done.reverse ((slot, inlet), number)) := by
  rcases h.slot_cases hs with ⟨position, producer⟩ | ⟨i, t, position, seat, producer⟩
  · simp [legGuarded, leg, position, producer]
  · simp only [legGuarded, leg, position, producer, seat, Guarded.found_some, Guarded.of_ok_bind]
    split <;> rfl

end Slots

theorem attachedGuarded_eq : e.attachedGuarded order = e.attached done.reverse := by
  apply List.map_congr_left
  rintro ⟨slot, inlet⟩ hs
  rcases h.slot_cases hs with ⟨position, producer⟩ | ⟨i, t, position, -, producer⟩ <;>
    simp [position, producer]

theorem legsGuarded_eq : e.node.sockets.zipIdx.mapM (e.legGuarded order done) =
    .of (e.legs done.reverse) := by
  apply Guarded.mapM_of
  rintro ⟨⟨slot, inlet⟩, number⟩ hx
  exact h.legGuarded_eq (List.fst_mem_of_mem_zipIdx hx) number

end Entry.Seated

namespace Entry
variable {expand : NodeId → Legs → Except CompileError Plan}
  {expandGuarded : NodeId → Legs → Guarded CompileError Plan} {order : List NodeId}
  {done : List Trial} {e : Entry}
  (nested : ∀ n legs, expandGuarded n legs = .of (expand n legs))
  (safe : ∀ n legs plan, expand n legs = .ok plan → plan.runGuarded (.fresh plan) .detached legs =
    some (plan.run (.fresh plan) .detached legs))
include nested safe

theorem yieldGuarded_eq (externals legs : Legs) (attached : List Bool) :
    e.yieldGuarded expandGuarded externals legs attached =
      some (e.yield expand externals legs attached) := by
  unfold yieldGuarded yield
  split
  · rename_i u hu
    rw [hu, nested]
    cases hp : expand e.source legs with
    | error cause => rfl
    | ok plan =>
      simp [safe _ _ _ hp, Plan.firstOutput]
  · rename_i hb
    split
    · rfl
    · rfl
    · rename_i u hu
      exact absurd hu (hb u)

/-- When its producers have their seats, no guard of a trial fails. -/
theorem Seated.tryGuarded_eq (h : e.Seated order done) (externals : Legs) :
    e.tryGuarded expandGuarded externals order done =
      .of (e.tryAfter expand externals done.reverse) := by
  rw [tryGuarded, tryAfter, h.faultedGuarded_eq, h.legsGuarded_eq, h.attachedGuarded_eq]
  cases hf : e.faultedSource? done.reverse with
  | some p =>
    have mem := (h p (List.mem_of_find?_eq_some hf)).1
    simp [List.getElem?_idxOf mem]
  | none =>
    cases e.legs done.reverse with
    | error cause => rfl
    | ok legs => simp [yieldGuarded_eq nested safe, Except.map]

end Entry

namespace Net
variable {net : Net} {output n : NodeId}

theorem filter_contains_lineage (hw : net.WellFormed) (hc : net.contains output = true) :
    (net.lineage output).filter net.contains = net.lineage output := by
  rw [List.filter_eq_self]
  exact fun n hn => contains_of_mem_lineage hw.linked hw.acyclic hc hn

theorem isKnownGuarded_eq (hw : net.WellFormed) (n : NodeId) :
    net.isKnownGuarded n = some (net.isKnown n) := by
  rw [isKnownGuarded, isKnown]
  by_cases hc : net.contains n = true
  · have mem : n ∈ net.lineage n := (mem_lineage hw.linked hw.acyclic hc).2 .refl
    rw [if_pos hc, lineageGuarded_eq hw.linked, hc, Bool.true_and]
    simp [idxOf?_of_mem mem, flags, List.getElem?_idxOf mem]
  · rw [if_neg hc, Bool.eq_false_iff.2 hc, Bool.false_and]

theorem entriesGuarded_eq (hw : net.WellFormed) (hc : net.contains output = true) :
    net.entriesGuarded (net.lineage output) = some (net.entries output) := by
  let order := net.lineage output
  let entry (n : NodeId) : Option Entry := (net.node? n).map fun node =>
    { source := n, node, index := net.inputs.idxOf? n, known := (net.knownAmong order).contains n }
  have look : ∀ x ∈ order.zipIdx, (do
      let node ← net.node? x.1
      let known ← (net.flags order)[x.2]?
      some { source := x.1, node, index := net.inputs.idxOf? x.1, known }) = entry x.1 := by
    rintro ⟨n, i⟩ hx
    have hi : order[i]? = some n := List.mem_zipIdx_iff_getElem?.1 hx
    cases hn : net.node? n <;> simp [entry, flags, hi, hn]
  have there : ∀ x ∈ order.zipIdx, (entry x.1).isSome := by
    rintro ⟨n, i⟩ hx
    rw [Option.isSome_map]
    exact contains_of_mem_lineage hw.linked hw.acyclic hc (List.fst_mem_of_mem_zipIdx hx)
  have plain : order.zipIdx.filterMap (fun x => entry x.1) = net.entries output := by
    rw [← Function.comp_def entry, ← List.filterMap_map, List.zipIdx_map_fst]
    rfl
  have guarded := mapM_eq_filterMap fun x hx =>
    (congrArg Option.isSome (look x hx)).trans (there x hx)
  rw [List.filterMap_congr look, plain] at guarded
  exact guarded

section Compile
variable (hw : net.WellFormed) (hc : net.contains output = true)
include hw hc

/-- A compile gets to every node after it has seated the producers. -/
theorem seated_of_split {done : List Trial} {e : Entry} {after : List Entry}
    (hs : net.entries output = done.map (·.toEntry) ++ e :: after) :
    e.Seated (net.lineage output) done := by
  intro p hp
  obtain ⟨t, ht, found⟩ := exists_trial_of_prefix hw hc hs hp
  obtain ⟨_, rfl⟩ := mem_of_trial? found
  obtain ⟨i, hi⟩ := List.getElem?_of_mem ht
  have order := map_source_entries hw hc
  rw [hs, List.map_append, List.map_map] at order
  have seat : (net.lineage output)[i]? = some t.source := by
    rw [← order, List.getElem?_append_left]
    · simp [hi]
    · simpa using (List.getElem?_eq_some_iff.1 hi).1
  have index := idxOf?_of_getElem? (nodup_lineage hw.linked output) seat
  have mem := List.mem_of_getElem? seat
  rw [idxOf?_of_mem mem, Option.some.injEq] at index
  exact ⟨mem, t, by rw [index, hi], found⟩

variable {expandGuarded : NodeId → Legs → Guarded CompileError Plan} {externals : Legs}
  (nested : ∀ n legs, expandGuarded n legs = .of (net.expand n legs))
  (safe : ∀ n legs plan, net.expand n legs = .ok plan →
    plan.runGuarded (.fresh plan) .detached legs = some (plan.run (.fresh plan) .detached legs))
include nested safe

theorem tryAllGuarded_eq {done : List Trial} {rest : List Entry}
    (hs : net.entries output = done.map (·.toEntry) ++ rest) :
    tryAllGuarded expandGuarded externals (net.lineage output) rest done =
      .of (tryAll net.expand externals rest done.reverse) := by
  induction rest generalizing done with
  | nil => simp [tryAllGuarded, tryAll]
  | cons e rest ih =>
    rw [tryAllGuarded, tryAll, (seated_of_split hw hc hs).tryGuarded_eq nested safe]
    cases ht : e.tryAfter net.expand externals done.reverse with
    | error cause => rfl
    | ok t =>
      have entry := entry_of_tryAfter ht
      have next := @ih (done ++ [t]) (by simp [hs, entry])
      rw [List.reverse_append] at next
      exact next

theorem compileGuardedWith_eq :
    compileGuardedWith expandGuarded net output externals =
      .of (compileWith net.expand net output externals) := by
  rw [compileGuardedWith, compileWith, if_pos hc, if_pos hc, lineageGuarded_eq hw.linked]
  simp only [Guarded.found_some, Guarded.of_ok_bind, filter_contains_lineage hw hc,
    entriesGuarded_eq hw hc]
  have all : tryAllGuarded expandGuarded externals (net.lineage output) (net.entries output) [] =
      .of (tryAll net.expand externals (net.entries output) []) :=
    tryAllGuarded_eq hw hc nested safe rfl
  rw [all]
  cases tried : tryAll net.expand externals (net.entries output) [] with
  | error cause => rfl
  | ok trials =>
    obtain ⟨_, rfl, entries, -⟩ := (tryAll_eq_ok (by trivial)).1 tried
    have length : trials.length = (net.lineage output).length := by
      rw [← map_source_entries hw hc, ← entries]
      simp
    have there : ∀ i ∈ trials.flatMap fun t =>
        t.node.inlets.filterMap (Entry.position? (net.lineage output)), (trials[i]?).isSome := by
      intro i hi
      obtain ⟨t, -, hi⟩ := List.mem_flatMap.1 hi
      obtain ⟨inlet, -, hi⟩ := List.mem_filterMap.1 hi
      obtain ⟨p, -, hi⟩ := Option.bind_eq_some_iff.1 hi
      have bound := (List.getElem?_eq_some_iff.1 (getElem?_of_idxOf? hi)).1
      rw [isSome_getElem?]
      omega
    simp only [Guarded.of_ok_bind, mapM_eq_filterMap there, Guarded.found_some, Guarded.pure_eq,
      Except.map]

end Compile

def expandGuarded (net : Net) (n : NodeId) (legs : Legs) : Guarded CompileError Plan :=
  match net.template? n with
  | some t => t.net.compileGuarded t.output legs
  | none => throw (.outputNotFound n)

theorem compileGuarded_eq_with (net : Net) (output : NodeId) (externals : Legs) :
    net.compileGuarded output externals =
      compileGuardedWith net.expandGuarded net output externals := by
  rw [compileGuarded]
  congr 1
  funext n legs
  rw [expandGuarded]
  split <;> rename_i ht <;> rw [ht]

/-- In a net that is well formed at every depth, no guard of a compile fails. -/
theorem Deep.compileGuarded_eq (h : net.Deep WellFormed) (output : NodeId) (externals : Legs) :
    net.compileGuarded output externals = .of (net.compile output externals) := by
  induction h generalizing output externals with
  | @intro net here inside ih =>
    rw [compileGuarded_eq_with, compile_eq]
    by_cases hc : net.contains output = true
    · apply compileGuardedWith_eq here hc
      · intro n legs
        rw [expandGuarded, expand]
        cases ht : net.template? n with
        | none => rfl
        | some t => exact ih n t ht t.output legs
      · intro n legs plan hp
        cases ht : net.template? n with
        | none =>
          rw [expand, ht] at hp
          cases hp
        | some t =>
          rw [expand, ht] at hp
          have compiled := compile_safe (inside n t ht) hp
          exact (compiled.run _ compiled.fresh .detached legs).1
    · rw [compileGuardedWith, compileWith, if_neg hc, if_neg hc, Guarded.throw_eq]

end Net
end Patchbay
