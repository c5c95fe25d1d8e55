import Mathlib.Data.Fintype.Pigeonhole
import Mathlib.Data.List.Perm.Subperm
import Mathlib.Order.WellFounded
import Patchbay.Proofs.Net.Search

/-! # Producers before consumers

The sort counts for every member the attached slots whose producer was not taken yet. The invariant
names the ports that were served: a count is the number of attached slots that were not, so it is
never negative, and a member is ready or taken exactly when its count is zero. At the end nothing is
ready, and on a net without cycles every member has been taken.
-/

namespace Patchbay
open Relation

variable [Platform]

namespace Net
variable {net : Net} {n p c : NodeId} {slot : Nat}

/-- A list of nodes, the latest first, in which every node comes after all its producers. -/
def Grounded (net : Net) : List NodeId → Prop
  | [] => True
  | n :: rest => (∀ p, net.Feeds p n → p ∈ rest) ∧ net.Grounded rest

theorem Grounded.of_append {l₁ l₂ : List NodeId} (h : net.Grounded (l₁ ++ l₂)) :
    net.Grounded l₂ := by
  induction l₁ with
  | nil => exact h
  | cons n l₁ ih => exact ih h.2

/-- In a grounded list every node can be reached only from within the list. -/
theorem Grounded.acc {l : List NodeId} (h : net.Grounded l) (hn : n ∈ l) :
    Acc net.Feeds n := by
  induction l generalizing n with
  | nil => cases hn
  | cons m rest ih =>
    rcases List.mem_cons.1 hn with rfl | hn
    · exact .intro n fun p hp => ih h.2 (h.1 p hp)
    · exact ih h.2 hn

theorem acyclic_of_wellFounded (h : WellFounded net.Feeds) : net.Acyclic :=
  fun n hn => h.transGen.irrefl.irrefl n hn

/-- There are finitely many nodes, so a walk to producers that does not end comes round. -/
theorem exists_cycle_of_chain (hs : net.NoDangling) {chain : Nat → NodeId}
    (hc : ∀ i, net.Feeds (chain (i + 1)) (chain i)) :
    ∃ i, TransGen net.Feeds (chain i) (chain i) := by
  have later (i k : Nat) : TransGen net.Feeds (chain (i + (k + 1))) (chain i) := by
    induction k with
    | zero => exact .single (hc i)
    | succ k ih => exact .head (hc (i + (k + 1))) ih
  have bound (i : Nat) : chain (i + 1) < net.nodes.size :=
    lt_size_of_contains (hs _ _ (hc i))
  obtain ⟨i, j, hij, he⟩ :=
    Finite.exists_ne_map_eq_of_infinite fun i => (⟨chain (i + 1), bound i⟩ : Fin net.nodes.size)
  have he : chain (i + 1) = chain (j + 1) := congrArg Fin.val he
  rcases Nat.lt_or_gt_of_ne hij with hlt | hlt
  · obtain ⟨k, rfl⟩ : ∃ k, j = i + (k + 1) := ⟨j - i - 1, by omega⟩
    have cycle := later (i + 1) k
    rw [show i + 1 + (k + 1) = i + (k + 1) + 1 by omega, ← he] at cycle
    exact ⟨_, cycle⟩
  · obtain ⟨k, rfl⟩ : ∃ k, i = j + (k + 1) := ⟨i - j - 1, by omega⟩
    have cycle := later (j + 1) k
    rw [show j + 1 + (k + 1) = j + (k + 1) + 1 by omega, he] at cycle
    exact ⟨_, cycle⟩

/-- A walk from a node to producers may go on for ever exactly when a cycle lies behind the node. -/
theorem not_acc_iff (hs : net.NoDangling) :
    ¬Acc net.Feeds n ↔ ∃ m, TransGen net.Feeds m m ∧ ReflTransGen net.Feeds m n := by
  constructor
  · intro endless
    obtain ⟨chain, rfl, hc⟩ := not_acc_iff_exists_descending_chain.1 endless
    obtain ⟨i, cycle⟩ := exists_cycle_of_chain hs hc
    have behind (i : Nat) : ReflTransGen net.Feeds (chain i) (chain 0) := by
      induction i with
      | zero => exact .refl
      | succ i ih => exact .head (hc i) ih
    exact ⟨chain i, cycle, behind i⟩
  · rintro ⟨m, cycle, behind⟩ acc
    induction acc with
    | intro n _ ih =>
      obtain ⟨p, behind, hp⟩ := TransGen.tail'_iff.1 (cycle.trans_left behind)
      exact ih p hp behind

theorem Acyclic.wellFounded (h : net.Acyclic) (hs : net.NoDangling) : WellFounded net.Feeds := by
  refine ⟨fun n => Classical.not_not.1 fun endless => ?_⟩
  obtain ⟨m, cycle, -⟩ := (not_acc_iff hs).1 endless
  exact h m cycle

def attached (net : Net) (n : NodeId) : List Port :=
  ((List.range ((net.node? n).elim 0 (·.inlets.length))).filter fun slot =>
    (net.source? n slot).isSome).map (⟨n, ·⟩)

omit [Platform] in
theorem countP_range_getElem? {α : Type*} (f : Option α → Bool) (l : List α) :
    (List.range l.length).countP (fun i => f l[i]?) = l.countP fun a => f (some a) := by
  induction l with
  | nil => rfl
  | cons a l ih =>
    rw [List.length_cons, List.range_succ_eq_map, List.countP_cons, List.countP_map,
      List.countP_cons, ← ih]
    rfl

theorem length_attached (net : Net) (n : NodeId) : (net.attached n).length = net.degree n := by
  rw [attached, degree, sources, List.length_map, ← List.countP_eq_length_filter]
  cases h : net.node? n with
  | none => rfl
  | some node =>
    simp only [Option.elim_some, source?, inlet?, h, Option.bind_some]
    rw [countP_range_getElem? (fun inlet : Option Inlet => (inlet.bind (·.source)).isSome),
      Node.sources, List.length_filterMap_eq_countP]
    rfl

theorem mem_attached {q : Port} :
    q ∈ net.attached n ↔ q.node = n ∧ ∃ p, net.source? n q.slot = some p := by
  obtain ⟨m, slot⟩ := q
  simp only [attached, List.mem_map, List.mem_filter, List.mem_range, Port.mk.injEq,
    Option.isSome_iff_exists]
  constructor
  · rintro ⟨s, ⟨_, hp⟩, rfl, rfl⟩
    exact ⟨rfl, hp⟩
  · rintro ⟨rfl, p, hp⟩
    obtain ⟨node, inlet, hnode, hinlet, _⟩ := exists_inlet_of_source? hp
    refine ⟨slot, ⟨?_, p, hp⟩, rfl, rfl⟩
    rw [hnode]
    exact (List.getElem?_eq_some_iff.1 hinlet).choose

theorem nodup_attached (net : Net) (n : NodeId) : (net.attached n).Nodup :=
  ((List.nodup_range).filter _).map fun _ _ h => congrArg Port.slot h

def unserved (net : Net) (served : List Port) (n : NodeId) : List Port :=
  (net.attached n).filter (· ∉ served)

theorem unserved_nil (net : Net) (n : NodeId) : net.unserved [] n = net.attached n := by
  simp [unserved]

theorem unserved_cons_of_ne {served : List Port} {q : Port} (h : q.node ≠ n) :
    net.unserved (q :: served) n = net.unserved served n := by
  apply List.filter_congr
  intro r hr
  have hne : r ≠ q := by
    rintro rfl
    exact h (mem_attached.1 hr).1
  simp [hne]

theorem length_unserved_cons {served : List Port} {q : Port} (hq : q ∈ net.attached q.node)
    (hs : q ∉ served) :
    (net.unserved (q :: served) q.node).length + 1 = (net.unserved served q.node).length := by
  have mem : q ∈ net.unserved served q.node := by simpa [unserved] using ⟨hq, hs⟩
  have erase : net.unserved (q :: served) q.node = (net.unserved served q.node).erase q := by
    rw [unserved, unserved, List.Nodup.erase_eq_filter ((net.nodup_attached q.node).filter _),
      List.filter_filter]
    exact List.filter_congr fun r _ => by by_cases hr : r = q <;> simp [hr]
  rw [erase, List.length_erase_of_mem mem]
  have := List.length_pos_of_mem mem
  omega

end Net

namespace Sorting
variable {net : Net} {members : List NodeId} {served : List Port} {s : Sorting} {n : NodeId}

/-- Where a sort stands when some ports are served. -/
structure Invariant (net : Net) (members : List NodeId) (served : List Port) (s : Sorting) :
    Prop where
  missing : ∀ n, s.missing? n =
    if n ∈ members then some ((net.unserved served n).length : Int) else none
  nodup : (s.ready ++ s.sorted).Nodup
  mem : ∀ n, n ∈ s.ready ++ s.sorted ↔ n ∈ members ∧ (net.unserved served n).length = 0

omit [Platform] in
theorem missing?_set {d : Int} {n m : NodeId} (h : s.missing? n = some d) (e : Int)
    (ready : List NodeId) :
    Sorting.missing? { s with missing := s.missing.setIfInBounds n (some e), ready } m =
      if n = m then some e else s.missing? m := by
  have bound : n < s.missing.size := by
    by_contra hn
    simp [missing?, Array.getElem?_eq_none (Nat.le_of_not_lt hn)] at h
  simp only [missing?, Array.getElem?_setIfInBounds, bound, if_true]
  split <;> rfl

/-- Serving one port of a member that was not served keeps the invariant. -/
theorem Invariant.serve (h : Invariant net members served s) {q : Port}
    (hq : q ∈ net.attached q.node) (hs : q ∉ served) :
    Invariant net members (q :: served) (s.serve q) := by
  have count := Net.length_unserved_cons hq hs
  have other {n : NodeId} (hn : q.node ≠ n) :
      net.unserved (q :: served) n = net.unserved served n := Net.unserved_cons_of_ne hn
  by_cases hm : q.node ∈ members
  · have hd : s.missing? q.node = some ((net.unserved served q.node).length : Int) := by
      rw [h.missing, if_pos hm]
    have fewer : ((net.unserved served q.node).length : Int) - 1 =
        ((net.unserved (q :: served) q.node).length : Int) := by omega
    have fresh : q.node ∉ s.ready ++ s.sorted := by
      rw [h.mem]
      omega
    simp only [Sorting.serve, hd, fewer]
    refine ⟨fun n => ?_, ?_, fun n => ?_⟩
    · rw [missing?_set hd, h.missing]
      by_cases hn : q.node = n
      · rw [if_pos hn, ← hn, if_pos hm]
      · rw [if_neg hn, other hn]
    · split
      · exact List.nodup_cons.2 ⟨fresh, h.nodup⟩
      · exact h.nodup
    · by_cases hn : q.node = n
      · subst hn
        by_cases hz : (net.unserved (q :: served) q.node).length = 0
        · simp [hz, hm]
        · have : ¬((net.unserved (q :: served) q.node).length : Int) = 0 := by omega
          rw [if_neg this]
          exact iff_of_false fresh fun hc => hz hc.2
      · rw [other hn, ← h.mem]
        split
        · simp [Ne.symm hn]
        · rfl
  · have hd : s.missing? q.node = none := by rw [h.missing, if_neg hm]
    simp only [Sorting.serve, hd]
    have same {n : NodeId} (hn : n ∈ members) :
        net.unserved (q :: served) n = net.unserved served n :=
      other fun he => hm (he ▸ hn)
    refine ⟨fun n => ?_, h.nodup, fun n => ?_⟩
    · rw [h.missing]
      split
      · rw [same ‹_›]
      · rfl
    · rw [h.mem]
      exact and_congr_right fun hn => by rw [same hn]

omit [Platform] in
theorem sorted_serve (s : Sorting) (q : Port) : (s.serve q).sorted = s.sorted := by
  unfold serve
  split <;> rfl

omit [Platform] in
theorem sorted_foldl_serve (ports : List Port) (s : Sorting) :
    (ports.foldl Sorting.serve s).sorted = s.sorted := by
  induction ports generalizing s with
  | nil => rfl
  | cons q ports ih => rw [List.foldl_cons, ih, sorted_serve]

theorem Invariant.foldl_serve {ports : List Port} (h : Invariant net members served s)
    (hq : ∀ q ∈ ports, q ∈ net.attached q.node) (hs : ∀ q ∈ ports, q ∉ served)
    (hn : ports.Nodup) :
    Invariant net members (ports.reverse ++ served) (ports.foldl Sorting.serve s) := by
  induction ports generalizing served s with
  | nil => exact h
  | cons q ports ih =>
    rw [List.nodup_cons] at hn
    rw [List.foldl_cons, List.reverse_cons, List.append_assoc]
    refine ih (h.serve (hq q List.mem_cons_self) (hs q List.mem_cons_self))
      (fun r hr => hq r (List.mem_cons_of_mem q hr)) (fun r hr => ?_) hn.2
    rw [List.singleton_append, List.mem_cons, not_or]
    exact ⟨fun he => hn.1 (he ▸ hr), hs r (List.mem_cons_of_mem q hr)⟩

/-- The loop invariant of a sort: the ports that nodes taken so far feed are served, and those nodes
come after their producers. -/
structure Sound (net : Net) (members : List NodeId) (s : Sorting) : Prop where
  invariant : ∃ served, Invariant net members served s ∧
    ∀ q : Port, q ∈ served ↔ ∃ p ∈ s.sorted, net.source? q.node q.slot = some p
  grounded : net.Grounded s.sorted

omit [Platform] in
theorem missing?_foldl (members : List NodeId) (f : NodeId → Int)
    (missing : Array (Option Int)) (n : NodeId) :
    ((members.foldl (fun missing m => missing.setIfInBounds m (some (f m))) missing)[n]?).join =
      if n ∈ members ∧ n < missing.size then some (f n) else (missing[n]?).join := by
  induction members generalizing missing with
  | nil => simp
  | cons m members ih =>
    rw [List.foldl_cons, ih, Array.size_setIfInBounds, Array.getElem?_setIfInBounds]
    by_cases hm : m = n
    · subst hm
      by_cases hs : m < missing.size <;> simp [hs]
    · simp [hm, Ne.symm hm]

theorem sound_start (hm : members.Nodup) (hb : ∀ n ∈ members, n < net.nodes.size) :
    Sound net members (start net members) := by
  have ready := (members.filter fun n => net.degree n = 0).mergeSort_perm (· ≤ ·)
  refine ⟨⟨[], ⟨fun n => ?_, ?_, fun n => ?_⟩, fun q => ?_⟩, trivial⟩
  · rw [missing?, start, missing?_foldl, Net.unserved_nil, Net.length_attached]
    by_cases hn : n ∈ members
    · rw [if_pos ⟨hn, by simpa using hb n hn⟩, if_pos hn]
    · rw [if_neg fun h => hn h.1, if_neg hn, Array.getElem?_replicate]
      split <;> rfl
  · rw [start, List.append_nil, ready.nodup_iff]
    exact hm.filter _
  · rw [start, List.append_nil, ready.mem_iff, List.mem_filter, Net.unserved_nil,
      Net.length_attached]
    simp
  · simp [start]

/-- When a ready member is taken, the ports that read it are attached and were not served. -/
theorem Sound.take (h : Sound net members s) (hl : net.Linked) {ready : List NodeId}
    (hr : s.ready = n :: ready) :
    ∃ served, Invariant net members served { s with ready, sorted := n :: s.sorted } ∧
      (∀ q : Port, q ∈ served ↔ ∃ p ∈ s.sorted, net.source? q.node q.slot = some p) ∧
      ∀ q ∈ net.outlets n, q ∈ net.attached q.node ∧ q ∉ served := by
  obtain ⟨⟨served, inv, hserved⟩, grounded⟩ := h
  have perm : (ready ++ n :: s.sorted).Perm (s.ready ++ s.sorted) := by
    rw [hr]
    exact List.perm_middle
  have late : n ∉ s.sorted := by
    have := inv.nodup
    rw [hr] at this
    exact fun hm => (List.nodup_cons.1 this).1 (List.mem_append_right _ hm)
  refine ⟨served,
    ⟨inv.missing, perm.nodup_iff.2 inv.nodup, fun m => perm.mem_iff.trans (inv.mem m)⟩,
    hserved, fun q hq => ⟨?_, fun hs => ?_⟩⟩
  · exact Net.mem_attached.2 ⟨rfl, n, (hl.outlets n q).1 hq⟩
  · obtain ⟨p, hp, hs⟩ := (hserved q).1 hs
    rw [(hl.outlets n q).1 hq, Option.some.injEq] at hs
    exact late (hs ▸ hp)

/-- Taking a ready member and serving the ports that read it keeps the loop invariant. -/
theorem Sound.step (h : Sound net members s) (hl : net.Linked) :
    Sound net members (s.step net) := by
  cases hr : s.ready with
  | nil =>
    have same : s.step net = s := by rw [Sorting.step, hr]
    rw [same]
    exact h
  | cons n ready =>
    let taken : Sorting := { s with ready, sorted := n :: s.sorted }
    obtain ⟨served, before, hserved, fresh⟩ := h.take hl hr
    have step : s.step net = (net.outlets n).foldl Sorting.serve taken := by
      rw [Sorting.step, hr]
    rw [step]
    refine ⟨⟨(net.outlets n).reverse ++ served, ?_, fun q => ?_⟩, ?_⟩
    · exact before.foldl_serve (fun q hq => (fresh q hq).1) (fun q hq => (fresh q hq).2)
        (hl.nodup n)
    · rw [sorted_foldl_serve, List.mem_append, List.mem_reverse, hl.outlets, hserved]
      simp only [taken, List.mem_cons, exists_eq_or_imp]
    · rw [sorted_foldl_serve]
      refine ⟨fun p ⟨slot, hp⟩ => ?_, h.grounded⟩
      have hn : n ∈ ready ++ n :: s.sorted := by simp
      have open_nil := List.length_eq_zero_iff.1 ((before.mem n).1 hn).2
      have hq : (⟨n, slot⟩ : Port) ∈ net.attached n := Net.mem_attached.2 ⟨rfl, p, hp⟩
      have hs : (⟨n, slot⟩ : Port) ∈ served := by
        by_contra hs
        have : (⟨n, slot⟩ : Port) ∈ net.unserved served n := by simpa [Net.unserved] using ⟨hq, hs⟩
        rw [open_nil] at this
        cases this
      obtain ⟨p', hp', hs⟩ := (hserved _).1 hs
      rw [hp, Option.some.injEq] at hs
      exact hs ▸ hp'

theorem Sound.run (h : Sound net members s) (hl : net.Linked) (steps : Nat) :
    Sound net members (s.run net steps) := by
  induction steps generalizing s with
  | zero => exact h
  | succ steps ih => exact ih (h.step hl)

theorem Sound.length_le (h : Sound net members s) :
    (s.ready ++ s.sorted).length ≤ members.length := by
  obtain ⟨⟨served, inv, _⟩, _⟩ := h
  exact (inv.nodup.subperm fun n hn => ((inv.mem n).1 hn).1).length_le

theorem run_of_ready_nil (h : s.ready = []) (steps : Nat) : s.run net steps = s := by
  induction steps with
  | zero => rfl
  | succ steps ih =>
    have same : s.step net = s := by rw [step, h]
    rw [run, same, ih]

/-- As many steps as there are members take everything that can be taken. -/
theorem Sound.ready_run (h : Sound net members s) (hl : net.Linked) {steps : Nat}
    (hs : members.length ≤ steps + s.sorted.length) : (s.run net steps).ready = [] := by
  induction steps generalizing s with
  | zero =>
    have := h.length_le
    rw [List.length_append] at this
    exact List.length_eq_zero_iff.1 (by rw [Sorting.run]; omega)
  | succ steps ih =>
    cases hr : s.ready with
    | nil => rw [run_of_ready_nil hr, hr]
    | cons n ready =>
      apply ih (h.step hl)
      have more : (s.step net).sorted.length = s.sorted.length + 1 := by
        rw [Sorting.step, hr, sorted_foldl_serve, List.length_cons]
      omega

/-- When nothing is ready any more, the members taken are those behind which lies no cycle. -/
theorem Sound.mem_sorted (h : Sound net members s) (last : s.ready = [])
    (closed : ∀ n ∈ members, ∀ p, net.Feeds p n → p ∈ members) :
    n ∈ s.sorted ↔ n ∈ members ∧ Acc net.Feeds n := by
  obtain ⟨⟨served, inv, hserved⟩, grounded⟩ := h
  have mem (n : NodeId) : n ∈ s.sorted ↔ n ∈ members ∧ (net.unserved served n).length = 0 := by
    rw [← inv.mem, last, List.nil_append]
  constructor
  · intro hn
    exact ⟨((mem n).1 hn).1, grounded.acc hn⟩
  · rintro ⟨hn, acc⟩
    induction acc with
    | intro n _ ih =>
      have all : net.unserved served n = [] := by
        apply List.filter_eq_nil_iff.2
        intro q hq
        obtain ⟨rfl, p, hp⟩ := Net.mem_attached.1 hq
        have feeds : net.Feeds p q.node := ⟨q.slot, hp⟩
        have hq : q ∈ served := (hserved q).2 ⟨p, ih p feeds (closed _ hn p feeds), hp⟩
        simp [hq]
      exact (mem n).2 ⟨hn, by rw [all]; rfl⟩

end Sorting

namespace Net
variable {net : Net} {members : List NodeId} {n p : NodeId}

theorem sound_inOrder (hl : net.Linked) (hm : members.Nodup)
    (hb : ∀ n ∈ members, n < net.nodes.size) :
    Sorting.Sound net members ((Sorting.start net members).run net members.length) :=
  (Sorting.sound_start hm hb).run hl members.length

theorem grounded_inOrder (hl : net.Linked) (hm : members.Nodup)
    (hb : ∀ n ∈ members, n < net.nodes.size) : net.Grounded (net.inOrder members).reverse := by
  rw [inOrder, List.reverse_reverse]
  exact (sound_inOrder hl hm hb).grounded

theorem nodup_inOrder (hl : net.Linked) (hm : members.Nodup)
    (hb : ∀ n ∈ members, n < net.nodes.size) : (net.inOrder members).Nodup := by
  obtain ⟨⟨served, inv, _⟩, _⟩ := sound_inOrder hl hm hb
  rw [inOrder, List.nodup_reverse]
  exact (List.nodup_append.1 inv.nodup).2.1

/-- Of members that have all their producers among them, those are taken behind which lies no cycle.
-/
theorem mem_inOrder_iff (hl : net.Linked) (hm : members.Nodup)
    (hb : ∀ n ∈ members, n < net.nodes.size)
    (hc : ∀ n ∈ members, ∀ p, net.Feeds p n → p ∈ members) :
    n ∈ net.inOrder members ↔ n ∈ members ∧ Acc net.Feeds n := by
  have last := (Sorting.sound_start hm hb).ready_run hl (Nat.le_add_right _ _)
  rw [inOrder, List.mem_reverse, (sound_inOrder hl hm hb).mem_sorted last hc]

theorem mem_inOrder (hl : net.Linked) (ha : net.Acyclic) (hm : members.Nodup)
    (hb : ∀ n ∈ members, n < net.nodes.size)
    (hc : ∀ n ∈ members, ∀ p, net.Feeds p n → p ∈ members) :
    n ∈ net.inOrder members ↔ n ∈ members := by
  rw [mem_inOrder_iff hl hm hb hc]
  exact and_iff_left ((ha.wellFounded hl.noDangling).apply n)

theorem acyclic_of_inOrder (hl : net.Linked) (hm : members.Nodup)
    (hb : ∀ n ∈ members, n < net.nodes.size)
    (hall : ∀ n, net.contains n = true → n ∈ net.inOrder members) : net.Acyclic := by
  refine acyclic_of_wellFounded ⟨fun n => ?_⟩
  refine .intro n fun p hp => ?_
  have hmem := List.mem_reverse.2 (hall p (hl.noDangling p n hp))
  exact (grounded_inOrder hl hm hb).acc hmem

theorem lt_size_of_mem_ancestors (h : p ∈ net.ancestors n) : p < net.nodes.size := by
  have := marked_of_mem_visit h
  rw [Array.getElem?_replicate] at this
  by_contra hp
  rw [if_neg hp] at this
  cases this

/-- The lineage of a node holds the node and its ancestors, each once and after its producers. -/
theorem mem_lineage (hl : net.Linked) (ha : net.Acyclic) (hn : net.contains n = true) :
    p ∈ net.lineage n ↔ ReflTransGen net.Feeds p n := by
  have closed : ∀ m ∈ net.ancestors n, ∀ p, net.Feeds p m → p ∈ net.ancestors n := by
    intro m hm p hp
    rw [mem_ancestors hl.noDangling hn] at hm ⊢
    exact .head hp hm
  rw [lineage, mem_inOrder hl ha (net.nodup_ancestors n)
    (fun _ => lt_size_of_mem_ancestors) closed, mem_ancestors hl.noDangling hn]

theorem contains_of_mem_lineage (hl : net.Linked) (ha : net.Acyclic) (hn : net.contains n = true)
    (hp : p ∈ net.lineage n) : net.contains p = true :=
  contains_of_upstream hl.noDangling hn ((mem_lineage hl ha hn).1 hp)

theorem nodup_lineage (hl : net.Linked) (n : NodeId) : (net.lineage n).Nodup :=
  nodup_inOrder hl (net.nodup_ancestors n) fun _ => lt_size_of_mem_ancestors

theorem grounded_lineage (hl : net.Linked) (n : NodeId) : net.Grounded (net.lineage n).reverse :=
  grounded_inOrder hl (net.nodup_ancestors n) fun _ => lt_size_of_mem_ancestors

end Net
end Patchbay
