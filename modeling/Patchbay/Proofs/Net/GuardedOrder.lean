import Patchbay.Graph.Guarded
import Patchbay.Proofs.ListSteps
import Patchbay.Proofs.Net.WellFormed

/-! # Sorts that stay in range

The count of a member is the number of its attached slots that were not served. A port that is about
to be served is one of them, so no count falls below zero, on a net with cycles either. Every member
is taken at most once, so nothing is ready after as many steps as there are members.
-/

namespace Patchbay
open Relation

variable [Platform]

namespace Sorting
variable {net : Net} {members : List NodeId} {served : List Port} {s : Sorting} {n : NodeId}
  {strict : Bool}

theorem Invariant.serveGuarded (h : Invariant net members served s) {q : Port}
    (hq : q ∈ net.attached q.node) (hs : q ∉ served) (all : strict = true → q.node ∈ members) :
    s.serveGuarded strict q = some (s.serve q) := by
  have count := Net.length_unserved_cons hq hs
  by_cases hm : q.node ∈ members
  · have hd : s.missing? q.node = some ((net.unserved served q.node).length : Int) := by
      rw [h.missing, if_pos hm]
    have positive : 0 < ((net.unserved served q.node).length : Int) := by omega
    simp only [Sorting.serveGuarded, hd, if_pos positive]
  · have hd : s.missing? q.node = none := by rw [h.missing, if_neg hm]
    have loose : strict = false := by
      cases strict with
      | false => rfl
      | true => exact absurd (all rfl) hm
    simp [Sorting.serveGuarded, Sorting.serve, hd, loose]

theorem Invariant.foldlM_serveGuarded {ports : List Port} (h : Invariant net members served s)
    (hq : ∀ q ∈ ports, q ∈ net.attached q.node) (hs : ∀ q ∈ ports, q ∉ served)
    (hn : ports.Nodup) (all : strict = true → ∀ q ∈ ports, q.node ∈ members) :
    ports.foldlM (Sorting.serveGuarded strict) s = some (ports.foldl Sorting.serve s) := by
  induction ports generalizing served s with
  | nil => rfl
  | cons q ports ih =>
    rw [List.nodup_cons] at hn
    rw [List.forall_mem_cons] at hq hs
    have first := h.serveGuarded hq.1 hs.1 fun ht => all ht q List.mem_cons_self
    rw [List.foldlM_cons, first, List.foldl_cons]
    apply ih (h.serve hq.1 hs.1) hq.2 _ hn.2 fun ht r hr => all ht r (List.mem_cons_of_mem q hr)
    intro r hr
    rw [List.mem_cons, not_or]
    exact ⟨fun he => hn.1 (he ▸ hr), hs.2 r hr⟩

/-- In a sound sort no guard of a step fails. A strict one must have all live nodes as members. -/
theorem Sound.stepGuarded (h : Sound net members s) (hl : net.Linked)
    (hb : ∀ n ∈ members, n < net.nodes.size)
    (all : strict = true → ∀ n, net.contains n = true → n ∈ members) :
    s.stepGuarded strict net = some (s.step net) := by
  cases hr : s.ready with
  | nil => simp [Sorting.stepGuarded, Sorting.step, hr]
  | cons n ready =>
    obtain ⟨served, inv, _, fresh⟩ := h.take hl hr
    have bound : n < net.nodes.size := by
      apply hb n
      exact ((inv.mem n).1 (by simp)).1
    have ports : strict = true → ∀ q ∈ net.outlets n, q.node ∈ members := by
      intro ht q hq
      exact all ht q.node (Net.contains_of_source? ((hl.outlets n q).1 hq))
    have served := inv.foldlM_serveGuarded (fun q hq => (fresh q hq).1)
      (fun q hq => (fresh q hq).2) (hl.nodup n) ports
    simp only [Sorting.stepGuarded, Sorting.step, hr, Nat.not_le.2 bound, and_false, if_false]
    exact served

/-- When nothing is ready any more, the members with a count above zero are those not taken. -/
theorem Sound.waiting (h : Sound net members s) (last : s.ready = []) (hn : n ∈ members) :
    (s.missing? n).map (fun d => decide (0 < d)) = some (decide (n ∉ s.sorted)) := by
  obtain ⟨⟨served, inv, _⟩, _⟩ := h
  have taken : n ∈ s.sorted ↔ (net.unserved served n).length = 0 := by
    have mem := inv.mem n
    rwa [last, List.nil_append, and_iff_right hn] at mem
  rw [inv.missing, if_pos hn, Option.map_some, Option.some.injEq, decide_eq_decide, taken]
  omega

theorem Sound.length_sorted_eq_iff (h : Sound net members s) (hm : members.Nodup) :
    s.sorted.length = members.length ↔ ∀ n ∈ members, n ∈ s.sorted := by
  obtain ⟨⟨served, inv, _⟩, _⟩ := h
  have nodup : s.sorted.Nodup := (List.nodup_append.1 inv.nodup).2.1
  have sub : ∀ n ∈ s.sorted, n ∈ members :=
    fun n hn => ((inv.mem n).1 (List.mem_append_right _ hn)).1
  constructor
  · intro he n hn
    exact ((nodup.subperm sub).perm_of_length_le he.ge).mem_iff.2 hn
  · intro all
    exact ((List.perm_ext_iff_of_nodup nodup hm).2 fun n => ⟨sub n, all n⟩).length_eq

/-- A guarded run ends after as many steps as there are members, with what the plain run takes. -/
theorem Sound.runGuarded (strict : Bool) (h : Sound net members s) (hl : net.Linked)
    (hb : ∀ n ∈ members, n < net.nodes.size)
    (all : strict = true → ∀ n, net.contains n = true → n ∈ members) {steps : Nat}
    (hs : members.length ≤ steps + s.sorted.length) :
    s.runGuarded strict net steps = some (s.run net steps) := by
  have last := h.ready_run hl hs
  clear hs
  induction steps generalizing s with
  | zero => exact if_pos last
  | succ steps ih =>
    rw [Sorting.runGuarded, h.stepGuarded hl hb all, Option.bind_some]
    exact ih (h.step hl) last

end Sorting

namespace Net
variable {net : Net} {n : NodeId}

theorem lineageGuarded_eq (hl : net.Linked) (n : NodeId) :
    net.lineageGuarded n = some (net.lineage n) := by
  have bound : ∀ m ∈ net.ancestors n, m < net.nodes.size := fun _ => lt_size_of_mem_ancestors
  have start := Sorting.sound_start (net.nodup_ancestors n) bound
  have run := start.runGuarded false hl bound (fun ht => by cases ht) (Nat.le_add_right _ _)
  rw [lineageGuarded, run]
  rfl

/-! ### All nodes at once -/

/-- Every handle that was given out has a node. -/
def Dense (net : Net) : Prop := ∀ n < net.nodes.size, net.contains n = true

theorem Dense.mem_range (h : net.Dense) :
    n ∈ List.range net.nodes.size ↔ net.contains n = true := by
  rw [List.mem_range]
  exact ⟨h n, lt_size_of_contains⟩

theorem Dense.ids (h : net.Dense) : net.ids = List.range net.nodes.size :=
  ids_eq_of_mem List.pairwise_lt_range fun _ => h.mem_range.symm

theorem Dense.count (h : net.Dense) (hw : net.Wired) : net.count = net.nodes.size := by
  have length := congrArg List.length h.ids
  rw [Net.ids, List.length_map, List.length_range] at length
  rw [hw.count, length]

end Net

namespace Sorting
variable {net : Net}

omit [Platform] in
/-- What has no attached slot is ready, the highest handle first. -/
theorem foldlM_ready {ns ready : List NodeId} {missing : Array (Option Int)} {degree : NodeId → Nat}
    (h : ∀ n ∈ ns, missing[n]?.join = some (degree n : Int)) :
    (ns.foldlM (fun ready n => do
      let d ← missing[n]?.join
      some (if d = 0 then n :: ready else ready)) ready) =
      some ((ns.filter fun n => degree n = 0).reverse ++ ready) := by
  induction ns generalizing ready with
  | nil => rfl
  | cons n ns ih =>
    rw [List.forall_mem_cons] at h
    rw [List.foldlM_cons, h.1]
    have rest := @ih (if degree n = 0 then n :: ready else ready) h.2
    by_cases hd : degree n = 0 <;> simpa [hd] using rest

theorem sound_startAll (hw : net.Wired) (hd : net.Dense) :
    ∃ s, startAll net = some s ∧ s.sorted = [] ∧ Sound net net.ids s := by
  let missing := net.nodes.map fun node => some (node.elim 0 fun n => (n.sources.length : Int))
  have counts : ∀ n ∈ net.ids, missing[n]?.join = some (net.degree n : Int) := by
    intro n hn
    have bound := Net.lt_size_of_mem_ids hn
    rw [Array.getElem?_map, Net.degree, Net.sources, Net.node?, Array.getElem?_eq_getElem bound]
    cases net.nodes[n] <;> rfl
  have ready := @foldlM_ready net.ids [] missing net.degree counts
  have start : startAll net = some
      ⟨(net.ids.filter fun n => net.degree n = 0).reverse ++ [], missing, []⟩ := by
    rw [hd.ids, ← hd.count hw] at ready ⊢
    rw [startAll]
    simp only [missing, ready, Option.bind_eq_bind, Option.bind_some] at ready ⊢
  refine ⟨_, start, rfl, ⟨[], ⟨fun n => ?_, ?_, fun n => ?_⟩, fun q => ?_⟩, trivial⟩
  · rw [Net.unserved_nil, Net.length_attached]
    split
    · exact counts n ‹_›
    · rename_i hn
      have bound : ¬n < net.nodes.size := fun hb => hn (Net.mem_ids.2 (hd n hb))
      simp [missing?, missing, Nat.le_of_not_lt bound]
  · simpa using net.nodup_ids.filter _
  · simp [Net.unserved_nil, Net.length_attached]
  · simp

end Sorting

namespace Net
variable {net : Net} {n : NodeId}

/-- The guarded check counts what the plain one lists, and breaks off on no net. -/
theorem checkAcyclicGuarded_eq (hw : net.Wired) (hd : net.Dense) :
    net.checkAcyclicGuarded = .of net.checkAcyclic := by
  obtain ⟨start, hs, fresh, sound⟩ := Sorting.sound_startAll hw hd
  have bound : ∀ n ∈ net.ids, n < net.nodes.size := fun _ => lt_size_of_mem_ids
  have length : net.ids.length = net.count := by
    rw [hd.ids, List.length_range, hd.count hw]
  have steps : net.ids.length ≤ net.count + start.sorted.length := by omega
  have run := sound.runGuarded true hw.linked bound (fun _ _ => mem_ids.2) steps
  have last := sound.ready_run hw.linked steps
  have final := sound.run hw.linked net.count
  generalize start.run net net.count = s at run last final
  have closed : ∀ n ∈ net.ids, ∀ p, net.Feeds p n → p ∈ net.ids :=
    fun n _ p hp => mem_ids.2 (hw.linked.noDangling p n hp)
  have same (n : NodeId) : n ∈ s.sorted ↔ n ∈ net.inOrder net.ids := by
    rw [final.mem_sorted last closed, mem_inOrder_iff hw.linked net.nodup_ids bound closed]
  have stuck : (List.range net.count).findM? (fun n => (s.missing? n).map fun d => decide (0 < d)) =
      some (net.ids.find? (!(net.inOrder net.ids).contains ·)) := by
    rw [hd.count hw, ← hd.ids]
    apply findM?_eq
    intro n hn
    rw [final.waiting last hn]
    simp [same]
  have complete := final.length_sorted_eq_iff net.nodup_ids
  simp only [checkAcyclicGuarded, checkAcyclic, hs, Option.bind_some, run, stuck,
    Guarded.found_some, Guarded.of_ok_bind]
  cases found : net.ids.find? (!(net.inOrder net.ids).contains ·) with
  | none =>
    have all : ∀ n ∈ net.ids, n ∈ s.sorted := by
      intro n hn
      rw [same]
      simpa using List.find?_eq_none.1 found n hn
    have count : s.sorted.length = net.count := by
      rw [complete.2 all, length]
    rw [if_pos count, Guarded.pure_eq]
  | some n =>
    have count : ¬s.sorted.length = net.count := by
      intro he
      rw [← length, complete] at he
      have left := List.find?_some found
      rw [(List.contains_iff_mem).2 ((same n).1 (he n (List.mem_of_find?_eq_some found)))] at left
      cases left
    rw [if_neg count, Option.getD_some, Guarded.throw_eq]

end Net
end Patchbay
