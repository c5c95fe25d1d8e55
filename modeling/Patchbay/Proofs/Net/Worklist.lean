import Mathlib.Algebra.BigOperators.Group.Finset.Basic
import Patchbay.Net.Worklist
import Patchbay.Proofs.Net.Demand

/-! # What a search answers

The nodes that a loop can still take are those on its stack and those that unvisited nodes will put
there. A visit moves nodes from the second part to the first, and every turn takes one, so the loop
ends on a net with cycles as well. While it runs, no visited node is what is looked for, and all
that comes next of a visited node was visited or lies on the stack. Once the stack is empty
everything that can be reached was visited.
-/

namespace Patchbay
open Relation

namespace Search
variable {s : Search} {next : NodeId → List NodeId} {stops : NodeId → Bool} {n root : NodeId}
  {stack visited : List NodeId} {answer : Bool} {size turns : Nat}

/-- The nodes that come next are pushed in their order, unless the loop stops at the node. -/
def Follows (s : Search) (next : NodeId → List NodeId) (stops : NodeId → Bool) : Prop :=
  ∀ n stack, s.push n stack = if stops n then none else some ((next n).reverse ++ stack)

/-- There is a walk along nodes that come next. -/
abbrev Leads (next : NodeId → List NodeId) : NodeId → NodeId → Prop :=
  ReflTransGen fun a b => b ∈ next a

/-- The loop that starts at a node ends, and with this answer. -/
def Answers (s : Search) (n : NodeId) (answer : Bool) : Prop :=
  ∃ turns, s.run turns (start n) = .ended answer

theorem run_ended (s : Search) (turns : Nat) (answer : Bool) :
    s.run turns (.ended answer) = .ended answer := by
  induction turns with
  | zero => rfl
  | succ turns ih => exact ih

/-- A turn ends the loop, passes over the node, or visits it. -/
theorem Follows.turn_cases (h : s.Follows next stops) (n : NodeId) (stack visited : List NodeId) :
    s.turn (.running (n :: stack) visited) = .ended true ∧ (s.sought n = true ∨ stops n = true) ∨
    s.turn (.running (n :: stack) visited) = .running stack visited ∧
      (s.markable n = false ∨ n ∈ visited) ∨
    s.turn (.running (n :: stack) visited) =
        .running ((next n).reverse ++ stack) (n :: visited) ∧
      n ∉ visited ∧ s.sought n = false ∧ stops n = false := by
  by_cases sought : s.sought n = true
  · exact .inl ⟨by simp [turn, sought], .inl sought⟩
  by_cases passed : s.markable n = false ∨ n ∈ visited
  · refine .inr (.inl ⟨?_, passed⟩)
    rcases passed with unmarkable | seen
    · simp [turn, sought, unmarkable]
    · simp [turn, sought, seen]
  obtain ⟨markable, fresh⟩ := not_or.1 passed
  cases stop : stops n with
  | true =>
    refine .inl ⟨?_, .inr rfl⟩
    simp [turn, sought, markable, fresh, h n, stop]
  | false =>
    refine .inr (.inr ⟨?_, fresh, by simpa using sought, rfl⟩)
    simp [turn, sought, markable, fresh, h n, stop]

/-! ### The loop ends -/

/-- How many nodes can still be taken when only those below `size` put anything on the stack. -/
def budget (size : Nat) (next : NodeId → List NodeId) (stack visited : List NodeId) : Nat :=
  stack.length + ∑ m ∈ (Finset.range size).filter (· ∉ visited), (next m).length

theorem budget_visit (hb : ∀ n, size ≤ n → next n = []) (fresh : n ∉ visited) :
    budget size next ((next n).reverse ++ stack) (n :: visited) + 1 =
      budget size next (n :: stack) visited := by
  have rest : (Finset.range size).filter (· ∉ n :: visited) =
      ((Finset.range size).filter (· ∉ visited)).erase n := by
    ext m
    simp only [Finset.mem_filter, Finset.mem_erase, List.mem_cons, not_or]
    exact and_left_comm
  have moved : (next n).length +
        ∑ m ∈ (Finset.range size).filter (· ∉ n :: visited), (next m).length =
      ∑ m ∈ (Finset.range size).filter (· ∉ visited), (next m).length := by
    rw [rest]
    by_cases bound : n < size
    · exact Finset.add_sum_erase _ (fun m => (next m).length) (by simp [bound, fresh])
    · rw [Finset.erase_eq_of_notMem (by simp [bound]), hb n (not_lt.1 bound), List.length_nil,
        Nat.zero_add]
  rw [budget, budget, ← moved, List.length_append, List.length_reverse, List.length_cons]
  omega

theorem Follows.run_of_budget_le (h : s.Follows next stops) (hb : ∀ n, size ≤ n → next n = [])
    (hle : budget size next stack visited ≤ turns) :
    ∃ answer, s.run (turns + 1) (.running stack visited) = .ended answer := by
  induction turns generalizing stack visited with
  | zero =>
    have empty : stack = [] := List.length_eq_zero_iff.1 (by rw [budget] at hle; omega)
    subst empty
    exact ⟨false, rfl⟩
  | succ turns ih =>
    cases stack with
    | nil => exact ⟨false, s.run_ended (turns + 1) false⟩
    | cons n stack =>
      rw [run]
      rcases h.turn_cases n stack visited with ⟨step, -⟩ | ⟨step, -⟩ | ⟨step, fresh, -⟩
      · rw [step]
        exact ⟨true, s.run_ended (turns + 1) true⟩
      · rw [step]
        apply ih
        rw [budget, List.length_cons] at hle
        rw [budget]
        omega
      · rw [step]
        apply ih
        have taken : budget size next ((next n).reverse ++ stack) (n :: visited) + 1 =
            budget size next (n :: stack) visited := budget_visit hb fresh
        omega

theorem Follows.exists_answers (h : s.Follows next stops) (hb : ∀ n, size ≤ n → next n = [])
    (n : NodeId) : ∃ answer, s.Answers n answer := by
  obtain ⟨answer, ends⟩ := h.run_of_budget_le hb (le_refl (budget size next [n] []))
  exact ⟨answer, _, ends⟩

/-! ### What it has found by then -/

/-- What holds between two turns of a loop that starts at `root`. -/
structure Invariant (s : Search) (next : NodeId → List NodeId) (stops : NodeId → Bool)
    (root : NodeId) (stack visited : List NodeId) : Prop where
  reached : ∀ m ∈ stack, Leads next root m
  missed : ∀ m ∈ visited, s.sought m = false ∧ stops m = false
  closed : ∀ m ∈ visited, ∀ c ∈ next m, c ∈ visited ∨ c ∈ stack
  root : root ∈ visited ∨ root ∈ stack

theorem invariant_start (s : Search) (next : NodeId → List NodeId) (stops : NodeId → Bool)
    (root : NodeId) : Invariant s next stops root [root] [] where
  reached m hm := by
    rw [List.mem_singleton.1 hm]
  missed _ hm := by cases hm
  closed _ hm := by cases hm
  root := .inr List.mem_cons_self

theorem Invariant.pass (h : Invariant s next stops root (n :: stack) visited) (hn : n ∈ visited) :
    Invariant s next stops root stack visited := by
  have kept {m : NodeId} (hm : m ∈ visited ∨ m ∈ n :: stack) : m ∈ visited ∨ m ∈ stack := by
    rcases hm with hm | hm
    · exact .inl hm
    · rcases List.mem_cons.1 hm with rfl | hm
      · exact .inl hn
      · exact .inr hm
  exact ⟨fun m hm => h.reached m (List.mem_cons_of_mem n hm), h.missed,
    fun m hm c hc => kept (h.closed m hm c hc), kept h.root⟩

theorem Invariant.visit (h : Invariant s next stops root (n :: stack) visited)
    (sought : s.sought n = false) (stop : stops n = false) :
    Invariant s next stops root ((next n).reverse ++ stack) (n :: visited) := by
  have kept {m : NodeId} (hm : m ∈ visited ∨ m ∈ n :: stack) :
      m ∈ n :: visited ∨ m ∈ (next n).reverse ++ stack := by
    simp only [List.mem_cons, List.mem_append] at hm ⊢
    tauto
  refine ⟨fun m hm => ?_, fun m hm => ?_, fun m hm c hc => ?_, kept h.root⟩
  · rcases List.mem_append.1 hm with hm | hm
    · exact (h.reached n List.mem_cons_self).tail (List.mem_reverse.1 hm)
    · exact h.reached m (List.mem_cons_of_mem n hm)
  · rcases List.mem_cons.1 hm with rfl | hm
    · exact ⟨sought, stop⟩
    · exact h.missed m hm
  · rcases List.mem_cons.1 hm with rfl | hm
    · exact .inr (List.mem_append_left _ (List.mem_reverse.2 hc))
    · exact kept (h.closed m hm c hc)

/-- A loop that has emptied its stack has visited all that can be reached. -/
theorem Invariant.visited_of_leads (h : Invariant s next stops root [] visited) {m : NodeId}
    (walk : Leads next root m) : m ∈ visited := by
  induction walk with
  | refl => exact h.root.resolve_right List.not_mem_nil
  | tail _ hc ih => exact (h.closed _ ih _ hc).resolve_right List.not_mem_nil

/-- The answer is whether what is looked for can be reached, or a node at which the loop stops. -/
theorem Follows.answer_of_run (h : s.Follows next stops)
    (hm : ∀ m, Leads next root m → s.markable m = true)
    (inv : Invariant s next stops root stack visited)
    (ends : s.run turns (.running stack visited) = .ended answer) :
    answer = true ↔ ∃ m, Leads next root m ∧ (s.sought m = true ∨ stops m = true) := by
  induction turns generalizing stack visited with
  | zero => cases ends
  | succ turns ih =>
    cases stack with
    | nil =>
      have no : s.run (turns + 1) (.running [] visited) = .ended false := s.run_ended turns false
      rw [no, Worklist.ended.injEq] at ends
      subst ends
      refine iff_of_false Bool.false_ne_true ?_
      rintro ⟨m, walk, found⟩
      obtain ⟨sought, stop⟩ := inv.missed m (inv.visited_of_leads walk)
      simp [sought, stop] at found
    | cons n stack =>
      have reached := inv.reached n List.mem_cons_self
      rw [run] at ends
      rcases h.turn_cases n stack visited with
        ⟨step, found⟩ | ⟨step, unmarked | seen⟩ | ⟨step, -, sought, stop⟩
      · rw [step, run_ended, Worklist.ended.injEq] at ends
        exact iff_of_true ends.symm ⟨n, reached, found⟩
      · rw [hm n reached] at unmarked
        cases unmarked
      · rw [step] at ends
        exact ih (inv.pass seen) ends
      · rw [step] at ends
        exact ih (inv.visit sought stop) ends

/-- Where all that can be reached can be marked, the one answer is whether what is looked for is
there. -/
theorem Follows.answers_iff (h : s.Follows next stops) (hb : ∀ n, size ≤ n → next n = [])
    (hm : ∀ m, Leads next root m → s.markable m = true) :
    s.Answers root answer ↔
      (answer = true ↔ ∃ m, Leads next root m ∧ (s.sought m = true ∨ stops m = true)) := by
  have right {answer : Bool} (ha : s.Answers root answer) :
      answer = true ↔ ∃ m, Leads next root m ∧ (s.sought m = true ∨ stops m = true) := by
    obtain ⟨turns, ends⟩ := ha
    exact h.answer_of_run hm (invariant_start s next stops root) ends
  refine ⟨right, fun he => ?_⟩
  obtain ⟨answer', ha⟩ := h.exists_answers hb root
  have same : answer = answer' := Bool.eq_iff_iff.2 (he.trans (right ha).symm)
  exact same ▸ ha

end Search

/-! ### The two searches of a net -/

/-- Pushing up to the first bad element either breaks off or pushes all. -/
theorem foldlM_push {α β : Type*} (bad : α → Bool) (f : α → β) (l : List α) (stack : List β) :
    l.foldlM (fun stack a => if bad a then none else some (f a :: stack)) stack =
      if l.any bad then none else some ((l.map f).reverse ++ stack) := by
  induction l generalizing stack with
  | nil => rfl
  | cons a l ih =>
    rw [List.foldlM_cons]
    cases ha : bad a <;> simp [ha, ih]

namespace Net
variable [Platform] {net : Net} {n m old : NodeId} {answer : Bool}

/-- The nodes that read a node, one entry for each of their slots that do. -/
def consumers (net : Net) (n : NodeId) : List NodeId := (net.readers n).map (·.consumer)

theorem ancestorSearch_follows (net : Net) (old : NodeId) :
    (net.ancestorSearch old).Follows net.sources fun _ => false := by
  intro n stack
  simp [ancestorSearch]

theorem demandSearch_follows (net : Net) :
    net.demandSearch.Follows net.consumers fun n => (net.readers n).any net.demands :=
  fun n stack => foldlM_push net.demands (·.consumer) (net.readers n) stack

theorem node?_of_size_le (h : net.nodes.size ≤ n) : net.node? n = none := by
  rw [node?, Array.getElem?_eq_none h, Option.join_none]

theorem sources_of_size_le (n : NodeId) (h : net.nodes.size ≤ n) : net.sources n = [] := by
  rw [sources, node?_of_size_le h, Option.elim_none]

theorem consumers_of_size_le (n : NodeId) (h : net.nodes.size ≤ n) : net.consumers n = [] := by
  rw [consumers, readers, outlets, node?_of_size_le h, Option.elim_none, List.map_nil, List.map_nil]

/-- Both loops end on any net, whatever its edges are. -/
theorem ancestorSearch_ends (net : Net) (old n : NodeId) :
    ∃ answer, (net.ancestorSearch old).Answers n answer :=
  (net.ancestorSearch_follows old).exists_answers sources_of_size_le n

theorem demandSearch_ends (net : Net) (n : NodeId) : ∃ answer, net.demandSearch.Answers n answer :=
  net.demandSearch_follows.exists_answers consumers_of_size_le n

theorem leads_sources_iff : Search.Leads net.sources n m ↔ ReflTransGen net.Feeds m n := by
  have edges : (fun a b => b ∈ net.sources a) = Function.swap net.Feeds :=
    funext₂ fun a b => propext mem_sources
  rw [Search.Leads, edges, reflTransGen_swap]

/-- On a node that is there, the search for an ancestor has one answer, on a net with cycles too. -/
theorem ancestorSearch_answers_iff (hs : net.NoDangling) (hn : net.contains n = true) :
    (net.ancestorSearch old).Answers n answer ↔ answer = net.reaches n old := by
  have marked (m : NodeId) (walk : Search.Leads net.sources n m) :
      (net.ancestorSearch old).markable m = true :=
    decide_eq_true (lt_size_of_contains (contains_of_upstream hs hn (leads_sources_iff.1 walk)))
  have found : (∃ m, Search.Leads net.sources n m ∧ ((m == old) = true ∨ false = true)) ↔
      net.reaches n old = true := by
    simp [reaches_iff hs hn, leads_sources_iff]
  rw [(net.ancestorSearch_follows old).answers_iff sources_of_size_le marked,
    @Bool.eq_iff_iff answer (net.reaches n old)]
  exact iff_congr Iff.rfl found

theorem mem_consumers (hl : net.Linked) : m ∈ net.consumers n ↔ net.Feeds n m := by
  simp only [consumers, List.mem_map, mem_readers hl]
  constructor
  · rintro ⟨e, ⟨-, hs⟩, rfl⟩
    exact ⟨e.slot, hs⟩
  · rintro ⟨slot, hs⟩
    exact ⟨⟨n, m, slot⟩, ⟨rfl, hs⟩, rfl⟩

theorem any_demands_readers (hl : net.Linked) :
    (net.readers n).any net.demands = true ↔ ∃ c, net.Early n c := by
  simp only [List.any_eq_true, mem_readers hl]
  constructor
  · rintro ⟨e, ⟨-, hs⟩, demands⟩
    exact ⟨e.consumer, e.slot, hs, demands⟩
  · rintro ⟨c, slot, hs, demands⟩
    exact ⟨⟨n, c, slot⟩, ⟨rfl, hs⟩, demands⟩

/-- The search for an early demand goes along the edges, and its one answer is that of the search
against the edges that starts at all demands. -/
theorem demandSearch_answers_iff (hl : net.Linked) :
    net.demandSearch.Answers n answer ↔ answer = net.isDemanded n := by
  have edges : (fun a b => b ∈ net.consumers a) = net.Feeds :=
    funext₂ fun a b => propext (mem_consumers hl)
  rw [net.demandSearch_follows.answers_iff consumers_of_size_le fun _ _ => rfl,
    @Bool.eq_iff_iff answer (net.isDemanded n), isDemanded_iff hl.noDangling, Demanded]
  simp only [Search.Leads, edges, any_demands_readers hl, demandSearch, Bool.false_eq_true,
    false_or]
  refine iff_congr Iff.rfl ⟨?_, ?_⟩
  · rintro ⟨p, walk, c, early⟩
    exact ⟨p, c, early, walk⟩
  · rintro ⟨p, c, early, walk⟩
    exact ⟨p, walk, c, early⟩

end Net
end Patchbay
