import Patchbay.Generator
import Patchbay.Proofs.Builtin.Kernels

/-! # What the bodies leave of a buffer

A body should write every cell of the buffer that it asked for, whatever the lengths of its legs are
and whoever runs it. All built-in bodies do except the selection. It asks for the longest of its
three legs, and for one cell at least, but it stops where the longer of the two vectors ends between
which it selects.
-/

namespace Patchbay

/-- What is poured into a buffer hides it exactly when it is no shorter. -/
theorem pour_eq_pour_iff {source : Cells} {n : Nat} :
    (∀ out out' : Cells, out.length = n → out'.length = n → pour source out = pour source out') ↔
      n ≤ source.length := by
  constructor
  · intro same
    by_contra short
    have cells := congrArg (·[source.length]?) (same (List.replicate n .zero)
      (List.replicate n (.ofInteger 1)) List.length_replicate List.length_replicate)
    have bound : source.length < n := Nat.lt_of_not_le short
    simp [pour, Nat.le_of_lt bound, bound] at cells
    exact absurd cells (by decide)
  · intro long out out' hn hn'
    rw [pour, pour, hn, hn', List.drop_of_length_le (hn.trans_le long),
      List.drop_of_length_le (hn'.trans_le long)]

section
variable [Platform]

namespace Kernel
variable {k : Kernel} {q : Query} {n : Nat} {host : Host}

/-- Nothing that was in a buffer of `n` cells shows after a body has run on it. -/
def Overwrites (k : Kernel) (q : Query) (host : Host) (n : Nat) : Prop :=
  ∀ out out' : Cells, out.length = n → out'.length = n →
    k.fill q.config host q.legs out = k.fill q.config host q.legs out'

theorem Whole.overwrites (h : k.Whole) (hq : k.length q = .ok n) : k.Overwrites q host n := by
  intro out out' hn hn'
  rw [h q n host q.legs out hq rfl hn, h q n host q.legs out' hq rfl hn']

end Kernel

/-- The body of an operator, if it has one, overwrites its buffer. -/
def Operator.Whole (op : Operator) : Prop := ∀ k, op.body = .kernel k → k.Whole

theorem Operator.whole_of_kernel {op : Operator} {k : Kernel} (hb : op.body = .kernel k)
    (h : k.Whole) : op.Whole := by
  intro k' hk
  cases hb.symm.trans hk
  exact h

namespace Builtin
open Operator

theorem whole_vector : ∀ op ∈ vector, op.Whole := by
  simp only [vector, List.forall_mem_cons]
  exact ⟨by rintro _ ⟨⟩, whole_of_kernel rfl whole_pass,
    whole_of_kernel rfl (whole_literal _), whole_of_kernel rfl whole_literals,
    whole_of_kernel rfl (whole_literal _), whole_of_kernel rfl whole_range,
    whole_of_kernel rfl whole_repeat, List.forall_mem_nil _⟩

theorem whole_arithmetic : ∀ op ∈ arithmetic, op.Whole := by
  simp only [arithmetic, List.forall_mem_cons]
  exact ⟨whole_of_kernel rfl (whole_binary _), whole_of_kernel rfl (whole_binary _),
    whole_of_kernel rfl (whole_binary _), whole_of_kernel rfl (whole_binary _),
    whole_of_kernel rfl (whole_map _), whole_of_kernel rfl (whole_map _),
    whole_of_kernel rfl (whole_map _), whole_of_kernel rfl whole_blend, List.forall_mem_nil _⟩

theorem whole_logic : ∀ op ∈ logic, op.id ≠ .builtin 79 → op.Whole := by
  simp only [logic, List.forall_mem_cons]
  exact ⟨fun h => absurd rfl h, fun _ => whole_of_kernel rfl (whole_compare _),
    fun _ => whole_of_kernel rfl (whole_compare _), List.forall_mem_nil _⟩

theorem whole_transport : ∀ op ∈ transport, op.Whole := by
  simp only [transport, List.forall_mem_cons]
  exact ⟨whole_of_kernel rfl (whole_stream _ _), whole_of_kernel rfl (whole_stream _ _),
    whole_of_kernel rfl whole_noise, whole_of_kernel rfl whole_notes, List.forall_mem_nil _⟩

theorem whole_of_ne {op : Operator} (hop : op ∈ operators) (hid : op.id ≠ .builtin 79) :
    op.Whole := by
  simp only [operators, List.mem_append] at hop
  rcases hop with ((h | h) | h) | h
  · exact whole_vector op h
  · exact whole_arithmetic op h
  · exact whole_logic op h hid
  · exact whole_transport op h

/-- The selection writes as many cells as the longer of its two vectors has. -/
theorem overwrites_select_iff {q : Query} {host : Host} {n : Nat} :
    selectKernel.Overwrites q host n ↔ n ≤ max (q.length 1) (q.length 2) := by
  have poured : selectKernel.Overwrites q host n ↔ n ≤
      (select (q.legs.leg 0) (q.legs.leg 1) (q.legs.leg 2)).length := pour_eq_pour_iff
  rw [poured, length_select, Query.length, Query.length]

theorem exists_select : ∃ op ∈ operators, op.id = .builtin 79 ∧
    op.body = .kernel selectKernel := by
  refine ⟨logic.head (by simp [logic]), ?_, rfl, rfl⟩
  exact List.mem_append_left _ (List.mem_append_right _ (List.head_mem _))

/-- Where a built-in length function gives a length, the body hides what was in a buffer of this
length, for every configuration, host and legs. The one exception is the selection where its
condition, or the one cell that it always has, reaches beyond both vectors. -/
theorem overwrites_iff {op : Operator} {k : Kernel} {q : Query} {n : Nat} (host : Host)
    (hop : op ∈ operators) (hk : op.body = .kernel k) (hq : k.length q = .ok n) :
    k.Overwrites q host n ↔ (op.id = .builtin 79 → n ≤ max (q.length 1) (q.length 2)) := by
  by_cases hid : op.id = .builtin 79
  · obtain ⟨select, mem, number, body⟩ := exists_select
    cases eq_of_id hop mem (hid.trans number.symm)
    cases hk.symm.trans body
    rw [overwrites_select_iff, forall_prop_of_true hid]
  · have whole := whole_of_ne hop hid k hk
    exact iff_of_true (whole.overwrites hq) fun h => absurd h hid

end Builtin

end

namespace Builtin

/-- A condition of one cell selects from a vector of two, and nothing of the buffer is left. -/
theorem overwrites_iff_selected : ∃ (op : Operator) (k : Kernel) (q : Query),
    op ∈ operators ∧ op.id = .builtin 79 ∧ op.body = .kernel k ∧
      q = ⟨⟨[], []⟩, [[.ofBoolean true], [.ofDecimal 5, .ofDecimal 6], []], [true, true, true]⟩ ∧
      k.length q = .ok 2 ∧ k.Overwrites q .detached 2 := by
  let q : Query :=
    ⟨⟨[], []⟩, [[.ofBoolean true], [.ofDecimal 5, .ofDecimal 6], []], [true, true, true]⟩
  obtain ⟨select, mem, number, body⟩ := exists_select
  have length : selectKernel.length q = .ok 2 := rfl
  have long : 2 ≤ max (q.length 1) (q.length 2) := by decide
  exact ⟨select, selectKernel, q, mem, number, body, rfl, length,
    (overwrites_iff .detached mem body length).2 fun _ => long⟩

/-- A condition of two cells selects from vectors of one: the second cell of the buffer stays. -/
theorem not_overwrites_selected : ∃ (op : Operator) (k : Kernel) (q : Query),
    op ∈ operators ∧ op.body = .kernel k ∧
      q = ⟨⟨[], []⟩, [[.ofBoolean true, .ofBoolean true], [.ofDecimal 5], [.ofDecimal 6]],
        [true, true, true]⟩ ∧
      k.length q = .ok 2 ∧
      k.fill q.config .detached q.legs [.ofDecimal 9, .ofDecimal 9] =
        [.ofDecimal 5, .ofDecimal 9] ∧
      ¬k.Overwrites q .detached 2 := by
  let q : Query := ⟨⟨[], []⟩, [[.ofBoolean true, .ofBoolean true], [.ofDecimal 5], [.ofDecimal 6]],
    [true, true, true]⟩
  obtain ⟨select, mem, -, body⟩ := exists_select
  refine ⟨select, selectKernel, q, mem, body, rfl, rfl, rfl, fun same => ?_⟩
  have cells := same [.zero, .zero] [.ofDecimal 9, .ofDecimal 9] rfl rfl
  exact absurd cells (by decide +kernel)

end Builtin
end Patchbay
