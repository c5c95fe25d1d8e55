import Patchbay.Generator
import Patchbay.Proofs.Builtin.Kernels

/-! # Binary operators cell by cell

The cells that a binary operator writes are told from the modes alone. The outer mode is a loop over
all pairs that computes the place of each; its writes go through the buffer from the first cell to
the last one, so each is written once.
-/

namespace Patchbay

/-! ### The outer loop -/

/-- The writes of the outer mode in the order in which they are made: one row after the other. -/
def outerWrites (f : Decimal → Decimal → Decimal) (x y : Cells) : List (Nat × Cell) :=
  x.zipIdx.flatMap fun a =>
    y.zipIdx.map fun c => (c.2 + a.2 * y.length, .ofDecimal (f a.1.decimal c.1.decimal))

/-- Writes some cells of a buffer; one that is out of range is not there. -/
def writeAll (writes : List (Nat × Cell)) (out : Cells) : Cells :=
  writes.foldl (fun out w => out.set w.1 w.2) out

theorem writeAll_nil (writes : List (Nat × Cell)) : writeAll writes [] = [] := by
  induction writes with
  | nil => rfl
  | cons w writes ih => exact ih

theorem writeAll_succ (writes : List (Nat × Cell)) (c : Cell) (out : Cells) :
    writeAll (writes.map fun w => (w.1 + 1, w.2)) (c :: out) = c :: writeAll writes out := by
  induction writes generalizing out with
  | nil => rfl
  | cons w writes ih => exact ih (out.set w.1 w.2)

/-- Writing cells one after the other from the start on pours them into the buffer. -/
theorem writeAll_zipIdx (source out : Cells) :
    writeAll (source.zipIdx.map Prod.swap) out = pour source out := by
  induction source generalizing out with
  | nil => simp [writeAll, pour]
  | cons c source ih =>
    cases out with
    | nil => simp [writeAll_nil, pour]
    | cons d out =>
      have later : (source.zipIdx 1).map Prod.swap =
          (source.zipIdx.map Prod.swap).map fun w => (w.1 + 1, w.2) := by
        rw [List.zipIdx_succ, List.map_map, List.map_map]
        rfl
      rw [List.zipIdx_cons, List.map_cons, later]
      exact (writeAll_succ _ c out).trans (congrArg (c :: ·) (ih out))

namespace Binary
variable (b : Binary) (x y : Cells)

theorem product_cons (a : Cell) : b.product (a :: x) y = y.map (b.cell a) ++ b.product x y := rfl

/-- The places that the outer loop computes are those of the products in their order. -/
theorem outerWrites_eq : outerWrites b.op x y = (b.product x y).zipIdx.map Prod.swap := by
  have rows (k : Nat) : ((x.zipIdx k).flatMap fun a =>
      y.zipIdx.map fun c => (c.2 + a.2 * y.length, b.cell a.1 c.1)) =
      ((b.product x y).zipIdx (k * y.length)).map Prod.swap := by
    induction x generalizing k with
    | nil => rfl
    | cons a x ih =>
      have row : (y.zipIdx.map fun c => (c.2 + k * y.length, b.cell a c.1)) =
          ((y.map (b.cell a)).zipIdx (k * y.length)).map Prod.swap := by
        rw [List.zipIdx_map, List.zipIdx_eq_map_add (i := k * y.length), List.map_map, List.map_map]
        exact List.map_congr_left fun c _ => Prod.ext (Nat.add_comm _ _) rfl
      rw [List.zipIdx_cons, List.flatMap_cons, ih, product_cons, List.zipIdx_append,
        List.map_append, List.length_map, Nat.succ_mul, ← row]
  have start := rows 0
  rwa [Nat.zero_mul] at start

theorem length_product : (b.product x y).length = x.length * y.length := by
  simp [product]

theorem getElem?_product {i j : Nat} {a c : Cell} (hi : x[i]? = some a) (hj : y[j]? = some c) :
    (b.product x y)[j + i * y.length]? = some (.ofDecimal (b.op a.decimal c.decimal)) := by
  obtain ⟨bound, -⟩ := List.getElem?_eq_some_iff.1 hj
  induction x generalizing i with
  | nil => cases hi
  | cons d x ih =>
    rw [product_cons]
    cases i with
    | zero =>
      cases hi
      rw [Nat.zero_mul, Nat.add_zero, List.getElem?_append_left (by rwa [List.length_map]),
        List.getElem?_map, hj]
      rfl
    | succ i =>
      have row : j + (i + 1) * y.length = (y.map (b.cell d)).length + (j + i * y.length) := by
        rw [Nat.succ_mul, List.length_map]
        omega
      rw [row, List.getElem?_append_right (Nat.le_add_right _ _), Nat.add_sub_cancel_left]
      exact ih hi

/-! ### Cell by cell -/

theorem getElem?_padded (i : Nat) : (b.padded x y)[i]? = match x[i]?, y[i]? with
    | some a, some c => some (.ofDecimal (b.op a.decimal c.decimal))
    | some a, none => some (.ofDecimal (b.aloneLeft a.decimal))
    | none, some c => some (.ofDecimal (b.aloneRight c.decimal))
    | none, none => none := by
  induction x generalizing y i with
  | nil =>
    simp only [padded, List.zipWith_nil_left, List.drop_nil, List.map_nil, List.length_nil,
      List.drop_zero, List.nil_append, List.getElem?_map, List.getElem?_nil]
    cases y[i]? <;> rfl
  | cons a x ih =>
    cases y with
    | nil =>
      simp only [padded, List.zipWith_nil_right, List.drop_nil, List.map_nil, List.length_nil,
        List.drop_zero, List.nil_append, List.append_nil, List.getElem?_map, List.getElem?_nil]
      cases (a :: x)[i]? <;> rfl
    | cons c y =>
      cases i with
      | zero => rfl
      | succ i => exact ih y i

theorem length_padded : (b.padded x y).length = max x.length y.length := by
  simp [padded]
  omega

end Binary

/-- What an operation on decimals makes of two vectors in each mode. A cell of the first vector that
has no partner is kept, and `alone` says what becomes of one of the second. -/
def Broadcast.Combined (f : Decimal → Decimal → Decimal) (alone : Decimal → Decimal)
    (x y out : Cells) : Broadcast → Prop
  | .pad => out.length = max x.length y.length ∧ ∀ k : Nat, out[k]? = match x[k]?, y[k]? with
    | some a, some c => some (.ofDecimal (f a.decimal c.decimal))
    | some a, none => some a
    | none, some c => some (.ofDecimal (alone c.decimal))
    | none, none => none
  | .truncate => out.length = min x.length y.length ∧ ∀ (k : Nat) (a c : Cell), x[k]? = some a →
      y[k]? = some c → out[k]? = some (.ofDecimal (f a.decimal c.decimal))
  | .outer => out.length = x.length * y.length ∧ ∀ (i j : Nat) (a c : Cell), x[i]? = some a →
      y[j]? = some c → out[j + i * y.length]? = some (.ofDecimal (f a.decimal c.decimal))

section
variable [Platform]

namespace Binary
variable (b : Binary) {x y out : Cells} {mode : Broadcast}

omit [Platform] in
/-- A binary operation fills a buffer of the length of its mode as the mode says. -/
theorem combined_fill (keeps : ∀ a, b.aloneLeft a = a)
    (hn : out.length = mode.length x.length y.length) :
    mode.Combined b.op b.aloneRight x y (b.fill mode x y out) := by
  cases mode with
  | pad =>
    have whole : fit (b.padded x y) .zero out.length = b.padded x y := by
      rw [hn, Broadcast.length, ← b.length_padded x y]
      simp [fit]
    refine ⟨(b.length_fill _ _ _ _).trans hn, fun k => ?_⟩
    simp only [fill, whole, b.getElem?_padded, keeps]
    cases x[k]? <;> cases y[k]? <;> rfl
  | truncate =>
    refine ⟨(b.length_fill _ _ _ _).trans hn, fun k a c hx hy => ?_⟩
    obtain ⟨hi, -⟩ := List.getElem?_eq_some_iff.1 hx
    obtain ⟨hj, -⟩ := List.getElem?_eq_some_iff.1 hy
    have early : k < out.length := by
      rw [hn, Broadcast.length]
      omega
    have there : (b.padded x y)[k]? = some (.ofDecimal (b.op a.decimal c.decimal)) := by
      rw [b.getElem?_padded, hx, hy]
    simp only [fill, fit]
    rw [List.getElem?_append_left, List.getElem?_take_of_lt early, there]
    rw [List.length_take, b.length_padded]
    omega
  | outer =>
    have whole : b.fill .outer x y out = b.product x y := by
      rw [fill, pour_of_length_eq (hn.trans (b.length_product x y).symm)]
    refine ⟨(b.length_fill _ _ _ _).trans hn, fun i j a c hx hy => ?_⟩
    rw [whole]
    exact b.getElem?_product x y hx hy

omit [Platform] in
/-- In the outer mode, filling a buffer is the loop over all pairs. -/
theorem fill_outer (x y out : Cells) :
    b.fill .outer x y out = writeAll (outerWrites b.op x y) out := by
  rw [outerWrites_eq, writeAll_zipIdx, fill]

omit [Platform] in
/-- The loop goes through the places of the products from first to last. -/
theorem map_outerWrites (x y : Cells) :
    (outerWrites b.op x y).map (·.1) = List.range (x.length * y.length) := by
  rw [outerWrites_eq, List.map_map, List.range_eq_range', ← b.length_product x y,
    ← List.zipIdx_map_snd]
  rfl

end Binary

namespace Builtin

/-- The operators that combine two vectors: what each makes of two decimals, and of one of the
second vector that has no partner. -/
def combining : List (OperatorId × (Decimal → Decimal → Decimal) × (Decimal → Decimal)) :=
  [(.builtin 4, (· + ·), id), (.builtin 5, (· - ·), (- ·)), (.builtin 6, (· * ·), id),
    (.builtin 7, fun x y => if y.isZero then 0 else x / y, fun _ => 0)]

/-- The entries of the table are binary operators that keep what the first vector has left. -/
theorem exists_binary {op : Operator} {f : Decimal → Decimal → Decimal}
    {alone : Decimal → Decimal} (hop : op ∈ operators) (hf : (op.id, f, alone) ∈ combining) :
    ∃ b : Binary, op.body = .kernel b.kernel ∧ b.op = f ∧ b.aloneRight = alone ∧
      ∀ a, b.aloneLeft a = a := by
  have found (number : Nat) (name : String) (b : Binary)
      (mem : binary number name b ∈ operators) (he : op.id = .builtin number) :
      op.body = .kernel b.kernel :=
    congrArg Operator.body (eq_of_id hop mem he)
  have table : ∀ op ∈ arithmetic, op ∈ operators := fun op h =>
    List.mem_append_left _ (List.mem_append_left _ (List.mem_append_right _ h))
  simp only [combining, List.mem_cons, Prod.mk.injEq, List.not_mem_nil, or_false] at hf
  rcases hf with ⟨hid, rfl, rfl⟩ | ⟨hid, rfl, rfl⟩ | ⟨hid, rfl, rfl⟩ | ⟨hid, rfl, rfl⟩
  · have body := found 4 "add" .add (table _ (by simp [arithmetic])) hid
    exact ⟨.add, body, rfl, rfl, fun _ => rfl⟩
  · have body := found 5 "subtract" .subtract (table _ (by simp [arithmetic])) hid
    exact ⟨.subtract, body, rfl, rfl, fun _ => rfl⟩
  · have body := found 6 "multiply" .multiply (table _ (by simp [arithmetic])) hid
    exact ⟨.multiply, body, rfl, rfl, fun _ => rfl⟩
  · have body := found 7 "divide" .divide (table _ (by simp [arithmetic])) hid
    exact ⟨.divide, body, rfl, rfl, fun _ => rfl⟩

/-- A binary operator takes the length of its mode, and fills a buffer of this length with what the
mode makes of the two vectors. In the outer mode that is the loop over all pairs, and its writes go
through all places of the buffer once. -/
theorem fill_combined {op : Operator} {f : Decimal → Decimal → Decimal}
    {alone : Decimal → Decimal} {q : Query} {mode : Broadcast} {out : Cells} (host : Host)
    (hop : op ∈ operators) (hf : (op.id, f, alone) ∈ combining)
    (hm : Broadcast.ofConfig q.config = .ok mode)
    (hn : out.length = mode.length (q.length 0) (q.length 1)) :
    ∃ k, op.body = .kernel k ∧ k.length q = .ok out.length ∧
      mode.Combined f alone (q.legs.leg 0) (q.legs.leg 1) (k.fill q.config host q.legs out) ∧
      (mode = .outer →
        (outerWrites f (q.legs.leg 0) (q.legs.leg 1)).map (·.1) =
          List.range (q.length 0 * q.length 1) ∧
        k.fill q.config host q.legs out =
          writeAll (outerWrites f (q.legs.leg 0) (q.legs.leg 1)) out) := by
  obtain ⟨b, body, rfl, rfl, keeps⟩ := exists_binary hop hf
  have filled : b.kernel.fill q.config host q.legs out =
      b.fill mode (q.legs.leg 0) (q.legs.leg 1) out := by
    simp only [Binary.kernel, hm]
    rfl
  refine ⟨b.kernel, body, ?_, ?_, ?_⟩
  · simp only [Binary.kernel, hm, hn]
    rfl
  · rw [filled]
    exact b.combined_fill keeps hn
  · rintro rfl
    rw [filled]
    exact ⟨b.map_outerWrites _ _, b.fill_outer _ _ _⟩

end Builtin

end

namespace Builtin

/-- Six divided by zero and by three, each quotient in its place. -/
theorem fill_combined_divide : ∃ (q : Query) (k : Kernel),
    q = ⟨⟨[("op_mode", 2)], []⟩, [[.ofDecimal 6], [.ofDecimal 0, .ofDecimal 3]], [true, true]⟩ ∧
      (binary 7 "divide" .divide).body = .kernel k ∧ k.length q = .ok 2 ∧
      k.fill q.config .detached q.legs [.zero, .zero] = [.ofDecimal 0, .ofDecimal 2] := by
  let q : Query :=
    ⟨⟨[("op_mode", 2)], []⟩, [[.ofDecimal 6], [.ofDecimal 0, .ofDecimal 3]], [true, true]⟩
  have listed : binary 7 "divide" .divide ∈ operators := by simp [operators, arithmetic]
  have table : (OperatorId.builtin 7, (fun x y : Decimal => if y.isZero then 0 else x / y),
      fun _ => 0) ∈ combining := by simp [combining]
  have mode : Broadcast.ofConfig q.config = .ok .outer := rfl
  have size : [Cell.zero, .zero].length = Broadcast.outer.length (q.length 0) (q.length 1) := rfl
  obtain ⟨k, body, length, -, loop⟩ := fill_combined .detached listed table mode size
  exact ⟨q, k, rfl, body, length, (loop rfl).2.trans (by decide +kernel)⟩

end Builtin
end Patchbay
