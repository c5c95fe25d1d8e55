import Mathlib.Tactic.Ring
import Patchbay.Cell

/-! # Whole numbers as decimals

A decimal has 53 binary digits. A whole number that needs no more before its last zeros is held as
it is, and one that needs more is rounded to a multiple of the power of two at which the digits end.
Read back, a word is the same exactly when it is of the first sort, or is the greatest of all: that
one is rounded up out of range, and brought back by the saturation of the reading.
-/

namespace Patchbay.Decimal

variable {x : Decimal} {n d : Nat}

/-- A whole number with at most 53 binary digits before its last zeros. -/
def Exact (n : Nat) : Prop := ∃ m k, m < 2 ^ 53 ∧ n = m * 2 ^ k

def size (x : Decimal) : Nat :=
  if 0 ≤ x.exponent then x.significand <<< x.exponent.toNat
  else (x.significand + 1 <<< ((-x.exponent).toNat - 1)) >>> (-x.exponent).toNat

theorem round_eq (x : Decimal) : x.round = if x.negative then -(x.size : Int) else x.size := rfl

/-! ### The fields of a word -/

theorem toNat_magnitude (x : Decimal) : x.magnitude.toNat = x.bits.toNat % 2 ^ 63 := by
  rw [magnitude, UInt64.toNat_and]
  exact Nat.and_two_pow_sub_one_eq_mod x.bits.toNat 63

theorem exponentField_eq (x : Decimal) :
    x.exponentField = x.bits.toNat % 2 ^ 63 / 2 ^ 52 := by
  rw [exponentField, UInt64.toNat_shiftRight, toNat_magnitude, Nat.shiftRight_eq_div_pow]
  rfl

theorem fraction_eq (x : Decimal) : x.fraction = x.bits.toNat % 2 ^ 52 := by
  rw [fraction, UInt64.toNat_and]
  exact Nat.and_two_pow_sub_one_eq_mod x.bits.toNat 52

theorem negative_iff : x.negative = true ↔ 2 ^ 63 ≤ x.bits.toNat := by
  rw [negative, decide_eq_true_iff, UInt64.le_iff_toNat_le]
  rfl

theorem isFinite_iff : x.isFinite = true ↔ x.bits.toNat % 2 ^ 63 < 2047 * 2 ^ 52 := by
  rw [isFinite, decide_eq_true_iff, UInt64.lt_iff_toNat_lt, toNat_magnitude]
  rfl

theorem significand_lt (x : Decimal) : x.significand < 2 ^ 53 := by
  rw [significand, fraction_eq]
  split <;> omega

theorem xor_two_pow {a i : Nat} (h : a < 2 ^ i) : a ^^^ 2 ^ i = a + 2 ^ i := by
  have sum := Nat.two_pow_add_eq_or_of_lt h 1
  rw [Nat.mul_one] at sum
  rw [Nat.add_comm, sum]
  refine Nat.eq_of_testBit_eq fun j => ?_
  rw [Nat.testBit_xor, Nat.testBit_or, Nat.testBit_two_pow]
  by_cases hj : i = j
  · subst hj
    simp [Nat.testBit_lt_two_pow h]
  · simp [hj]

theorem toNat_neg (h : x.bits.toNat < 2 ^ 63) : x.neg.bits.toNat = x.bits.toNat + 2 ^ 63 := by
  rw [neg, UInt64.toNat_xor]
  exact xor_two_pow h

/-- A word with a given exponent field, not zero, and a given rest. -/
theorem fields_of_word {f r : Nat} (h : x.bits.toNat % 2 ^ 63 = f * 2 ^ 52 + r) (hr : r < 2 ^ 52)
    (hf : f ≠ 0) : x.significand = r + 2 ^ 52 ∧ x.exponent = (f : Int) - 1075 := by
  have field : x.exponentField = f := by
    rw [exponentField_eq, h]
    omega
  have fraction : x.fraction = r := by
    rw [fraction_eq]
    omega
  rw [significand, exponent, field, fraction, if_neg hf, Nat.shiftLeft_eq]
  omega

theorem size_of_exponent_nonneg {k : Nat} (h : x.exponent = k) :
    x.size = x.significand * 2 ^ k := by
  rw [size, h, if_pos (Int.natCast_nonneg k), Int.toNat_natCast, Nat.shiftLeft_eq]

theorem size_of_exponent_neg {k : Nat} (h : x.exponent = -((k : Int) + 1)) :
    x.size = (x.significand + 2 ^ k) / 2 ^ (k + 1) := by
  have shift : (-x.exponent).toNat = k + 1 := by omega
  rw [size, shift, if_neg (by omega), Nat.shiftRight_eq_div_pow, Nat.add_sub_cancel,
    Nat.shiftLeft_eq, Nat.one_mul]

/-- What is read from a decimal needs no more digits than the decimal has. -/
theorem exact_size (x : Decimal) : Exact x.size := by
  have short := x.significand_lt
  rcases Int.le_total 0 x.exponent with he | he
  · obtain ⟨k, hk⟩ := Int.eq_ofNat_of_zero_le he
    exact ⟨x.significand, k, short, size_of_exponent_nonneg hk⟩
  · rcases Nat.eq_zero_or_pos (-x.exponent).toNat with hz | hz
    · exact ⟨x.significand, 0, short, size_of_exponent_nonneg (by omega)⟩
    · obtain ⟨k, hk⟩ := Nat.exists_eq_succ_of_ne_zero hz.ne'
      refine ⟨x.size, 0, ?_, by rw [Nat.pow_zero, Nat.mul_one]⟩
      rw [size_of_exponent_neg (k := k) (by omega), Nat.div_lt_iff_lt_mul (Nat.two_pow_pos _),
        Nat.pow_succ]
      have := Nat.two_pow_pos k
      omega

/-! ### Quotients -/

theorem roundQuotient_cases (n d : Nat) :
    roundQuotient n d = n / d ∨ roundQuotient n d = n / d + 1 := by
  rw [roundQuotient]
  split
  · exact .inr rfl
  · exact .inl rfl

theorem roundQuotient_of_dvd (hd : 0 < d) (h : d ∣ n) : roundQuotient n d = n / d := by
  rw [roundQuotient, Nat.mod_eq_zero_of_dvd h, if_neg]
  simp
  omega

/-- Only a multiple is the same after it was rounded to a multiple. -/
theorem roundQuotient_mul_eq_iff (hd : 0 < d) : roundQuotient n d * d = n ↔ d ∣ n := by
  constructor
  · intro h
    exact ⟨roundQuotient n d, by rw [Nat.mul_comm, h]⟩
  · intro h
    rw [roundQuotient_of_dvd hd h, Nat.div_mul_cancel h]

/-! ### Rounding -/

def grid (n : Nat) : Nat := 2 ^ (n.log2 - 52)

/-- The number of 53 binary digits that is nearest, a tie going to the even one. -/
def rounded (n : Nat) : Nat := roundQuotient n (grid n) * grid n

theorem grid_pos (n : Nat) : 0 < grid n := Nat.two_pow_pos _

theorem exact_iff_grid_dvd : Exact n ↔ grid n ∣ n := by
  by_cases hn : n = 0
  · subst hn
    exact iff_of_true ⟨0, 0, by decide, rfl⟩ (Nat.dvd_zero _)
  have low := Nat.log2_self_le hn
  have high : n < 2 ^ (n.log2 + 1) := Nat.lt_log2_self
  constructor
  · rintro ⟨m, k, hm, he⟩
    have bound : 2 ^ n.log2 < 2 ^ (53 + k) := by
      rw [Nat.pow_add]
      exact (low.trans_eq he).trans_lt (Nat.mul_lt_mul_of_pos_right hm (Nat.two_pow_pos k))
    rw [Nat.pow_lt_pow_iff_right Nat.one_lt_two] at bound
    have unit : grid n ∣ 2 ^ k := Nat.pow_dvd_pow 2 (by omega)
    exact unit.trans ⟨m, he.trans (Nat.mul_comm m _)⟩
  · intro h
    refine ⟨n / grid n, n.log2 - 52, ?_, (Nat.div_mul_cancel h).symm⟩
    rw [Nat.div_lt_iff_lt_mul (grid_pos n), grid, ← Nat.pow_add]
    exact high.trans_le (Nat.pow_le_pow_right (by decide) (by omega))

theorem rounded_eq_self_iff : rounded n = n ↔ Exact n := by
  rw [rounded, roundQuotient_mul_eq_iff (grid_pos n), exact_iff_grid_dvd]

/-- The 53 binary digits of a whole number, the first one not zero. -/
def digits (n : Nat) : Nat :=
  if n.log2 < 52 then n * 2 ^ (52 - n.log2) else roundQuotient n (grid n)

theorem digits_of_lt (hn : n ≠ 0) (h : n.log2 < 52) :
    2 ^ 52 ≤ digits n ∧ digits n < 2 ^ 53 := by
  have low := Nat.log2_self_le hn
  have high : n < 2 ^ (n.log2 + 1) := Nat.lt_log2_self
  have pos := Nat.two_pow_pos (52 - n.log2)
  have first : 2 ^ n.log2 * 2 ^ (52 - n.log2) = 2 ^ 52 := by
    rw [← Nat.pow_add]
    congr 1
    omega
  rw [digits, if_pos h]
  constructor
  · rw [← first]
    exact Nat.mul_le_mul_right _ low
  · have past : 2 ^ (n.log2 + 1) * 2 ^ (52 - n.log2) = 2 ^ 53 := by
      rw [Nat.pow_succ, Nat.mul_right_comm, first]
      rfl
    rw [← past]
    exact Nat.mul_lt_mul_of_pos_right high pos

theorem digits_of_le (h : 52 ≤ n.log2) : 2 ^ 52 ≤ digits n ∧ digits n ≤ 2 ^ 53 := by
  have hn : n ≠ 0 := by
    rintro rfl
    simp at h
  have low : 2 ^ 52 * grid n ≤ n := by
    rw [grid, ← Nat.pow_add, Nat.add_sub_cancel' h]
    exact Nat.log2_self_le hn
  have high : n < 2 ^ 53 * grid n := by
    rw [grid, ← Nat.pow_add, show 53 + (n.log2 - 52) = n.log2 + 1 by omega]
    exact Nat.lt_log2_self
  rw [← Nat.le_div_iff_mul_le (grid_pos n)] at low
  rw [← Nat.div_lt_iff_lt_mul (grid_pos n)] at high
  rw [digits, if_neg (Nat.not_lt.2 h)]
  rcases roundQuotient_cases n (grid n) with he | he <;> omega

theorem digits_le (hn : n ≠ 0) : digits n ≤ 2 ^ 53 := by
  rcases Nat.lt_or_ge n.log2 52 with hl | hl
  · exact (digits_of_lt hn hl).2.le
  · exact (digits_of_le hl).2

theorem leading_one (hn : n ≠ 0) : leading n 1 = n.log2 := by
  have low : ¬n < 2 ^ n.log2 := Nat.not_lt.2 (Nat.log2_self_le hn)
  have one : Nat.log2 1 = 0 := by decide
  simp [leading, one, Nat.shiftLeft_eq, low]

/-- The word counts the steps of the grid from the start of the binade. -/
theorem toNat_ofNat (hn : n ≠ 0) (h : n.log2 < 64) :
    (ofNat n).bits.toNat = (n.log2 + 1022) * 2 ^ 52 + digits n := by
  have bound := digits_le hn
  have most : infinity.bits.toNat = 2047 * 2 ^ 52 := rfl
  have place : max ((n.log2 : Int) - 52) (-1074) = (n.log2 : Int) - 52 := by omega
  have offset : ((n.log2 : Int) - 52 + 1074).toNat = n.log2 + 1022 := by omega
  have steps : (if 0 ≤ (n.log2 : Int) - 52 then
        roundQuotient n (1 <<< ((n.log2 : Int) - 52).toNat)
      else roundQuotient (n <<< (-((n.log2 : Int) - 52)).toNat) 1) = digits n := by
    rw [digits]
    rcases Nat.lt_or_ge n.log2 52 with hl | hl
    · rw [if_neg (by omega), if_pos hl, roundQuotient_of_dvd Nat.one_pos (Nat.one_dvd _),
        Nat.div_one, Nat.shiftLeft_eq]
      congr 2
      omega
    · rw [if_pos (by omega), if_neg (Nat.not_lt.2 hl), Nat.shiftLeft_eq, Nat.one_mul, grid]
      congr 2
      omega
  rw [ofNat, nearest, if_neg hn, leading_one hn]
  dsimp only
  rw [place, steps, offset, most, Nat.shiftLeft_eq, Nat.toUInt64_eq, UInt64.toNat_ofNat']
  omega

theorem size_of_ofNat (hn : n ≠ 0) (h : n.log2 < 64)
    (word : x.bits.toNat % 2 ^ 63 = (ofNat n).bits.toNat) : x.size = rounded n := by
  rw [toNat_ofNat hn h] at word
  rcases Nat.lt_or_ge n.log2 52 with hl | hl
  · obtain ⟨lo, hi⟩ := digits_of_lt hn hl
    obtain ⟨hs, he⟩ := fields_of_word (f := n.log2 + 1023) (r := digits n - 2 ^ 52)
      (word.trans (by omega)) (by omega) (by omega)
    obtain ⟨k, hk⟩ : ∃ k, 52 - n.log2 = k + 1 := ⟨51 - n.log2, by omega⟩
    have one : grid n = 1 := by rw [grid, show n.log2 - 52 = 0 by omega, Nat.pow_zero]
    rw [size_of_exponent_neg (k := k) (by omega), hs, Nat.sub_add_cancel lo, digits, if_pos hl, hk,
      rounded, one, roundQuotient_of_dvd Nat.one_pos (Nat.one_dvd _), Nat.div_one, Nat.mul_one]
    refine Nat.div_eq_of_lt_le (Nat.le_add_right _ _) ?_
    rw [Nat.add_mul, Nat.one_mul]
    exact Nat.add_lt_add_left (Nat.pow_lt_pow_right Nat.one_lt_two k.lt_succ_self) _
  · obtain ⟨lo, hi⟩ := digits_of_le hl
    have value : rounded n = digits n * 2 ^ (n.log2 - 52) := by
      rw [rounded, digits, if_neg (Nat.not_lt.2 hl), grid]
    rw [value]
    rcases Nat.lt_or_eq_of_le hi with hi | hi
    · obtain ⟨hs, he⟩ := fields_of_word (f := n.log2 + 1023) (r := digits n - 2 ^ 52)
        (word.trans (by omega)) (by omega) (by omega)
      rw [size_of_exponent_nonneg (k := n.log2 - 52) (by omega), hs, Nat.sub_add_cancel lo]
    · -- The digits are rounded up to one digit more, and the carry has moved into the exponent.
      obtain ⟨hs, he⟩ := fields_of_word (f := n.log2 + 1024) (r := 0)
        (word.trans (by omega)) (by omega) (by omega)
      rw [size_of_exponent_nonneg (k := n.log2 - 52 + 1) (by omega), hs, hi, Nat.pow_succ]
      ring

theorem rounded_le {l : Nat} (h : n ≤ 2 ^ l) : rounded n ≤ 2 ^ l := by
  rcases Nat.lt_or_ge n.log2 52 with small | large
  · have unit : grid n ∣ n := by
      rw [grid, Nat.sub_eq_zero_of_le small.le]
      exact Nat.one_dvd n
    rwa [rounded_eq_self_iff.2 (exact_iff_grid_dvd.2 unit)]
  rcases Nat.lt_or_eq_of_le h with h | rfl
  · have log : n.log2 < l := (Nat.log2_lt (by rintro rfl; simp at large)).2 h
    have most := (digits_of_le large).2
    rw [digits, if_neg (Nat.not_lt.2 large)] at most
    calc rounded n ≤ 2 ^ 53 * grid n := Nat.mul_le_mul_right _ most
      _ = 2 ^ (53 + (n.log2 - 52)) := by rw [grid, ← Nat.pow_add]
      _ ≤ 2 ^ l := Nat.pow_le_pow_right (by decide) (by omega)
  · rw [rounded_eq_self_iff.2 ⟨1, l, by decide, (Nat.one_mul _).symm⟩]

/-! ### Signed words -/

/-- A whole number in the range of words is written as a finite decimal and read back rounded. -/
theorem round_ofInt {i : Int} (h : i.natAbs ≤ 2 ^ 63) :
    (ofInt i).isFinite = true ∧
      (ofInt i).round = if i < 0 then -(rounded i.natAbs : Int) else rounded i.natAbs := by
  by_cases hi : i = 0
  · subst hi
    decide
  have hn : i.natAbs ≠ 0 := Int.natAbs_ne_zero.2 hi
  have log : i.natAbs.log2 < 64 := (Nat.log2_lt hn).2 (h.trans_lt (by decide))
  have word := toNat_ofNat hn log
  have most := digits_le hn
  have positive : (ofNat i.natAbs).bits.toNat < 2 ^ 63 := by omega
  have same : (ofInt i).bits.toNat % 2 ^ 63 = (ofNat i.natAbs).bits.toNat := by
    rw [ofInt, withSign]
    split
    · rw [toNat_neg positive]
      omega
    · omega
  have sign : (ofInt i).negative = decide (i < 0) := by
    rw [Bool.eq_iff_iff, negative_iff, decide_eq_true_iff, ofInt, withSign]
    by_cases neg : i < 0
    · rw [decide_eq_true neg, if_pos rfl, toNat_neg positive]
      omega
    · rw [decide_eq_false neg, if_neg (by decide)]
      omega
  constructor
  · rw [isFinite_iff, same, word]
    omega
  · rw [round_eq, sign, size_of_ofNat hn log same]
    simp only [decide_eq_true_eq]

theorem ofIntClamp_of_lt {i : Int} (h : Int64.maxValue.toInt < i) :
    Int64.ofIntClamp i = Int64.maxValue := by
  have low : Int64.minValue.toInt ≤ i := le_trans (by decide) h.le
  rw [Int64.ofIntClamp, dif_pos low, dif_neg (Int.not_le.2 h)]

theorem ofIntClamp_of_gt {i : Int} (h : i < Int64.minValue.toInt) :
    Int64.ofIntClamp i = Int64.minValue := by
  rw [Int64.ofIntClamp, dif_neg (Int.not_le.2 h)]

/-- A word survives being written as a decimal and read again exactly when 53 digits hold it, or
when it is the greatest. -/
theorem roundToInt64_ofInt_iff (i : Int64) :
    (ofInt i.toInt).roundToInt64 = i ↔ i = Int64.maxValue ∨ Exact i.toInt.natAbs := by
  by_cases top : i = Int64.maxValue
  · subst top
    exact iff_of_true (by decide +kernel) (.inl rfl)
  have least := i.le_toInt
  have greatest := i.toInt_lt
  have below : i.toInt ≠ 2 ^ 63 - 1 := fun he => top (Int64.toInt_inj.1 he)
  obtain ⟨finite, round⟩ := round_ofInt (i := i.toInt) (by omega)
  have bound : rounded i.toInt.natAbs ≤ 2 ^ 63 := rounded_le (by omega)
  rw [roundToInt64, if_pos finite, round, or_iff_right top, ← rounded_eq_self_iff,
    ← Int64.toInt_inj]
  have lo : Int64.minValue.toInt = -2 ^ 63 := rfl
  have hi : Int64.maxValue.toInt = 2 ^ 63 - 1 := rfl
  split
  · rw [Int64.toInt_ofIntClamp (by omega) (by omega)]
    omega
  · by_cases fits : rounded i.toInt.natAbs < 2 ^ 63
    · rw [Int64.toInt_ofIntClamp (by omega) (by omega)]
      omega
    · rw [ofIntClamp_of_lt (by omega)]
      omega

theorem exact_roundToInt64 (x : Decimal) :
    x.roundToInt64 = Int64.maxValue ∨ Exact x.roundToInt64.toInt.natAbs := by
  have zero : Exact (0 : Int64).toInt.natAbs := ⟨0, 0, by decide, rfl⟩
  have least : Exact Int64.minValue.toInt.natAbs := ⟨1, 63, by decide, rfl⟩
  rw [roundToInt64]
  split
  · rcases lt_or_ge Int64.maxValue.toInt x.round with above | above
    · exact .inl (ofIntClamp_of_lt above)
    rcases lt_or_ge x.round Int64.minValue.toInt with below | below
    · rw [ofIntClamp_of_gt below]
      exact .inr least
    · have abs : x.round.natAbs = x.size := by
        rw [round_eq]
        split <;> omega
      rw [Int64.toInt_ofIntClamp below above, abs]
      exact .inr x.exact_size
  · rw [toInt64]
    split
    · exact .inr zero
    split
    · exact .inr least
    · exact .inl rfl

end Patchbay.Decimal
