import Mathlib.Data.Rat.Floor
import Mathlib.Tactic.Linarith
import Mathlib.Tactic.Ring

/-!
# Integer division rounded up

`std::ceil(a / (double)b)` computes the ceiling of a quotient of two integers.
The integer ceiling below is the least number of blocks of size `b` that covers
`a`; it is stated over all integers because the callers also divide differences
that may be negative.
-/

namespace IntDiv

/-- The quotient of two integers rounded towards positive infinity. -/
def ceilDiv (dividend divisor : Int) : Int := -Int.fdiv (-dividend) divisor

variable {dividend divisor : Int}

theorem eq_neg_ediv (positive : 0 < divisor) :
    ceilDiv dividend divisor = -((-dividend) / divisor) := by
  rw [ceilDiv, Int.fdiv_eq_ediv_of_nonneg _ positive.le]

theorem neg_neg (dividend divisor : Int) :
    ceilDiv (-dividend) (-divisor) = ceilDiv dividend divisor := by
  rw [ceilDiv, ceilDiv, Int.neg_fdiv_neg]

/-- The definition is the ceiling of the rational quotient. -/
theorem eq_ceil (nonzero : divisor ≠ 0) :
    ceilDiv dividend divisor = ⌈(dividend : ℚ) / divisor⌉ := by
  have ofPos : ∀ {dividend divisor : Int}, 0 < divisor →
      ceilDiv dividend divisor = ⌈(dividend : ℚ) / divisor⌉ := by
    intro dividend divisor positive
    obtain ⟨divisor, rfl⟩ := Int.eq_ofNat_of_zero_le positive.le
    rw [eq_neg_ediv positive, Int.cast_natCast, Rat.ceil_intCast_div_natCast]
  rcases lt_or_gt_of_ne nonzero with negative | positive
  · rw [← neg_neg, ofPos (neg_pos.mpr negative), Int.cast_neg, Int.cast_neg, neg_div_neg_eq]
  · exact ofPos positive

/-- Enough blocks cover the dividend. -/
theorem le_mul (positive : 0 < divisor) :
    dividend ≤ ceilDiv dividend divisor * divisor := by
  rw [eq_neg_ediv positive]
  have := Int.ediv_mul_le (-dividend) positive.ne'
  linarith [neg_mul ((-dividend) / divisor) divisor]

/-- One block less does not cover the dividend. -/
theorem sub_one_mul_lt (positive : 0 < divisor) :
    (ceilDiv dividend divisor - 1) * divisor < dividend := by
  rw [eq_neg_ediv positive]
  have := Int.lt_ediv_add_one_mul_self (-dividend) positive
  linarith [neg_mul ((-dividend) / divisor + 1) divisor,
    show (-((-dividend) / divisor) - 1) * divisor =
      -(((-dividend) / divisor + 1) * divisor) by ring]

theorem pos (positive : 0 < divisor) (dividendPos : 0 < dividend) :
    0 < ceilDiv dividend divisor := by
  have covers : dividend ≤ ceilDiv dividend divisor * divisor := le_mul positive
  by_contra notPos
  have : ceilDiv dividend divisor * divisor ≤ 0 :=
    mul_nonpos_of_nonpos_of_nonneg (by omega) positive.le
  omega

end IntDiv
