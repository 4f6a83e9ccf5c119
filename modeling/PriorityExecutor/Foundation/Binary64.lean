import Mathlib.Data.Int.Log
import Mathlib.Data.Rat.Floor
import Mathlib.Tactic.Positivity
import PriorityExecutor.Foundation.CeilDiv

/-!
# Quotients in double precision

A double has 53 significant bits, and an operation rounds its exact result to the nearest
one, to the even one of two.  Overflow and subnormal numbers are left out: nothing below
leaves the range of exponents.

The ceiling of a quotient survives the rounding as long as the operands are below 2^53.
A quotient of such integers is away from the integer below it by more than the rounding
can take off.
-/

namespace Binary64

/-- The integer nearest to `value`, and the even one of two. -/
def roundHalfEven (value : ℚ) : ℤ :=
  if Int.fract value < 1 / 2 then ⌊value⌋
  else if 1 / 2 < Int.fract value then ⌊value⌋ + 1
  else if ⌊value⌋ % 2 = 0 then ⌊value⌋ else ⌊value⌋ + 1

/-- The distance of the doubles around `value`. -/
def ulp (value : ℚ) : ℚ := 2 ^ (Int.log 2 |value| - 52)

/-- The double nearest to `value`. -/
def round (value : ℚ) : ℚ := roundHalfEven (value / ulp value) * ulp value

variable {value : ℚ}

theorem ulp_pos (value : ℚ) : 0 < ulp value := zpow_pos two_pos _

/-! ## Rounding to an integer -/

theorem sub_half_le_roundHalfEven (value : ℚ) : value - 1 / 2 ≤ roundHalfEven value := by
  have split : (⌊value⌋ : ℚ) + Int.fract value = value := Int.floor_add_fract value
  have below : Int.fract value < 1 := Int.fract_lt_one value
  rw [roundHalfEven]
  split_ifs <;> push_cast <;> linarith

theorem roundHalfEven_le_of_le {bound : ℤ} (le : value ≤ bound) :
    roundHalfEven value ≤ bound := by
  have floorLe : ⌊value⌋ ≤ bound := Int.floor_le_iff.mpr (le.trans_lt (lt_add_one _))
  by_cases below : ⌊value⌋ < bound
  · rw [roundHalfEven]
    split_ifs <;> omega
  · -- the value is the bound, and an integer is not rounded
    have floorEq : ⌊value⌋ = bound := le_antisymm floorLe (not_lt.mp below)
    have fractEq : Int.fract value = 0 := by
      have nonneg : 0 ≤ Int.fract value := Int.fract_nonneg value
      rw [Int.fract, floorEq] at nonneg ⊢
      linarith
    rw [roundHalfEven, if_pos (by rw [fractEq]; norm_num)]
    exact floorLe

theorem le_roundHalfEven_of_le {bound : ℤ} (le : bound ≤ value) :
    bound ≤ roundHalfEven value := by
  have floorGe : bound ≤ ⌊value⌋ := Int.le_floor.mpr le
  rw [roundHalfEven]
  split_ifs <;> omega

/-! ## Rounding to a double -/

/-- The rounding takes off half of the distance at most. -/
theorem sub_half_ulp_le_round (value : ℚ) : value - ulp value / 2 ≤ round value := by
  have positive : 0 < ulp value := ulp_pos value
  have scaled := mul_le_mul_of_nonneg_right
    (sub_half_le_roundHalfEven (value / ulp value)) positive.le
  rw [sub_mul, div_mul_cancel₀ _ positive.ne'] at scaled
  rw [round]
  linarith

/-- Half of the distance is a 2^53rd of the value at most. -/
theorem half_ulp_le (nonzero : value ≠ 0) : ulp value / 2 ≤ |value| / 2 ^ 53 := by
  have power : (2 : ℚ) ^ Int.log 2 |value| ≤ |value| :=
    Int.zpow_log_le_self one_lt_two (abs_pos.mpr nonzero)
  have distance : ulp value / 2 = 2 ^ Int.log 2 |value| / 2 ^ 53 := by
    rw [ulp, zpow_sub₀ two_ne_zero]
    norm_num
    ring
  rw [distance]
  exact div_le_div_of_nonneg_right power (by positivity)

/-- Below 2^53 every integer is a multiple of the distance. -/
theorem exists_mul_ulp (small : |value| < 2 ^ 53) (number : ℤ) :
    ∃ multiple : ℤ, (number : ℚ) = multiple * ulp value := by
  by_cases zero : value = 0
  · refine ⟨number * 2 ^ 52, ?_⟩
    rw [ulp, zero]
    norm_num
    ring
  · have exponent : Int.log 2 |value| ≤ 52 := by
      have below : Int.log 2 |value| < 53 := by
        rw [← Int.lt_zpow_iff_log_lt one_lt_two (abs_pos.mpr zero)]
        exact_mod_cast small
      omega
    obtain ⟨bits, bitsEq⟩ := Int.eq_ofNat_of_zero_le (sub_nonneg.mpr exponent)
    refine ⟨number * 2 ^ bits, ?_⟩
    have inverse : (2 : ℚ) ^ bits * ulp value = 1 := by
      rw [ulp, ← zpow_natCast, ← zpow_add₀ two_ne_zero]
      have cancels : (bits : ℤ) + (Int.log 2 |value| - 52) = 0 := by
        rw [← bitsEq]
        ring
      rw [cancels, zpow_zero]
    rw [Int.cast_mul, Int.cast_pow, Int.cast_ofNat, mul_assoc, inverse, mul_one]

theorem round_le_of_le (small : |value| < 2 ^ 53) {bound : ℤ} (le : value ≤ bound) :
    round value ≤ bound := by
  obtain ⟨multiple, multipleEq⟩ := exists_mul_ulp small bound
  have positive : 0 < ulp value := ulp_pos value
  rw [multipleEq, ← div_le_iff₀ positive] at le
  rw [round, multipleEq]
  exact mul_le_mul_of_nonneg_right (Int.cast_le.mpr (roundHalfEven_le_of_le le)) positive.le

/-- Integers below 2^53 are doubles. -/
theorem round_intCast {number : ℤ} (small : |number| < 2 ^ 53) :
    round (number : ℚ) = number := by
  have smallCast : |(number : ℚ)| < 2 ^ 53 := by exact_mod_cast small
  obtain ⟨multiple, multipleEq⟩ := exists_mul_ulp smallCast number
  have positive : 0 < ulp (number : ℚ) := ulp_pos _
  have scaled : (number : ℚ) / ulp (number : ℚ) = multiple := by
    rw [div_eq_iff positive.ne']
    exact multipleEq
  have exact' : roundHalfEven ((number : ℚ) / ulp (number : ℚ)) = multiple :=
    le_antisymm (roundHalfEven_le_of_le scaled.le) (le_roundHalfEven_of_le scaled.ge)
  rw [round, exact', ← multipleEq]

/-- A positive value is not rounded to zero. -/
theorem round_pos (positive : 0 < value) : 0 < round value := by
  have ulpPos : 0 < ulp value := ulp_pos value
  have power : (2 : ℚ) ^ Int.log 2 |value| ≤ |value| :=
    Int.zpow_log_le_self one_lt_two (abs_pos.mpr positive.ne')
  rw [abs_of_pos positive] at power
  have least : ((1 : ℤ) : ℚ) ≤ value / ulp value := by
    rw [le_div_iff₀ ulpPos, Int.cast_one, one_mul, ulp, abs_of_pos positive]
    refine le_trans ?_ power
    exact zpow_le_zpow_right₀ one_le_two (by omega)
  have atLeast : 1 ≤ roundHalfEven (value / ulp value) := le_roundHalfEven_of_le least
  rw [round]
  exact mul_pos (Int.cast_pos.mpr (by omega)) ulpPos

/-! ## The ceiling of a quotient -/

/-- The quotient of two integers is above the integer below it by more than a rounding
takes off. -/
theorem lt_sub_half_ulp {dividend divisor bound : ℤ} (small : |dividend| < 2 ^ 53)
    (nonzero : divisor ≠ 0) (above : (bound : ℚ) < (dividend : ℚ) / divisor) :
    (bound : ℚ) < (dividend : ℚ) / divisor - ulp ((dividend : ℚ) / divisor) / 2 := by
  have divisorCast : (divisor : ℚ) ≠ 0 := Int.cast_ne_zero.mpr nonzero
  have positive : 0 < |(divisor : ℚ)| := abs_pos.mpr divisorCast
  by_cases zero : dividend = 0
  · -- then half of the distance is far below 1
    rw [zero, Int.cast_zero, zero_div] at above ⊢
    have distance : ulp (0 : ℚ) / 2 < 1 := by
      rw [ulp]
      norm_num
    have atMost : (bound : ℚ) ≤ -1 := by
      have negative : bound < 0 := Int.cast_lt_zero.mp above
      exact_mod_cast Int.le_sub_one_of_lt negative
    linarith
  · have valueNonzero : (dividend : ℚ) / divisor ≠ 0 :=
      div_ne_zero (Int.cast_ne_zero.mpr zero) divisorCast
    have half := half_ulp_le valueNonzero
    -- over the common denominator the two are apart by an integer
    have apart : (1 : ℚ) ≤ |(divisor : ℚ)| * ((dividend : ℚ) / divisor - bound) := by
      have difference : |(divisor : ℚ)| * ((dividend : ℚ) / divisor - bound) =
          ((|dividend - bound * divisor| : ℤ) : ℚ) := by
        rw [← abs_of_pos (sub_pos.mpr above), ← abs_mul, Int.cast_abs]
        push_cast
        congr 1
        field_simp
      rw [difference]
      have differ : 0 < |(divisor : ℚ)| * ((dividend : ℚ) / divisor - bound) :=
        mul_pos positive (sub_pos.mpr above)
      rw [difference] at differ
      exact_mod_cast Int.cast_pos.mp differ
    have scaled : |(divisor : ℚ)| * (|(dividend : ℚ) / divisor| / 2 ^ 53) < 1 := by
      rw [abs_div, ← mul_div_assoc, mul_div_cancel₀ _ positive.ne', div_lt_one (by positivity)]
      exact_mod_cast small
    have closer : |(dividend : ℚ) / divisor| / 2 ^ 53 < (dividend : ℚ) / divisor - bound :=
      lt_of_mul_lt_mul_left (scaled.trans_le apart) positive.le
    linarith

theorem ceil_round_div {dividend divisor : ℤ} (small : |dividend| < 2 ^ 53)
    (nonzero : divisor ≠ 0) :
    ⌈round ((dividend : ℚ) / divisor)⌉ = ⌈(dividend : ℚ) / divisor⌉ := by
  have quotientSmall : |(dividend : ℚ) / divisor| < 2 ^ 53 := by
    have atLeast : (1 : ℚ) ≤ |(divisor : ℚ)| := by
      exact_mod_cast Int.one_le_abs nonzero
    rw [abs_div]
    refine (div_le_self (abs_nonneg _) atLeast).trans_lt ?_
    exact_mod_cast small
  rw [Int.ceil_eq_iff]
  constructor
  · have above : ((⌈(dividend : ℚ) / divisor⌉ - 1 : ℤ) : ℚ) < (dividend : ℚ) / divisor := by
      push_cast
      linarith [Int.ceil_lt_add_one ((dividend : ℚ) / divisor)]
    have kept := lt_sub_half_ulp small nonzero above
    push_cast at kept
    exact kept.trans_le (sub_half_ulp_le_round _)
  · exact round_le_of_le quotientSmall (Int.le_ceil _)

/-- `std::ceil(dividend / (double)divisor)`: both operands are rounded, and their quotient. -/
def ceilOfRounded (dividend divisor : ℤ) : ℤ :=
  ⌈round (round dividend / round divisor)⌉

/-- The same, in integers as long as no operand is rounded. -/
def ceilQuotient (dividend divisor : ℤ) : ℤ :=
  if dividend.natAbs < 2 ^ 53 ∧ divisor.natAbs < 2 ^ 53 then
    IntDiv.ceilDiv dividend divisor
  else
    ceilOfRounded dividend divisor

/-- The shortcut is no change of the function. -/
theorem ceilQuotient_eq {dividend divisor : ℤ} (nonzero : divisor ≠ 0) :
    ceilQuotient dividend divisor = ceilOfRounded dividend divisor := by
  rw [ceilQuotient]
  split_ifs with small
  · have dividendSmall : |dividend| < 2 ^ 53 := by
      rw [Int.abs_eq_natAbs]
      omega
    have divisorSmall : |divisor| < 2 ^ 53 := by
      rw [Int.abs_eq_natAbs]
      omega
    rw [ceilOfRounded, round_intCast dividendSmall, round_intCast divisorSmall,
      ceil_round_div dividendSmall nonzero, IntDiv.eq_ceil nonzero]
  · rfl

theorem ceilQuotient_of_lt {dividend divisor : ℤ} (dividendSmall : |dividend| < 2 ^ 53)
    (divisorSmall : |divisor| < 2 ^ 53) :
    ceilQuotient dividend divisor = IntDiv.ceilDiv dividend divisor := by
  rw [Int.abs_eq_natAbs] at dividendSmall divisorSmall
  rw [ceilQuotient, if_pos (by omega)]

/-- A positive quotient has a positive ceiling, however far it is rounded. -/
theorem ceilQuotient_pos {dividend divisor : ℤ} (dividendPos : 0 < dividend)
    (divisorPos : 0 < divisor) : 0 < ceilQuotient dividend divisor := by
  rw [ceilQuotient_eq divisorPos.ne', ceilOfRounded, Int.ceil_pos]
  apply round_pos
  apply div_pos
  · exact round_pos (Int.cast_pos.mpr dividendPos)
  · exact round_pos (Int.cast_pos.mpr divisorPos)

end Binary64
