import YbeProxy.NetStatus
import YbeProxy.Rounding

/-!
# The arithmetic of `float`

The estimates compute with IEEE binary32: 24 bits of significand, and results rounded to the nearest. No operand comes
near to 2^128, and no divisor is zero, so there is no infinity here.
-/

namespace YbeProxy.Binary32
open YbeProxy.NetStatus YbeProxy.Rounding

def single (x : ℚ) : ℚ := round 23 (-149) x

def binary32 : Floats ℚ where
  ofInt i := single i.toInt
  add a b := single (a + b)
  sub a b := single (a - b)
  div a b := single (a / b)
  neg a := -a
  lt a b := decide (a < b)
  lround x := .ofInt (roundAway x)

/-- A whole number of at most 24 bits is one of a `float`. -/
theorem single_intCast {n : ℤ} (small : |n| ≤ 2 ^ 24) : single n = n :=
  round_of_representable 23 (-149) (representable_intCast 23 (-149) small (by norm_num))

theorem single_neg (x : ℚ) : single (-x) = -single x := round_neg 23 (-149) x

/-- A `float` is not rounded across a whole number of at most 24 bits. -/
theorem le_single {n : ℤ} {x : ℚ} (small : |n| ≤ 2 ^ 24) (le : n ≤ x) : n ≤ single x :=
  le_round 23 (-149) (representable_intCast 23 (-149) small (by norm_num)) le

theorem single_le {n : ℤ} {x : ℚ} (small : |n| ≤ 2 ^ 24) (le : x ≤ n) : single x ≤ n :=
  round_le 23 (-149) (representable_intCast 23 (-149) small (by norm_num)) le

theorem single_nonneg {x : ℚ} (nonneg : 0 ≤ x) : 0 ≤ single x := by
  have bound := le_single (n := 0) (x := x) (by norm_num) (by exact_mod_cast nonneg)
  exact_mod_cast bound

theorem single_pos {n : ℤ} (positive : 0 < n) : 1 ≤ single n := by
  have bound := le_single (n := 1) (x := n) (by norm_num) (by exact_mod_cast positive)
  exact_mod_cast bound

/-! ## Rounded quotients -/

/-- A quotient of whole numbers that is less than a half lacks at least one part in `2 * d` of it. -/
theorem quotient_gap {N d n : ℤ} (positive : (0 : ℚ) < d) (under : (N / d : ℚ) < n + 1 / 2) :
    1 / (2 * d : ℚ) ≤ n + 1 / 2 - N / d := by
  rw [div_lt_iff₀ positive] at under
  have doubled : (2 * N : ℚ) < (2 * n + 1) * d := by linarith
  have whole : 2 * N < (2 * n + 1) * d := by exact_mod_cast doubled
  have next : (2 * N + 1 : ℚ) ≤ (2 * n + 1) * d := by exact_mod_cast whole
  have shared : (n : ℚ) + 1 / 2 - N / d = ((2 * n + 1) * d - 2 * N) / (2 * d) := by
    field_simp
  rw [shared]
  exact div_le_div_of_nonneg_right (by linarith) (by positivity)

/-- The error of a quotient of small whole numbers is less than that part. -/
theorem quotient_error {N d : ℤ} (nonneg : (0 : ℚ) ≤ N) (small : (N : ℚ) ≤ 2 ^ 16) (positive : (0 : ℚ) < d)
    (short : (d : ℚ) ≤ 2 ^ 24) : |single (N / d) - N / d| < 1 / (2 * d : ℚ) := by
  have error : |single (N / d) - N / d| ≤ |(N / d : ℚ)| / 2 ^ (23 + 1) + 2 ^ (-149 : ℤ) :=
    round_error 23 (-149) (N / d : ℚ)
  rw [abs_of_nonneg (div_nonneg nonneg positive.le)] at error
  have share : (N / d : ℚ) / 2 ^ (23 + 1) ≤ 1 / (256 * d) := by
    rw [div_div, div_le_div_iff₀ (by positivity) (by positivity)]
    have scaled := mul_le_mul_of_nonneg_right small (by positivity : (0 : ℚ) ≤ 256 * d)
    norm_num at scaled ⊢
    linarith
  have least : (2 : ℚ) ^ (-149 : ℤ) ≤ 1 / (256 * d) := by
    rw [le_div_iff₀ (by positivity), zpow_neg, inv_mul_le_iff₀ (by positivity)]
    norm_num at short ⊢
    linarith
  have parts : 1 / (256 * d : ℚ) + 1 / (256 * d) < 1 / (2 * d) := by
    rw [← two_mul, mul_one_div, div_lt_div_iff₀ (by positivity) (by positivity)]
    linarith
  linarith

theorem roundAway_quotient_pos {N d : ℤ} (nonneg : 0 ≤ N) (small : N ≤ 2 ^ 16) (positive : 0 < d) :
    roundAway (single (N / single d)) = roundAway (N / d) := by
  have rational : (0 : ℚ) < d := by exact_mod_cast positive
  have top : (N : ℚ) ≤ 2 ^ 16 := by exact_mod_cast small
  have bottom : (0 : ℚ) ≤ N := by exact_mod_cast nonneg
  by_cases short : d ≤ 2 ^ 24
  · rw [single_intCast (by rw [abs_of_pos positive]; exact short)]
    refine roundAway_round 23 (-149) (by positivity) ?_ (by norm_num) ?_
    · rw [div_le_iff₀ rational]
      have one : (1 : ℚ) ≤ d := by exact_mod_cast positive
      linarith
    · intro n under
      have error := quotient_error bottom top rational (by exact_mod_cast short)
      exact error.trans_le (quotient_gap rational under)
  · -- From 2^24 on both quotients go to zero, whatever the divisor is rounded to.
    have long : (2 : ℚ) ^ 24 ≤ d := by exact_mod_cast (not_le.mp short).le
    have large : (2 : ℚ) ^ 24 ≤ single d := by
      have whole := le_single (n := 2 ^ 24) (x := d) (by norm_num) (by exact_mod_cast long)
      exact_mod_cast whole
    have quotient {s : ℚ} (least : 2 ^ 24 ≤ s) : 0 ≤ N / s ∧ N / s ≤ 1 / 256 := by
      have divisor : 0 < s := lt_of_lt_of_le (by positivity) least
      refine ⟨by positivity, ?_⟩
      rw [div_le_div_iff₀ divisor (by norm_num)]
      linarith
    obtain ⟨lower, upper⟩ := quotient large
    obtain ⟨lower', upper'⟩ := quotient long
    have near : |single (N / single d) - N / single d| ≤ |(N / single d : ℚ)| := abs_round_sub_le 23 (-149) _
    rw [abs_of_nonneg lower, abs_le] at near
    obtain ⟨above, below⟩ := near
    have zero : roundAway (N / d) = 0 := roundAway_eq lower' (by push_cast; linarith) (by push_cast; linarith)
    rw [zero]
    exact roundAway_eq (by linarith) (by push_cast; linarith) (by push_cast; linarith)

/-- The quotient of a small whole number and another one, in `float`s, goes to the same whole number as the exact one. -/
theorem roundAway_quotient {N d : ℤ} (nonneg : 0 ≤ N) (small : N ≤ 2 ^ 16) (nonzero : d ≠ 0) :
    roundAway (single (N / single d)) = roundAway (N / d) := by
  rcases nonzero.lt_or_gt with negative | positive
  · have opposite := roundAway_quotient_pos nonneg small (neg_pos.mpr negative)
    rw [Int.cast_neg, single_neg, div_neg, div_neg, single_neg, roundAway_neg, roundAway_neg] at opposite
    exact neg_injective opposite
  · exact roundAway_quotient_pos nonneg small positive

end YbeProxy.Binary32
