import Mathlib.Data.Int.Log
import Mathlib.Data.Rat.Floor
import Mathlib.Tactic.Linarith

/-!
# Rounding to a binary format

The numbers of a binary format are the rationals `m * 2 ^ e` with a significand of some number of bits and an exponent
that is not less than a least one. A result is rounded to the nearest of them, and of two such to the even one. There
is no greatest number: results that overflow, and the two signs of zero, are outside the format.
-/

namespace YbeProxy.Rounding

/-! ## To a whole number -/

def roundEven (x : ℚ) : ℤ :=
  if x - ⌊x⌋ < 1 / 2 then ⌊x⌋ else if 1 / 2 < x - ⌊x⌋ then ⌊x⌋ + 1 else if 2 ∣ ⌊x⌋ then ⌊x⌋ else ⌊x⌋ + 1

/-- Halves go away from zero. -/
def roundAway (x : ℚ) : ℤ := if 0 ≤ x then ⌊x + 1 / 2⌋ else -⌊-x + 1 / 2⌋

theorem roundEven_near (x : ℚ) : |roundEven x - x| ≤ 1 / 2 := by
  have lower := Int.floor_le x
  have upper := Int.lt_floor_add_one x
  unfold roundEven
  rw [abs_le]
  split_ifs with low high even
  · constructor <;> linarith
  · push_cast
    constructor <;> linarith
  · constructor <;> linarith
  · push_cast
    constructor <;> linarith

theorem roundEven_nearest (x : ℚ) (n : ℤ) : |roundEven x - x| ≤ |n - x| := by
  have near := roundEven_near x
  by_cases same : n = roundEven x
  · rw [same]
  · have apart : (1 : ℚ) ≤ |(n : ℚ) - roundEven x| := by
      have whole : (1 : ℤ) ≤ |n - roundEven x| := Int.one_le_abs (sub_ne_zero.mpr same)
      exact_mod_cast whole
    have triangle := abs_sub_le (n : ℚ) x (roundEven x)
    rw [abs_sub_comm x] at triangle
    linarith

theorem roundEven_intCast (n : ℤ) : roundEven n = n := by simp [roundEven]

theorem roundEven_neg (x : ℚ) : roundEven (-x) = -roundEven x := by
  have lower := Int.floor_le x
  have upper := Int.lt_floor_add_one x
  rcases lower.eq_or_lt with whole | inside
  · rw [← whole, ← Int.cast_neg, roundEven_intCast, roundEven_intCast]
  · have below : ⌊-x⌋ = -⌊x⌋ - 1 := by
      rw [Int.floor_eq_iff]
      push_cast
      constructor <;> linarith
    unfold roundEven
    rw [below]
    push_cast
    split_ifs <;> first | omega | linarith

/-! ## To a number of the format -/

variable (bits : ℕ) (least : ℤ)

/-- The exponent of the last bit that a number keeps. -/
def grid (x : ℚ) : ℤ := max least (Int.log 2 |x| - bits)

def round (x : ℚ) : ℚ := roundEven (x / 2 ^ grid bits least x) * 2 ^ grid bits least x

def Representable (x : ℚ) : Prop := ∃ m e : ℤ, |m| ≤ 2 ^ (bits + 1) ∧ least ≤ e ∧ x = m * 2 ^ e

theorem two_zpow_pos (e : ℤ) : (0 : ℚ) < 2 ^ e := zpow_pos (by norm_num) e

/-- A number is less than the significand can hold, in units of its last bit. -/
theorem abs_div_grid_lt (x : ℚ) : |x / 2 ^ grid bits least x| < 2 ^ (bits + 1) := by
  rw [abs_div, abs_of_pos (two_zpow_pos _), div_lt_iff₀ (two_zpow_pos _)]
  have bound := Int.lt_zpow_succ_log_self (R := ℚ) (b := 2) (by norm_num) |x|
  refine bound.trans_le ?_
  rw [← zpow_natCast (2 : ℚ) (bits + 1), ← zpow_add₀ (by norm_num)]
  apply zpow_le_zpow_right₀ (by norm_num)
  unfold grid
  omega

theorem round_representable (x : ℚ) : Representable bits least (round bits least x) := by
  refine ⟨roundEven (x / 2 ^ grid bits least x), grid bits least x, ?_, le_max_left _ _, rfl⟩
  have inside := abs_div_grid_lt bits least x
  have near := roundEven_near (x / 2 ^ grid bits least x)
  generalize x / 2 ^ grid bits least x = y at *
  have whole : |(roundEven y : ℚ)| < 2 ^ (bits + 1) + 1 := by
    have triangle := abs_sub_abs_le_abs_sub (roundEven y : ℚ) y
    linarith
  have strict : |roundEven y| < 2 ^ (bits + 1) + 1 := by exact_mod_cast whole
  omega

/-- A number of the format with a larger last bit is a multiple of this one. -/
theorem multiple_of_grid {x : ℚ} {m e : ℤ} (coarser : grid bits least x ≤ e) :
    ∃ n : ℤ, (m * 2 ^ e : ℚ) = n * 2 ^ grid bits least x := by
  refine ⟨m * 2 ^ (e - grid bits least x).toNat, ?_⟩
  push_cast
  rw [mul_assoc, ← zpow_natCast (2 : ℚ), ← zpow_add₀ (by norm_num)]
  congr 2
  omega

theorem abs_multiple_sub (x : ℚ) (n : ℤ) :
    |n * 2 ^ grid bits least x - x| = |n - x / 2 ^ grid bits least x| * 2 ^ grid bits least x := by
  have positive := two_zpow_pos (grid bits least x)
  rw [← abs_of_pos positive, ← abs_mul, sub_mul, abs_of_pos positive, div_mul_cancel₀ _ positive.ne']

/-- No multiple of the last bit of a number is nearer than its rounding. -/
theorem round_nearest_multiple (x : ℚ) (n : ℤ) :
    |round bits least x - x| ≤ |n * 2 ^ grid bits least x - x| := by
  rw [round, abs_multiple_sub, abs_multiple_sub]
  exact mul_le_mul_of_nonneg_right (roundEven_nearest _ n) (two_zpow_pos _).le

/-- Above the least exponent a number has all the bits of the significand. -/
theorem le_abs_of_least_lt {x : ℚ} (nonzero : x ≠ 0) (above : least < grid bits least x) :
    2 ^ bits * 2 ^ grid bits least x ≤ |x| := by
  have exact : grid bits least x = Int.log 2 |x| - bits := by
    unfold grid at above ⊢
    omega
  rw [exact, ← zpow_natCast (2 : ℚ) bits, ← zpow_add₀ (by norm_num), add_sub_cancel]
  exact_mod_cast Int.zpow_log_le_self (R := ℚ) (b := 2) (by norm_num) (abs_pos.mpr nonzero)

theorem round_zero : round bits least 0 = 0 := by simp [round, roundEven]

/-- No number of the format is nearer than the rounding. -/
theorem round_nearest (x : ℚ) {r : ℚ} (known : Representable bits least r) :
    |round bits least x - x| ≤ |r - x| := by
  obtain ⟨m, e, small, lower, rfl⟩ := known
  by_cases nonzero : x = 0
  · subst nonzero
    rw [round_zero, sub_zero, abs_zero]
    exact abs_nonneg _
  by_cases coarser : grid bits least x ≤ e
  · obtain ⟨n, same⟩ := multiple_of_grid bits least coarser
    rw [same]
    exact round_nearest_multiple bits least x n
  -- A finer number of the format is not above the least one with the exponent of `x`, which lies between.
  have full := le_abs_of_least_lt bits least nonzero (by omega)
  have fine : |(m * 2 ^ e : ℚ)| ≤ 2 ^ bits * 2 ^ grid bits least x := by
    have bound : |(m : ℚ)| ≤ 2 ^ (bits + 1) := by exact_mod_cast small
    have step : (2 : ℚ) ^ e ≤ 2 ^ (grid bits least x - 1) := zpow_le_zpow_right₀ (by norm_num) (by omega)
    calc |(m * 2 ^ e : ℚ)| = |(m : ℚ)| * 2 ^ e := by rw [abs_mul, abs_of_pos (two_zpow_pos e)]
      _ ≤ 2 ^ (bits + 1) * 2 ^ (grid bits least x - 1) :=
        mul_le_mul bound step (two_zpow_pos e).le (by positivity)
      _ = 2 ^ bits * 2 ^ grid bits least x := by
        rw [zpow_sub_one₀ (by norm_num)]
        ring
  have between : |round bits least x - x| ≤ |x| - 2 ^ bits * 2 ^ grid bits least x := by
    rcases abs_cases x with ⟨value, _⟩ | ⟨value, _⟩
    · have near := round_nearest_multiple bits least x (2 ^ bits)
      have gap : |2 ^ bits * 2 ^ grid bits least x - x| = |x| - 2 ^ bits * 2 ^ grid bits least x := by
        rw [abs_sub_comm, abs_of_nonneg (by linarith), value]
      push_cast at near
      linarith
    · have near := round_nearest_multiple bits least x (-2 ^ bits)
      have gap : |-2 ^ bits * 2 ^ grid bits least x - x| = |x| - 2 ^ bits * 2 ^ grid bits least x := by
        rw [abs_of_nonneg (by linarith), value]
        ring
      push_cast at near
      linarith
  have away := abs_sub_abs_le_abs_sub x (m * 2 ^ e)
  rw [abs_sub_comm x] at away
  linarith

/-! ## What follows from the nearest -/

theorem round_of_representable {x : ℚ} (known : Representable bits least x) : round bits least x = x := by
  have near := round_nearest bits least x known
  rw [sub_self, abs_zero] at near
  exact sub_eq_zero.mp (abs_nonpos_iff.mp near)

/-- A rounding is at most twice as great, whatever the exponent. -/
theorem abs_round_sub_le (x : ℚ) : |round bits least x - x| ≤ |x| := by
  have zero : Representable bits least 0 := ⟨0, least, by positivity, le_refl _, by simp⟩
  have near := round_nearest bits least x zero
  rwa [zero_sub, abs_neg] at near

theorem round_mono {x y : ℚ} (le : x ≤ y) : round bits least x ≤ round bits least y := by
  rcases le.eq_or_lt with rfl | lt
  · exact le_refl _
  by_contra crossed
  rw [not_le] at crossed
  have first := round_nearest bits least x (round_representable bits least y)
  have second := round_nearest bits least y (round_representable bits least x)
  -- The middle of the two roundings is on the wrong side of both numbers.
  rcases abs_cases (round bits least x - x) with ⟨a, _⟩ | ⟨a, _⟩ <;>
    rcases abs_cases (round bits least y - x) with ⟨b, _⟩ | ⟨b, _⟩ <;>
    rcases abs_cases (round bits least y - y) with ⟨c, _⟩ | ⟨c, _⟩ <;>
    rcases abs_cases (round bits least x - y) with ⟨d, _⟩ | ⟨d, _⟩ <;> linarith

theorem round_le {x r : ℚ} (known : Representable bits least r) (le : x ≤ r) : round bits least x ≤ r := by
  rw [← round_of_representable bits least known]
  exact round_mono bits least le

theorem le_round {x r : ℚ} (known : Representable bits least r) (le : r ≤ x) : r ≤ round bits least x := by
  rw [← round_of_representable bits least known]
  exact round_mono bits least le

theorem round_neg (x : ℚ) : round bits least (-x) = -round bits least x := by
  simp only [round, grid, abs_neg, neg_div, roundEven_neg]
  push_cast
  ring

/-- The error is at most half of the last bit. -/
theorem round_error (x : ℚ) : |round bits least x - x| ≤ |x| / 2 ^ (bits + 1) + 2 ^ least := by
  by_cases nonzero : x = 0
  · subst nonzero
    simp [round_zero, (two_zpow_pos least).le]
  have half : |round bits least x - x| ≤ 2 ^ grid bits least x / 2 := by
    have near := mul_le_mul_of_nonneg_right (roundEven_near (x / 2 ^ grid bits least x))
      (two_zpow_pos (grid bits least x)).le
    rw [round, abs_multiple_sub]
    linarith
  have positive := two_zpow_pos least
  have relative : 0 ≤ |x| / 2 ^ (bits + 1) := by positivity
  by_cases above : least < grid bits least x
  · have full := le_abs_of_least_lt bits least nonzero above
    have share : (2 : ℚ) ^ grid bits least x / 2 ≤ |x| / 2 ^ (bits + 1) := by
      rw [le_div_iff₀ (by positivity), pow_succ]
      linarith
    linarith
  · have same : grid bits least x = least := le_antisymm (not_lt.mp above) (le_max_left _ _)
    rw [same] at half
    linarith

/-- Whole numbers that the significand can hold are numbers of the format. -/
theorem representable_intCast {m : ℤ} (small : |m| ≤ 2 ^ (bits + 1)) (below : least ≤ 0) :
    Representable bits least m :=
  ⟨m, 0, small, below, by simp⟩

theorem roundAway_neg (x : ℚ) : roundAway (-x) = -roundAway x := by
  unfold roundAway
  rw [neg_neg]
  rcases lt_trichotomy x 0 with negative | rfl | positive
  · rw [if_pos (by linarith), if_neg (by linarith), neg_neg]
  · norm_num
  · rw [if_neg (by linarith), if_pos (by linarith)]

theorem roundAway_intCast (n : ℤ) : roundAway n = n := by
  unfold roundAway
  split_ifs
  · rw [Int.floor_intCast_add]
    norm_num
  · rw [← Int.cast_neg, Int.floor_intCast_add]
    norm_num

theorem abs_roundAway_le (x : ℚ) : |(roundAway x : ℚ)| ≤ |x| + 1 / 2 := by
  unfold roundAway
  split_ifs with sign
  · have lower := Int.lt_floor_add_one (x + 1 / 2)
    have upper := Int.floor_le (x + 1 / 2)
    rw [abs_of_nonneg sign, abs_le]
    constructor <;> linarith
  · have lower := Int.lt_floor_add_one (-x + 1 / 2)
    have upper := Int.floor_le (-x + 1 / 2)
    rw [abs_of_neg (not_le.mp sign), Int.cast_neg, abs_neg, abs_le]
    constructor <;> linarith

theorem roundAway_mem {x : ℚ} {n : ℤ} (nonneg : 0 ≤ x) (le : x ≤ n) : 0 ≤ roundAway x ∧ roundAway x ≤ n := by
  rw [roundAway, if_pos nonneg]
  refine ⟨Int.floor_nonneg.mpr (by linarith), Int.lt_add_one_iff.mp (Int.floor_lt.mpr ?_)⟩
  push_cast
  linarith

theorem roundAway_eq {x : ℚ} {n : ℤ} (nonneg : 0 ≤ x) (lower : n - 1 / 2 ≤ x) (upper : x < n + 1 / 2) :
    roundAway x = n := by
  rw [roundAway, if_pos nonneg, Int.floor_eq_iff]
  constructor <;> linarith

/-- A number that the format rounds by less than what it lacks to the next half goes to the same whole number. -/
theorem roundAway_round {x : ℚ} (nonneg : 0 ≤ x) (small : x ≤ 2 ^ bits) (below : least ≤ -1)
    (apart : ∀ n : ℤ, x < n + 1 / 2 → |round bits least x - x| < n + 1 / 2 - x) :
    roundAway (round bits least x) = roundAway x := by
  have lower := Int.floor_le (x + 1 / 2)
  have upper := Int.lt_floor_add_one (x + 1 / 2)
  have count : 0 ≤ ⌊x + 1 / 2⌋ := Int.floor_nonneg.mpr (by linarith)
  have zero : Representable bits least (0 : ℤ) := representable_intCast bits least (by simp) (by omega)
  have positive : 0 ≤ round bits least x := by
    have bound := le_round bits least zero (by simpa using nonneg)
    simpa using bound
  rw [roundAway_eq nonneg (n := ⌊x + 1 / 2⌋) (by linarith) (by linarith)]
  refine roundAway_eq positive ?_ ?_
  · have half : Representable bits least (⌊x + 1 / 2⌋ - 1 / 2) := by
      refine ⟨2 * ⌊x + 1 / 2⌋ - 1, -1, ?_, below, ?_⟩
      · have fits : (2 * ⌊x + 1 / 2⌋ - 1 : ℚ) ≤ 2 ^ (bits + 1) := by
          rw [pow_succ]
          linarith
        have room : (1 : ℤ) ≤ 2 ^ (bits + 1) := one_le_pow₀ (by norm_num)
        rw [abs_le]
        exact ⟨by omega, by exact_mod_cast fits⟩
      · push_cast
        rw [zpow_neg_one]
        ring
    exact le_round bits least half (by linarith)
  · have gap := apart ⌊x + 1 / 2⌋ (by linarith)
    have near := le_abs_self (round bits least x - x)
    linarith

end YbeProxy.Rounding
