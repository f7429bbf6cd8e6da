import YbeProxy.Addresses
import YbeProxy.Binary32
import YbeProxy.Numerals

/-!
# The ratio of a player

`MyRatio` of `Features/ClientCommands.cpp`: the kills, deaths and suicides of a player, and the kills for each death with
two decimals. The quotient of two `float`s is printed as the exact one would be, to the nearest hundredth.
-/

namespace YbeProxy.PlayerRatio
open YbeProxy.Strings
open YbeProxy.Rounding
open YbeProxy.Binary32 (single)
open YbeProxy.Numerals (padded)
open YbeProxy.Addresses (length_decimal_le)

/-- What `MyRatio` reads of a `playerState_t`: `persistant[PERS_SCORE]`, `persistant[PERS_KILLED]` and
`fd.suicides`. -/
structure PlayerState where
  score : ℤ
  killed : ℤ
  suicides : ℤ

/-- The fields are `int`s, and deaths are counted from zero on. -/
structure PlayerState.Counted (ps : PlayerState) : Prop where
  score : -2 ^ 31 ≤ ps.score ∧ ps.score < 2 ^ 31
  killed : 0 ≤ ps.killed ∧ ps.killed < 2 ^ 31
  suicides : -2 ^ 31 ≤ ps.suicides ∧ ps.suicides < 2 ^ 31

def gtFfa : ℤ := 0
def gtDuel : ℤ := 3
def gtTeam : ℤ := 6

def ratioString (kill death : ℤ) : CString :=
  if 0 ≤ kill - death then comSprintf 16 ("(^2+".toList ++ decimalInt (kill - death) ++ "^7)".toList)
  else comSprintf 16 ("(^1".toList ++ decimalInt (kill - death) ++ "^7)".toList)

/-- A `float` that is a number, or an infinity. -/
inductive Float
  | finite (value : ℚ)
  | infinite (negative : Bool)
  deriving DecidableEq

def calcRatio (kill death : ℤ) : Float :=
  if kill = 0 ∧ death = 0 then .finite 1
  else if kill < 1 ∧ 1 ≤ death then .finite 0
  else if 1 ≤ kill ∧ death ≤ 1 then .finite (single kill)
  -- The score may be negative without a death.
  else if single death = 0 then .infinite (kill < 0)
  else .finite (single (single kill / single death))

/-- So many hundredths, in two decimals. -/
def hundredths (n : ℕ) : CString := decimal (n / 100) ++ ".".toList ++ padded 2 10 (n % 100)

/-- `%.2f` -/
def fixed : Float → CString
  | .finite value =>
    if value < 0 then "-".toList ++ hundredths (roundEven (-value * 100)).toNat
    else hundredths (roundEven (value * 100)).toNat
  | .infinite negative => if negative then "-inf".toList else "inf".toList

/-- The text that is sent, in the game type. -/
def myRatio (svGametype : ℤ) (ps : PlayerState) : CString :=
  if svGametype ≠ gtDuel ∧ svGametype ≠ gtTeam ∧ svGametype ≠ gtFfa then
    "print \"Command not supported for this gametype\n\"".toList
  else
    "print \"Kills^4: ^7".toList ++ decimalInt ps.score ++ " ^4| ^7Deaths^4: ^7".toList ++ decimalInt ps.killed ++
      " ^4(^7Suicides^4: ^7".toList ++ decimalInt ps.suicides ++ "^4) ^4| ^7Ratio^4: ^7".toList ++
      fixed (calcRatio ps.score ps.killed) ++ " ".toList ++ ratioString ps.score ps.killed ++ "\n\"".toList

/-! ## The quotient -/

/-- The error of a quotient of whole numbers in `float`s is less than the least part of a hundredth that a divisor
leaves. -/
theorem quotient_error {k d : ℤ} (nonneg : (0 : ℚ) ≤ k) (small : (k : ℚ) ≤ 80000) (positive : (0 : ℚ) < d)
    (short : (d : ℚ) ≤ 2 ^ 24) : |single (k / d) * 100 - (100 * k : ℤ) / d| < 1 / (2 * d : ℚ) := by
  have error : |single (k / d) - k / d| ≤ |(k / d : ℚ)| / 2 ^ (23 + 1) + 2 ^ (-149 : ℤ) :=
    round_error 23 (-149) (k / d : ℚ)
  rw [abs_of_nonneg (div_nonneg nonneg positive.le)] at error
  have share : (k / d : ℚ) / 2 ^ (23 + 1) * 100 ≤ 62 / (129 * d) := by
    rw [div_div, div_mul_eq_mul_div, div_le_div_iff₀ (by positivity) (by positivity)]
    have scaled := mul_le_mul_of_nonneg_right small positive.le
    norm_num at scaled ⊢
    linarith
  have least : (2 : ℚ) ^ (-149 : ℤ) * 100 ≤ 1 / (1000 * d) := by
    rw [le_div_iff₀ (by positivity), zpow_neg, mul_assoc, inv_mul_le_iff₀ (by positivity)]
    norm_num at short ⊢
    linarith
  have parts : 62 / (129 * d : ℚ) + 1 / (1000 * d) < 1 / (2 * d) := by
    rw [div_add_div _ _ (by positivity) (by positivity), div_lt_div_iff₀ (by positivity) (by positivity)]
    have square : 0 < (d : ℚ) * d := by positivity
    linarith
  have scaled : single (k / d) * 100 - (100 * k : ℤ) / d = (single (k / d) - k / d) * 100 := by
    push_cast
    ring
  rw [scaled, abs_mul, abs_of_pos (by norm_num : (0 : ℚ) < 100)]
  linarith

/-- A number that misses a quotient by less than that part is rounded to a whole number that is nearest to the
quotient too. -/
theorem roundEven_quotient {N d : ℤ} (positive : (0 : ℚ) < d) {x : ℚ} (near : |x - N / d| < 1 / (2 * d : ℚ)) :
    |roundEven x - (N / d : ℚ)| ≤ 1 / 2 := by
  obtain ⟨low, high⟩ := abs_le.mp (roundEven_near x)
  obtain ⟨above, below⟩ := abs_lt.mp near
  rw [abs_le]
  constructor
  · by_contra under
    have opposite := neg_div (d : ℚ) (N : ℚ)
    have gap := Binary32.quotient_gap (N := -N) (n := -roundEven x - 1) positive (by push_cast; linarith)
    push_cast at gap
    linarith
  · by_contra beyond
    have gap := Binary32.quotient_gap (N := N) (n := roundEven x - 1) positive (by push_cast; linarith)
    push_cast at gap
    linarith

/-! ## What is printed -/

/-- A number that is not negative is printed in hundredths, as near to another one as it is rounded to. -/
theorem fixed_near {value q : ℚ} (nonneg : 0 ≤ value) (near : |roundEven (value * 100) - q * 100| ≤ 1 / 2) :
    ∃ n : ℕ, fixed (.finite value) = hundredths n ∧ |(n : ℚ) / 100 - q| ≤ 1 / 200 := by
  have whole : 0 ≤ roundEven (value * 100) := by
    obtain ⟨low, _⟩ := abs_le.mp (roundEven_near (value * 100))
    have above : (-1 : ℚ) < roundEven (value * 100) := by linarith
    have above : -1 < roundEven (value * 100) := by exact_mod_cast above
    omega
  refine ⟨(roundEven (value * 100)).toNat, by rw [fixed, if_neg (not_lt.mpr nonneg)], ?_⟩
  have same : (((roundEven (value * 100)).toNat : ℕ) : ℚ) = roundEven (value * 100) := by
    exact_mod_cast Int.toNat_of_nonneg whole
  rw [same]
  obtain ⟨low, high⟩ := abs_le.mp near
  rw [abs_le]
  constructor <;> linarith

/-- The quotient in `float`s is printed to the nearest hundredth of the exact one. -/
theorem quotient_to_hundredths {kill death : ℤ} (nonneg : 0 ≤ kill) (small : kill ≤ 80000) (positive : 0 < death)
    (few : death ≤ 2 ^ 24) :
    ∃ n : ℕ, fixed (.finite (single (kill / death))) = hundredths n ∧ |(n : ℚ) / 100 - kill / death| ≤ 1 / 200 := by
  have top : (0 : ℚ) ≤ kill := by exact_mod_cast nonneg
  have bottom : (0 : ℚ) < death := by exact_mod_cast positive
  have near := roundEven_quotient bottom
    (quotient_error top (by exact_mod_cast small) bottom (by exact_mod_cast few))
  have scaled : (((100 * kill : ℤ) : ℚ) / death) = kill / death * 100 := by
    push_cast
    ring
  rw [scaled] at near
  exact fixed_near (Binary32.single_nonneg (div_nonneg top bottom.le)) near

theorem dot_mem_hundredths (n : ℕ) : '.' ∈ hundredths n := by
  simp [hundredths]

/-- The kills for each death: a player who has not died is taken for one who has died once, and a player who has done
neither has a ratio of one. -/
def killsPerDeath (kill death : ℤ) : ℚ := if kill = 0 ∧ death = 0 then 1 else (max kill 0 : ℤ) / (max death 1 : ℤ)

theorem fixed_of_negative {kill : ℤ} (negative : kill < 0) : fixed (calcRatio kill 0) = "-inf".toList := by
  have zero : single ((0 : ℤ) : ℚ) = 0 := by
    rw [Int.cast_zero]
    exact round_zero 23 (-149)
  rw [calcRatio, if_neg (by omega), if_neg (by omega), if_neg (by omega), if_pos zero, decide_eq_true negative]
  rfl

/-- The ratio is printed to the nearest hundredth, but for a player with a negative score who has not died, whose ratio is
an infinity. -/
theorem ratio_to_hundredths {kill death : ℤ} (deaths : 0 ≤ death) (few : death ≤ 2 ^ 24) (small : kill ≤ 80000) :
    ((∃ n : ℕ, fixed (calcRatio kill death) = hundredths n ∧ |(n : ℚ) / 100 - killsPerDeath kill death| ≤ 1 / 200) ↔
      ¬ (kill < 0 ∧ death = 0)) ∧
      (kill < 0 ∧ death = 0 → fixed (calcRatio kill death) = "-inf".toList) := by
  refine ⟨?_, fun ⟨negative, unhurt⟩ => unhurt ▸ fixed_of_negative negative⟩
  by_cases exception : kill < 0 ∧ death = 0
  · refine iff_of_false ?_ (not_not.mpr exception)
    rintro ⟨n, same, _⟩
    have dot := dot_mem_hundredths n
    rw [← same, exception.2, fixed_of_negative exception.1] at dot
    exact absurd dot (by decide)
  refine iff_of_true ?_ exception
  have short {n : ℤ} (nonneg : 0 ≤ n) (small : n ≤ 2 ^ 24) : single n = n :=
    Binary32.single_intCast (by rw [abs_of_nonneg nonneg]; exact small)
  have printed {n : ℤ} (nonneg : 0 ≤ n) : ∃ m : ℕ, fixed (.finite n) = hundredths m ∧ |(m : ℚ) / 100 - n| ≤ 1 / 200 :=
    fixed_near (by exact_mod_cast nonneg) (roundEven_near _)
  rw [calcRatio, killsPerDeath]
  split
  · have one := printed (n := 1) (by norm_num)
    rwa [Int.cast_one] at one
  split
  · rename_i died
    have none : max kill 0 = 0 := by omega
    have zero := printed (n := 0) (by norm_num)
    rw [Int.cast_zero] at zero
    rwa [none, Int.cast_zero, zero_div]
  split
  · rename_i alive
    have kills : max kill 0 = kill := by omega
    have once : max death 1 = 1 := by omega
    rw [kills, once, short (by omega) (by omega), Int.cast_one, div_one]
    exact printed (by omega)
  · have kills : max kill 0 = kill := by omega
    have died : max death 1 = death := by omega
    have nonzero : (death : ℚ) ≠ 0 := by exact_mod_cast (by omega : death ≠ 0)
    rw [kills, died, short deaths few, short (by omega : 0 ≤ kill) (by omega), if_neg nonzero]
    exact quotient_to_hundredths (by omega) small (by omega) few

/-- Two kills for each three deaths, no death at all, and a score below zero without one. -/
theorem ratio_to_hundredths_sample :
    (∃ n : ℕ, fixed (calcRatio 2 3) = hundredths n ∧ |(n : ℚ) / 100 - killsPerDeath 2 3| ≤ 1 / 200) ∧
      (∃ n : ℕ, fixed (calcRatio 7 0) = hundredths n ∧ |(n : ℚ) / 100 - killsPerDeath 7 0| ≤ 1 / 200) ∧
      fixed (calcRatio (-1) 0) = "-inf".toList :=
  ⟨(ratio_to_hundredths (by decide) (by decide) (by decide)).1.mpr (by decide),
    (ratio_to_hundredths (by decide) (by decide) (by decide)).1.mpr (by decide),
    (ratio_to_hundredths (by decide) (by decide) (by decide)).2 (by decide)⟩

/-! ## The length of the text -/

theorem length_hundredths {n : ℕ} (small : n < 100 * 10 ^ 10) : (hundredths n).length ≤ 13 := by
  have whole : (decimal (n / 100)).length ≤ 10 := length_decimal_le (by norm_num) (by omega)
  have part : (padded 2 10 (n % 100)).length = 2 := Numerals.length_padded (by norm_num) (by norm_num) (by omega)
  rw [hundredths, List.length_append, List.length_append, part]
  have dot : ".".toList.length = 1 := rfl
  omega

theorem length_fixed {value : ℚ} (nonneg : 0 ≤ value) (small : value ≤ 2 ^ 31) : (fixed (.finite value)).length ≤ 13 := by
  rw [fixed, if_neg (not_lt.mpr nonneg)]
  refine length_hundredths ?_
  obtain ⟨_, high⟩ := abs_le.mp (roundEven_near (value * 100))
  have below : (roundEven (value * 100) : ℚ) < 100 * 10 ^ 10 := by linarith
  have below : roundEven (value * 100) < 100 * 10 ^ 10 := by exact_mod_cast below
  omega

/-- No `int` is rounded past 2^31. -/
theorem single_le_int {x : ℚ} (small : x ≤ 2 ^ 31) : single x ≤ 2 ^ 31 :=
  round_le 23 (-149) ⟨1, 31, by norm_num, by norm_num, by norm_num⟩ small

theorem length_ratio {kill death : ℤ} (deaths : 0 ≤ death) (kills : kill < 2 ^ 31) :
    (fixed (calcRatio kill death)).length ≤ 13 := by
  have top : single kill ≤ 2 ^ 31 := single_le_int (by exact_mod_cast kills.le)
  rw [calcRatio]
  split
  · exact length_fixed (by norm_num) (by norm_num)
  split
  · exact length_fixed (by norm_num) (by norm_num)
  split
  · rename_i alive
    exact length_fixed (Binary32.single_nonneg (by exact_mod_cast (by omega : 0 ≤ kill))) top
  split
  · rw [fixed]
    split <;> decide
  · rename_i nonzero
    by_cases played : 1 ≤ kill
    · have bottom : 1 ≤ single death := Binary32.single_pos (by omega)
      have nonneg : 0 ≤ single kill := Binary32.single_nonneg (by exact_mod_cast (by omega : 0 ≤ kill))
      have quotient : single kill / single death ≤ 2 ^ 31 := (div_le_self nonneg bottom).trans top
      exact length_fixed (Binary32.single_nonneg (div_nonneg nonneg (by linarith))) (single_le_int quotient)
    · have unhurt : death = 0 := by omega
      rw [unhurt, Int.cast_zero] at nonzero
      exact absurd (round_zero 23 (-149)) nonzero

theorem length_decimalInt {n : ℤ} (low : -2 ^ 31 ≤ n) (high : n < 2 ^ 31) : (decimalInt n).length ≤ 11 := by
  have digits : (decimal n.natAbs).length ≤ 10 := length_decimal_le (by norm_num) (by omega)
  rw [decimalInt]
  split
  · exact Nat.succ_le_succ digits
  · exact Nat.le_succ_of_le digits

/-- The engine takes the text of every player: it has no more than the 1022 characters of a server command. -/
theorem myRatio_fits (svGametype : ℤ) {ps : PlayerState} (counted : ps.Counted) : (myRatio svGametype ps).length ≤ 1022 := by
  obtain ⟨score, killed, suicides⟩ := counted
  have ratio := length_ratio killed.1 score.2
  have first := length_decimalInt score.1 score.2
  have second := length_decimalInt (by omega) killed.2
  have third := length_decimalInt suicides.1 suicides.2
  have sign : (ratioString ps.score ps.killed).length ≤ 15 := by
    rw [ratioString]
    split <;> exact List.length_take_le _ _
  rw [myRatio]
  split
  · decide
  · simp only [List.length_append]
    have words : "print \"Kills^4: ^7".toList.length = 18 ∧ " ^4| ^7Deaths^4: ^7".toList.length = 19 ∧
        " ^4(^7Suicides^4: ^7".toList.length = 20 ∧ "^4) ^4| ^7Ratio^4: ^7".toList.length = 21 ∧
        " ".toList.length = 1 ∧ "\n\"".toList.length = 2 := by decide
    omega

end YbeProxy.PlayerRatio
