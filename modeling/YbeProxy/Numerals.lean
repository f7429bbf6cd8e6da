import Mathlib.Data.List.Basic
import Mathlib.Data.List.Induction
import Mathlib.Algebra.Ring.Nat

/-!
# Numerals

Reading back the digits that a number is printed with, in any base whose digits are characters, with or without
leading zeros.
-/

namespace YbeProxy.Numerals

variable {base : ℕ} {value : Char → ℕ}

/-- The value of a numeral, most significant digit first. -/
def numeral (base : ℕ) (value : Char → ℕ) (s : List Char) : ℕ := s.foldl (fun sum c => sum * base + value c) 0

theorem mem_toDigits (large : 1 < base) {n : ℕ} {c : Char} (member : c ∈ Nat.toDigits base n) :
    ∃ digit < base, c = Nat.digitChar digit := by
  induction n using Nat.strongRecOn with
  | ind n hypothesis =>
    rw [Nat.toDigits_eq_if large] at member
    split at member
    · rename_i small
      exact ⟨n, small, List.mem_singleton.mp member⟩
    · rename_i big
      rcases List.mem_append.mp member with front | last
      · exact hypothesis (n / base) (Nat.div_lt_self (by omega) large) front
      · exact ⟨n % base, Nat.mod_lt n (by omega), List.mem_singleton.mp last⟩

theorem numeral_toDigits (large : 1 < base) (digits : ∀ digit < base, value (Nat.digitChar digit) = digit) (n : ℕ) :
    numeral base value (Nat.toDigits base n) = n := by
  induction n using Nat.strongRecOn with
  | ind n hypothesis =>
    rw [Nat.toDigits_eq_if large]
    split
    · rename_i small
      simp [numeral, digits n small]
    · rename_i big
      have front := hypothesis (n / base) (Nat.div_lt_self (by omega) large)
      rw [numeral] at front
      rw [numeral, List.foldl_append, front]
      simp only [List.foldl_cons, List.foldl_nil, digits _ (Nat.mod_lt n (by omega))]
      exact Nat.div_add_mod' n base

theorem numeral_lt {s : List Char} (digits : ∀ c ∈ s, value c < base) :
    numeral base value s < base ^ s.length := by
  induction s using List.reverseRecOn with
  | nil => exact Nat.one_pos
  | append_singleton s c hypothesis =>
    have front := hypothesis fun d member => digits d (List.mem_append_left _ member)
    have last := digits c (List.mem_append_right _ (List.mem_singleton.mpr rfl))
    rw [numeral] at front
    rw [numeral, List.foldl_append, List.length_append, List.length_singleton, pow_succ]
    simp only [List.foldl_cons, List.foldl_nil]
    calc s.foldl (fun sum c => sum * base + value c) 0 * base + value c
        < s.foldl (fun sum c => sum * base + value c) 0 * base + base := Nat.add_lt_add_left last _
      _ = (s.foldl (fun sum c => sum * base + value c) 0 + 1) * base := (Nat.succ_mul _ _).symm
      _ ≤ base ^ s.length * base := Nat.mul_le_mul_right base front

/-- A number in at least so many digits, with leading zeros. -/
def padded (width base n : ℕ) : List Char := List.leftpad width '0' (Nat.toDigits base n)

theorem length_padded {width n : ℕ} (large : 1 < base) (positive : 0 < width) (fits : n < base ^ width) :
    (padded width base n).length = width := by
  have short := (Nat.length_toDigits_le_iff (n := n) large positive).mpr fits
  rw [padded, List.leftpad, List.length_append, List.length_replicate]
  omega

theorem mem_padded (large : 1 < base) {width n : ℕ} {c : Char} (member : c ∈ padded width base n) :
    ∃ digit < base, c = Nat.digitChar digit := by
  rw [padded, List.leftpad] at member
  rcases List.mem_append.mp member with zero | digit
  · exact ⟨0, by omega, (List.mem_replicate.mp zero).2⟩
  · exact mem_toDigits large digit

theorem numeral_padded (large : 1 < base) (digits : ∀ digit < base, value (Nat.digitChar digit) = digit) (width n : ℕ) :
    numeral base value (padded width base n) = n := by
  have zeros (count : ℕ) : (List.replicate count '0').foldl (fun sum c => sum * base + value c) 0 = 0 := by
    induction count with
    | zero => rfl
    | succ count hypothesis =>
      rw [List.replicate_succ, List.foldl_cons, Nat.zero_mul, Nat.zero_add, show '0' = Nat.digitChar 0 from rfl,
        digits 0 (by omega)]
      exact hypothesis
  have plain := numeral_toDigits large digits n
  rw [numeral] at plain
  rw [numeral, padded, List.leftpad, List.foldl_append, zeros, plain]

end YbeProxy.Numerals
