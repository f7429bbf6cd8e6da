import Mathlib.Tactic.Common

/-!
# Counted loops over arrays

A turn that indexes an array outside of its bounds has no result. The rules say what a loop that stays inside comes to.
-/

namespace YbeProxy.ForLoop

variable {σ α : Type} {size : ℕ}

/-- `array[i] = value`. -/
def store (array : Vector α size) (i : ℕ) (value : α) : Option (Vector α size) :=
  if inside : i < size then some (array.set i value) else none

/-- So many turns from `i` on. -/
def each (body : ℕ → σ → Option σ) : ℕ → ℕ → σ → Option σ
  | _, 0, state => some state
  | i, turns + 1, state => (body i state).bind (each body (i + 1) turns)

/-- So many turns from `i` on, until one says no: whether none did. -/
def throughout (body : ℕ → Option Bool) : ℕ → ℕ → Option Bool
  | _, 0 => some true
  | i, turns + 1 => (body i).bind fun good => if good then throughout body (i + 1) turns else some false

theorem each_spec {body : ℕ → σ → Option σ} (Inv : ℕ → σ → Prop) {first turns : ℕ}
    (turn : ∀ i state, i < first + turns → Inv i state → ∃ next, body i state = some next ∧ Inv (i + 1) next) {state : σ}
    (initially : Inv first state) : ∃ result, each body first turns state = some result ∧ Inv (first + turns) result := by
  induction turns generalizing first state with
  | zero => exact ⟨state, rfl, initially⟩
  | succ turns hypothesis =>
    obtain ⟨next, stepped, kept⟩ := turn first state (by omega) initially
    have later : first + 1 + turns = first + (turns + 1) := by omega
    obtain ⟨result, rest, final⟩ := hypothesis (by rwa [later]) kept
    refine ⟨result, ?_, later ▸ final⟩
    rw [each, stepped, Option.bind_some, rest]

/-- A loop that asks every turn asks for all of them. -/
theorem throughout_spec {body : ℕ → Option Bool} {Good : ℕ → Prop} {first turns : ℕ}
    (turn : ∀ i < first + turns, ∃ good, body i = some good ∧ (good = true ↔ Good i)) :
    ∃ good, throughout body first turns = some good ∧ (good = true ↔ ∀ i, first ≤ i → i < first + turns → Good i) := by
  induction turns generalizing first with
  | zero => exact ⟨true, rfl, by simp only [true_iff]; omega⟩
  | succ turns hypothesis =>
    have later : first + 1 + turns = first + (turns + 1) := by omega
    obtain ⟨good, asked, means⟩ := turn first (by omega)
    rw [throughout, asked, Option.bind_some]
    cases good with
    | false =>
      refine ⟨false, rfl, ?_⟩
      simp only [Bool.false_eq_true, false_iff] at means ⊢
      exact fun all => means (all first (Nat.le_refl _) (by omega))
    | true =>
      obtain ⟨rest, ran, all⟩ := hypothesis (by rwa [later])
      refine ⟨rest, by simpa using ran, ?_⟩
      rw [all, later]
      constructor
      · intro behind i low high
        rcases Nat.eq_or_lt_of_le low with rfl | low
        · exact means.mp rfl
        · exact behind i low high
      · exact fun every i low high => every i (by omega) high

/-- An array is filled from its start. -/
theorem fill_spec (array : Vector α size) (values : ℕ → α) {turns : ℕ} (room : turns ≤ size) :
    ∃ result, each (fun i array => store array i (values i)) 0 turns array = some result ∧
      ∀ i < turns, result[i]? = some (values i) := by
  have turn (i : ℕ) (array : Vector α size) (inside : i < 0 + turns) (filled : ∀ j < i, array[j]? = some (values j)) :
      ∃ next, store array i (values i) = some next ∧ ∀ j < i + 1, next[j]? = some (values j) := by
    have bound : i < size := by omega
    refine ⟨array.set i (values i), dif_pos bound, ?_⟩
    intro j earlier
    by_cases last : i = j
    · subst last
      simp [bound]
    · rw [Vector.getElem?_set_ne bound last, filled j (by omega)]
  obtain ⟨result, ran, filled⟩ := each_spec (fun i array => ∀ j < i, array[j]? = some (values j)) turn (by simp)
  exact ⟨result, ran, by simpa using filled⟩

end YbeProxy.ForLoop
