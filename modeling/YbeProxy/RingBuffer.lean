import Mathlib.Data.List.Basic
import Mathlib.Data.List.GetD
import Mathlib.Logic.Function.Basic

/-!
# Ring buffers

A ring of `size` cells that a writer fills one after the other and, from the last one, starts again. Its history holds
every value that was written, the newest first; a value is found by its age.
-/

namespace YbeProxy.RingBuffer

variable {α : Type} {size : ℕ} {initial : α} {history : List α} {next : ℕ} {cells : ℕ → α}

/-- The cell of the value of an age, 0 for the newest, where `next` is the cell that is written next. -/
def place (size next age : ℕ) : ℕ := (next + (size - 1 - age)) % size

/-- The cells of a ring hold the last `size` values of a history, and what they held at first before these. -/
structure Shows (size : ℕ) (initial : α) (history : List α) (next : ℕ) (cells : ℕ → α) : Prop where
  next_lt : next < size
  cell : ∀ age < size, cells (place size next age) = history.getD age initial

theorem place_lt (next : ℕ) {age : ℕ} (young : age < size) : place size next age < size := by
  unfold place
  exact Nat.mod_lt _ (by omega)

theorem place_zero (bound : next < size) : place size ((next + 1) % size) 0 = next := by
  unfold place
  rw [Nat.mod_add_mod, show next + 1 + (size - 1 - 0) = next + size by omega, Nat.add_mod_right, Nat.mod_eq_of_lt bound]

theorem place_succ (next : ℕ) {age : ℕ} (young : age + 1 < size) :
    place size ((next + 1) % size) (age + 1) = place size next age := by
  unfold place
  rw [Nat.mod_add_mod, show next + 1 + (size - 1 - (age + 1)) = next + (size - 1 - age) by omega]

theorem place_ne_next (bound : next < size) {age : ℕ} (young : age + 1 < size) : place size next age ≠ next := by
  unfold place
  by_cases wraps : next + (size - 1 - age) < size
  · rw [Nat.mod_eq_of_lt wraps]
    omega
  · rw [Nat.mod_eq_sub_mod (by omega), Nat.mod_eq_of_lt (by omega)]
    omega

/-- Every cell is that of some age. -/
theorem exists_place (bound : next < size) {i : ℕ} (inside : i < size) : ∃ age < size, place size next age = i := by
  by_cases before : i < next
  · refine ⟨next - 1 - i, by omega, ?_⟩
    rw [place, show next + (size - 1 - (next - 1 - i)) = i + size by omega, Nat.add_mod_right, Nat.mod_eq_of_lt inside]
  · refine ⟨size - 1 - (i - next), by omega, ?_⟩
    rw [place, show next + (size - 1 - (size - 1 - (i - next))) = i by omega, Nat.mod_eq_of_lt inside]

namespace Shows

theorem fresh (size_pos : 0 < size) (initial : α) : Shows size initial [] 0 fun _ => initial where
  next_lt := size_pos
  cell _ _ := rfl

/-- Writing the next cell makes its value the newest, and every other one older. -/
theorem push (ring : Shows size initial history next cells) (value : α) :
    Shows size initial (value :: history) ((next + 1) % size) (Function.update cells next value) where
  next_lt := Nat.mod_lt _ (Nat.zero_lt_of_lt ring.next_lt)
  cell
    | 0, _ => by rw [place_zero ring.next_lt, Function.update_self, List.getD_cons_zero]
    | age + 1, young => by
      rw [place_succ next young, Function.update_of_ne (place_ne_next ring.next_lt young), List.getD_cons_succ]
      exact ring.cell age (by omega)

/-- The walk back from the newest value meets the last `size` ones, and then the cells that were never written. -/
theorem walk (ring : Shows size initial history next cells) :
    (List.range size).map (fun age => cells (place size next age)) =
      (history ++ List.replicate size initial).take size := by
  apply List.ext_getElem
  · simp
  · intro age young inside
    have known : age < size := by simpa using young
    rw [List.getElem_map, List.getElem_range, ring.cell age known, List.getElem_take]
    by_cases old : age < history.length
    · rw [List.getElem_append_left old, List.getD_eq_getElem _ _ old]
    · rw [List.getElem_append_right (by omega), List.getElem_replicate, List.getD_eq_default _ _ (by omega)]

/-- A property that the cells do not have at first is that of a cell if and only if it is that of one of the last
`size` values. -/
theorem exists_cell_iff (ring : Shows size initial history next cells) {P : α → Prop} (blank : ¬P initial) :
    (∃ i < size, P (cells i)) ↔ ∃ value ∈ history.take size, P value := by
  constructor
  · rintro ⟨i, inside, holds⟩
    obtain ⟨age, young, rfl⟩ := exists_place ring.next_lt inside
    rw [ring.cell age young] at holds
    by_cases old : age < history.length
    · rw [List.getD_eq_getElem _ _ old] at holds
      exact ⟨_, List.mem_take_iff_getElem.mpr ⟨age, by omega, rfl⟩, holds⟩
    · rw [List.getD_eq_default _ _ (by omega)] at holds
      exact absurd holds blank
  · rintro ⟨value, member, holds⟩
    obtain ⟨age, inside, rfl⟩ := List.mem_take_iff_getElem.mp member
    refine ⟨place size next age, place_lt next (by omega), ?_⟩
    rwa [ring.cell age (by omega), List.getD_eq_getElem _ _ (by omega)]

end Shows

end YbeProxy.RingBuffer
