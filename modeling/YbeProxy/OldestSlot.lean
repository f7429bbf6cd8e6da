import YbeProxy.Runs
import Mathlib.Order.Lattice

/-!
# Tables that replace their oldest slot

A table of a fixed size whose steps leave it alone or put a new value in place of one of the oldest. A value stays in
its slot while no more values of its age or younger come in than the table has slots.
-/

namespace YbeProxy.OldestSlot
open YbeProxy.Runs

variable {α τ : Type*} {σ ε δ : Type} [LinearOrder τ] (time : α → τ)

/-- No slot is older than this one. -/
def IsOldest (slots : List α) (i : ℕ) : Prop := ∃ slot, slots[i]? = some slot ∧ ∀ other ∈ slots, time slot ≤ time other

def young (t : τ) (slots : List α) : ℕ := slots.countP fun slot => t ≤ time slot

variable {time}

theorem IsOldest.lt_length {slots : List α} {i : ℕ} (oldest : IsOldest time slots i) : i < slots.length := by
  obtain ⟨_, found, _⟩ := oldest
  exact (List.getElem?_eq_some_iff.mp found).1

theorem young_set_le {slots : List α} {i : ℕ} (inside : i < slots.length) (t : τ) (x : α) :
    young time t (slots.set i x) ≤ young time t slots + if t ≤ time x then 1 else 0 := by
  rw [young, List.countP_set inside]
  simp only [decide_eq_true_eq]
  exact Nat.add_le_add_right (Nat.sub_le _ _) _

/-- While some slot is old, the oldest is old. -/
theorem IsOldest.old {slots : List α} {i : ℕ} {t : τ} {slot : α} (oldest : IsOldest time slots i)
    (found : slots[i]? = some slot) (room : young time t slots < slots.length) : time slot < t := by
  obtain ⟨same, there, least⟩ := oldest
  obtain rfl := Option.some.inj (found.symm.trans there)
  by_contra recent
  have all : young time t slots = slots.length := by
    apply List.countP_eq_length.mpr
    intro other member
    exact decide_eq_true (le_trans (not_lt.mp recent) (least other member))
  omega

/-- The steps of a machine leave its slots alone, or replace an oldest one by a value of the time of the event. -/
structure ReplacesOldest (step : σ → ε → δ × σ) (slots : σ → List α) (time : α → τ) (clock : ε → τ)
    (slot : δ → Option ℕ) : Prop where
  quiet : ∀ state event, slot (step state event).1 = none → slots (step state event).2 = slots state
  puts : ∀ state event i, slot (step state event).1 = some i → IsOldest time (slots state) i ∧
    ∃ x, time x = clock event ∧ slots (step state event).2 = (slots state).set i x

/-- How many values came in at `t` or later. -/
def insertions (clock : ε → τ) (slot : δ → Option ℕ) (t : τ) (answers : List (ε × δ)) : ℕ :=
  answers.countP fun answer => (slot answer.2).isSome && t ≤ clock answer.1

variable {step : σ → ε → δ × σ} {slots : σ → List α} {clock : ε → τ} {slot : δ → Option ℕ}

theorem insertions_cons (t : τ) (event : ε) (answer : δ) (rest : List (ε × δ)) :
    insertions clock slot t ((event, answer) :: rest) =
      insertions clock slot t rest + if (slot answer).isSome = true ∧ t ≤ clock event then 1 else 0 := by
  simp only [insertions, List.countP_cons, Bool.and_eq_true, decide_eq_true_eq]

theorem insertions_append (t : τ) (before after : List (ε × δ)) :
    insertions clock slot t (before ++ after) = insertions clock slot t before + insertions clock slot t after :=
  List.countP_append

namespace ReplacesOldest

theorem length_step (machine : ReplacesOldest step slots time clock slot) (state : σ) (event : ε) :
    (slots (step state event).2).length = (slots state).length := by
  cases put : slot (step state event).1 with
  | none => rw [machine.quiet state event put]
  | some i =>
    obtain ⟨_, x, _, after⟩ := machine.puts state event i put
    rw [after, List.length_set]

theorem length_final (machine : ReplacesOldest step slots time clock slot) (state : σ) (events : List ε) :
    (slots (final step state events)).length = (slots state).length :=
  final_keeps step (fun later => (slots later).length = (slots state).length)
    (fun event _ later same => (machine.length_step later event).trans same) state rfl

/-- One step makes at most as many young slots as it counts insertions. -/
theorem young_step_le (machine : ReplacesOldest step slots time clock slot) (t : τ) (state : σ) (event : ε) :
    young time t (slots (step state event).2) ≤ young time t (slots state) +
      if (slot (step state event).1).isSome = true ∧ t ≤ clock event then 1 else 0 := by
  cases put : slot (step state event).1 with
  | none =>
    rw [machine.quiet state event put]
    exact Nat.le_add_right _ _
  | some i =>
    obtain ⟨oldest, x, dated, after⟩ := machine.puts state event i put
    have replaced : young time t ((slots state).set i x) ≤ _ := young_set_le oldest.lt_length t x
    rw [after]
    simpa [dated] using replaced

theorem young_final_le (machine : ReplacesOldest step slots time clock slot) (t : τ) (state : σ) (events : List ε) :
    young time t (slots (final step state events)) ≤
      young time t (slots state) + insertions clock slot t (trace step state events) := by
  induction events generalizing state with
  | nil => exact Nat.le_add_right _ _
  | cons event rest hypothesis =>
    have one := machine.young_step_le t state event
    have others := hypothesis (step state event).2
    rw [trace, insertions_cons, final]
    omega

/-- A young value stays in its slot while the table has room for every young value that comes in. -/
theorem slot_kept (machine : ReplacesOldest step slots time clock slot) {t : τ} {state : σ} {events : List ε} {j : ℕ}
    {x : α} (since : ∀ event ∈ events, t ≤ clock event)
    (room : young time t (slots state) + insertions clock slot t (trace step state events) ≤ (slots state).length)
    (held : (slots state)[j]? = some x) (recent : t ≤ time x) : (slots (final step state events))[j]? = some x := by
  induction events generalizing state with
  | nil => exact held
  | cons event rest hypothesis =>
    have one := machine.young_step_le t state event
    have size := machine.length_step state event
    rw [trace, insertions_cons] at room
    refine hypothesis (fun later member => since later (List.mem_cons_of_mem event member)) (by omega) ?_
    cases put : slot (step state event).1 with
    | none =>
      rw [machine.quiet state event put]
      exact held
    | some i =>
      obtain ⟨oldest, y, _, after⟩ := machine.puts state event i put
      rw [put] at room
      simp only [Option.isSome_some, since event List.mem_cons_self, and_self, if_true] at room
      have apart : i ≠ j := by
        rintro rfl
        exact absurd (oldest.old held (t := t) (by omega)) (not_lt.mpr recent)
      rw [after, List.getElem?_set_ne apart]
      exact held

end ReplacesOldest

end YbeProxy.OldestSlot
