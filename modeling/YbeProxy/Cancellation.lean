import Mathlib.Logic.Relation
import Mathlib.Data.List.Basic

/-!
# Cancelling pairs

An opening element and a closing one right behind it cancel. In whatever order the pairs of a list are taken out, the same list is
left, and one pass with a stack finds it.
-/

namespace YbeProxy.Cancellation

variable {α : Type*} (opens closes : α → Bool)

/-- One pair is taken out. -/
inductive Cancels : List α → List α → Prop where
  | pair (front back : List α) {a b : α} (opened : opens a = true) (closed : closes b = true) :
      Cancels (front ++ a :: b :: back) (front ++ back)

/-- No pair is left. -/
def Final (s : List α) : Prop := ∀ t, ¬ Cancels opens closes s t

def push : List α → α → List α
  | [], c => [c]
  | a :: stack, c => if opens a && closes c then stack else c :: a :: stack

def reduced (s : List α) : List α := (s.foldl (push opens closes) []).reverse

variable {opens closes}

theorem Cancels.cons (c : α) {s t : List α} (cancels : Cancels opens closes s t) :
    Cancels opens closes (c :: s) (c :: t) := by
  obtain ⟨front, back, opened, closed⟩ := cancels
  exact .pair (c :: front) back opened closed

theorem Final.tail {c : α} {s : List α} (final : Final opens closes (c :: s)) : Final opens closes s :=
  fun t cancels => final (c :: t) (cancels.cons c)

theorem final_cons {c : α} {s : List α} (final : Final opens closes s)
    (apart : ∀ d ∈ s.head?, ¬ (opens c = true ∧ closes d = true)) : Final opens closes (c :: s) := by
  intro t cancels
  generalize whole : c :: s = text at cancels
  obtain ⟨front, back, opened, closed⟩ := cancels
  cases front with
  | nil =>
    obtain ⟨rfl, rfl⟩ := List.cons.inj whole
    exact apart _ rfl ⟨opened, closed⟩
  | cons d front =>
    obtain ⟨rfl, rfl⟩ := List.cons.inj whole
    exact final _ (.pair front back opened closed)

theorem length_le_of_cancels {s t : List α} (cancels : Relation.ReflTransGen (Cancels opens closes) s t) :
    t.length ≤ s.length := by
  induction cancels with
  | refl => exact Nat.le_refl _
  | tail _ last hypothesis =>
    obtain ⟨front, back, _, _⟩ := last
    simp only [List.length_append, List.length_cons] at hypothesis ⊢
    omega

/-! ## One result -/

section
variable (apart : ∀ c, opens c = true → closes c = false)
include apart

theorem foldl_push_of_cancels {s t : List α} (cancels : Cancels opens closes s t) (stack : List α) :
    s.foldl (push opens closes) stack = t.foldl (push opens closes) stack := by
  obtain ⟨front, back, opened, closed⟩ := cancels
  rename_i a b
  have pair (stack : List α) : push opens closes (push opens closes stack a) b = stack := by
    cases stack with
    | nil => simp [push, opened, closed]
    | cons c stack => simp [push, opened, closed, apart a opened]
  rw [List.foldl_append, List.foldl_append, List.foldl_cons, List.foldl_cons, pair]

theorem reduced_of_cancels {s t : List α} (cancels : Cancels opens closes s t) :
    reduced opens closes s = reduced opens closes t := by
  rw [reduced, foldl_push_of_cancels apart cancels, reduced]

end

theorem foldl_push_of_final {s : List α} (final : Final opens closes s) (stack : List α)
    (free : ∀ a ∈ stack.head?, ∀ c ∈ s.head?, ¬ (opens a = true ∧ closes c = true)) :
    s.foldl (push opens closes) stack = s.reverse ++ stack := by
  induction s generalizing stack with
  | nil => rfl
  | cons c s hypothesis =>
    have pushed : push opens closes stack c = c :: stack := by
      cases stack with
      | nil => rfl
      | cons a stack => exact if_neg (by simpa using free a rfl c rfl)
    rw [List.foldl_cons, pushed, hypothesis final.tail (c :: stack), List.reverse_cons, List.append_assoc,
      List.singleton_append]
    rintro a ⟨⟩ d first ⟨opened, closed⟩
    obtain ⟨rest, rfl⟩ := List.head?_eq_some_iff.mp first
    exact final rest (.pair [] rest opened closed)

theorem reduced_of_final {s : List α} (final : Final opens closes s) : reduced opens closes s = s := by
  rw [reduced, foldl_push_of_final final [] (by simp), List.append_nil, List.reverse_reverse]

/-- The list that is left when no pair is left does not depend on the order. -/
theorem eq_reduced {s t : List α} (apart : ∀ c, opens c = true → closes c = false)
    (cancels : Relation.ReflTransGen (Cancels opens closes) s t) (final : Final opens closes t) :
    t = reduced opens closes s := by
  induction cancels using Relation.ReflTransGen.head_induction_on with
  | refl => exact (reduced_of_final final).symm
  | head first _ hypothesis => rw [reduced_of_cancels apart first, hypothesis]

/-- What has nothing that opens, and does not start with what closes, stays behind what it is put behind. -/
theorem reduced_append (s : List α) {t : List α} (plain : ∀ c ∈ t, opens c = false)
    (start : ∀ c ∈ t.head?, closes c = false) : reduced opens closes (s ++ t) = reduced opens closes s ++ t := by
  have final : Final opens closes t := by
    rintro _ ⟨front, back, opened, _⟩
    rw [plain _ (by simp)] at opened
    cases opened
  have free : ∀ a ∈ (s.foldl (push opens closes) []).head?, ∀ c ∈ t.head?, ¬ (opens a = true ∧ closes c = true) := by
    rintro a _ c first ⟨_, closed⟩
    rw [start c first] at closed
    cases closed
  rw [reduced, List.foldl_append, foldl_push_of_final final _ free, List.reverse_append, List.reverse_reverse, reduced]

end YbeProxy.Cancellation
