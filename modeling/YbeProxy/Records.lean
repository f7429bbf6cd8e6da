import Mathlib.Order.Lattice
import Mathlib.Order.Defs.LinearOrder
import Mathlib.Data.List.Basic

/-!
# Records of a sequence

The elements that exceed a floor and everything chosen before them: what a loop keeps that compares each element with
the last one it took. A count that compares with the floor alone is theirs exactly when the elements above it ascend.
-/

namespace YbeProxy.Records

variable {α β : Type} [LinearOrder α] (key : β → α)

def records : α → List β → List β
  | _, [] => []
  | floor, x :: rest => if key x ≤ floor then records floor rest else x :: records (key x) rest

/-- The elements above the floor, whatever comes before them. -/
def above (floor : α) (xs : List β) : List β := xs.filter fun x => decide (floor < key x)

/-- Where the floor is after a sequence. -/
def floorAfter (floor : α) (xs : List β) : α := xs.foldl (fun top x => max top (key x)) floor

variable {key} {floor : α} {x : β} {rest xs : List β}

theorem records_skip (low : key x ≤ floor) : records key floor (x :: rest) = records key floor rest := by
  rw [records, if_pos low]

theorem records_take (high : floor < key x) : records key floor (x :: rest) = x :: records key (key x) rest := by
  rw [records, if_neg (not_le_of_gt high)]

theorem floorAfter_skip (low : key x ≤ floor) : floorAfter key floor (x :: rest) = floorAfter key floor rest := by
  rw [floorAfter, List.foldl_cons, max_eq_left low]
  rfl

theorem floorAfter_take (high : floor < key x) : floorAfter key floor (x :: rest) = floorAfter key (key x) rest := by
  rw [floorAfter, List.foldl_cons, max_eq_right (le_of_lt high)]
  rfl

theorem floor_lt_of_mem_records (member : x ∈ records key floor xs) : floor < key x := by
  induction xs generalizing floor with
  | nil => simp [records] at member
  | cons head rest hypothesis =>
    by_cases low : key head ≤ floor
    · rw [records_skip low] at member
      exact hypothesis member
    · have high := lt_of_not_ge low
      rw [records_take high] at member
      rcases List.mem_cons.mp member with rfl | later
      · exact high
      · exact lt_trans high (hypothesis later)

theorem pairwise_records (floor : α) (xs : List β) : (records key floor xs).Pairwise fun a b => key a < key b := by
  induction xs generalizing floor with
  | nil => exact List.Pairwise.nil
  | cons head rest hypothesis =>
    by_cases low : key head ≤ floor
    · rw [records_skip low]
      exact hypothesis floor
    · rw [records_take (lt_of_not_ge low), List.pairwise_cons]
      exact ⟨fun _ member => floor_lt_of_mem_records member, hypothesis (key head)⟩

theorem records_sublist (floor : α) (xs : List β) : (records key floor xs).Sublist xs := by
  induction xs generalizing floor with
  | nil => exact List.Sublist.slnil
  | cons head rest hypothesis =>
    by_cases low : key head ≤ floor
    · rw [records_skip low]
      exact (hypothesis floor).cons head
    · rw [records_take (lt_of_not_ge low)]
      exact (hypothesis (key head)).cons_cons head

theorem le_floorAfter (floor : α) (xs : List β) : floor ≤ floorAfter key floor xs := by
  induction xs generalizing floor with
  | nil => exact le_refl floor
  | cons head rest hypothesis => exact le_trans (le_max_left floor (key head)) (hypothesis _)

theorem le_floorAfter_of_mem_records (member : x ∈ records key floor xs) : key x ≤ floorAfter key floor xs := by
  induction xs generalizing floor with
  | nil => simp [records] at member
  | cons head rest hypothesis =>
    by_cases low : key head ≤ floor
    · rw [records_skip low] at member
      rw [floorAfter_skip low]
      exact hypothesis member
    · have high := lt_of_not_ge low
      rw [records_take high] at member
      rw [floorAfter_take high]
      rcases List.mem_cons.mp member with rfl | later
      · exact le_floorAfter (key x) rest
      · exact hypothesis later

/-! ## Ascending sequences -/

/-- Elements below the floor change nothing. -/
theorem records_above {low : α} (under : low ≤ floor) (xs : List β) :
    records key floor (above key low xs) = records key floor xs := by
  induction xs generalizing floor with
  | nil => rfl
  | cons head rest hypothesis =>
    by_cases small : key head ≤ floor
    · rw [records_skip small, above, List.filter_cons]
      split
      · rw [records_skip small]
        exact hypothesis under
      · exact hypothesis under
    · have high := lt_of_not_ge small
      have kept : decide (low < key head) = true := decide_eq_true (lt_of_le_of_lt under high)
      rw [records_take high, above, List.filter_cons, if_pos kept, records_take high]
      exact congrArg (head :: ·) (hypothesis (le_trans under (le_of_lt high)))

theorem records_eq_self (high : ∀ x ∈ xs, floor < key x) (ascending : xs.Pairwise fun a b => key a < key b) :
    records key floor xs = xs := by
  induction xs generalizing floor with
  | nil => rfl
  | cons head rest hypothesis =>
    obtain ⟨first, later⟩ := List.pairwise_cons.mp ascending
    rw [records_take (high head List.mem_cons_self), hypothesis first later]

/-- As many elements exceed the floor as are records exactly when those that exceed it ascend. -/
theorem length_above_eq_iff (floor : α) (xs : List β) :
    (above key floor xs).length = (records key floor xs).length ↔
      (above key floor xs).Pairwise fun a b => key a < key b := by
  rw [← records_above (le_refl floor) xs]
  constructor
  · intro same
    rw [← (records_sublist floor (above key floor xs)).eq_of_length same.symm]
    exact pairwise_records floor _
  · intro ascending
    have high : ∀ x ∈ above key floor xs, floor < key x := by
      intro x member
      exact of_decide_eq_true (List.mem_filter.mp member).2
    rw [records_eq_self high ascending]

end YbeProxy.Records
