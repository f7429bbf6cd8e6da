import Mathlib.Data.List.ReduceOption
import Mathlib.Data.List.Nodup

/-!
# Sets in slots

A set kept in a bounded list of slots. A value goes to the first free slot, or to a new one at the end, unless it is
there already; a removal frees the first slot whose value passes a test.
-/

namespace YbeProxy.SlotStore

variable {α : Type*} [DecidableEq α]

/-- False when no slot is left. -/
def add (capacity : ℕ) (slots : List (Option α)) (x : α) : Bool × List (Option α) :=
  if some x ∈ slots then (true, slots)
  else match slots.findIdx? Option.isNone with
    | some free => (true, slots.set free (some x))
    | none => if slots.length = capacity then (false, slots) else (true, slots ++ [some x])

def remove (p : α → Bool) (slots : List (Option α)) : List (Option α) :=
  match slots.findIdx? fun slot => slot.any p with
  | some i => slots.set i none
  | none => slots

/-- No value is there twice, and the slots are no more than there can be. -/
structure Sound (capacity : ℕ) (slots : List (Option α)) : Prop where
  apart : slots.reduceOption.Nodup
  bounded : slots.length ≤ capacity

/-! ## One slot -/

omit [DecidableEq α] in
theorem reduceOption_split (front back : List (Option α)) (slot : Option α) :
    (front ++ slot :: back).reduceOption = front.reduceOption ++ (slot.toList ++ back.reduceOption) := by
  rw [List.reduceOption_append]
  cases slot with
  | none => rw [List.reduceOption_cons_of_none, Option.toList_none, List.nil_append]
  | some x => rw [List.reduceOption_cons_of_some, Option.toList_some, List.singleton_append]

omit [DecidableEq α] in
/-- The first slot that passes a test, and what stands on its sides. -/
theorem split_of_findIdx? {slots : List (Option α)} {p : Option α → Bool} {i : ℕ} (found : slots.findIdx? p = some i) :
    ∃ front slot back, slots = front ++ slot :: back ∧ i = front.length ∧
      (∀ new, slots.set i new = front ++ new :: back) ∧ p slot = true ∧ ∀ other ∈ front, p other = false := by
  obtain ⟨inside, hit, missed⟩ := List.findIdx?_eq_some_iff_getElem.mp found
  have set (new : Option α) : slots.set i new = slots.take i ++ new :: slots.drop (i + 1) := by
    rw [List.set_eq_take_append_cons_drop, if_pos inside]
  refine ⟨slots.take i, slots[i], slots.drop (i + 1), ?_, ?_, set, hit, ?_⟩
  · rw [← set, List.set_getElem_self]
  · rw [List.length_take]
    omega
  · intro other member
    obtain ⟨j, below, same⟩ := List.mem_take_iff_getElem.mp member
    rw [← same]
    simpa using missed j (by omega)

omit [DecidableEq α] in
theorem some_of_any {p : α → Bool} {slot : Option α} (hit : slot.any p = true) : ∃ x, slot = some x := by
  cases slot with
  | none => cases hit
  | some x => exact ⟨x, rfl⟩

/-! ## Additions -/

variable {capacity : ℕ} {slots : List (Option α)} {x : α}

theorem add_of_mem (capacity : ℕ) (there : x ∈ slots.reduceOption) : add capacity slots x = (true, slots) := by
  rw [add, if_pos (List.reduceOption_mem_iff.mp there)]

/-- A new value joins the others, or there is no room for it. -/
theorem add_of_not_mem (bounded : slots.length ≤ capacity) (new : x ∉ slots.reduceOption) :
    (slots.reduceOption.length < capacity ∧ (add capacity slots x).1 = true ∧
      (add capacity slots x).2.reduceOption.Perm (x :: slots.reduceOption) ∧
      (add capacity slots x).2.length ≤ capacity) ∨
    (slots.reduceOption.length = capacity ∧ add capacity slots x = (false, slots)) := by
  rw [add, if_neg fun there => new (List.reduceOption_mem_iff.mpr there)]
  cases search : slots.findIdx? Option.isNone with
  | some free =>
    obtain ⟨front, slot, back, rfl, _, set, empty, _⟩ := split_of_findIdx? search
    obtain rfl := Option.isNone_iff_eq_none.mp empty
    simp only [set]
    refine Or.inl ⟨?_, trivial, ?_, ?_⟩
    · have fewer : (front ++ none :: back).reduceOption.length < (front ++ none :: back).length :=
        List.reduceOption_length_lt_iff.mpr (by simp)
      omega
    · rw [reduceOption_split, reduceOption_split]
      exact List.perm_middle
    · simpa using bounded
  | none =>
    have full : slots.reduceOption.length = slots.length := by
      apply List.reduceOption_length_eq_iff.mpr
      intro slot member
      simpa using List.findIdx?_eq_none_iff.mp search slot member
    by_cases last : slots.length = capacity
    · exact Or.inr ⟨full.trans last, by simp only [if_pos last]⟩
    · simp only [if_neg last]
      refine Or.inl ⟨by omega, trivial, ?_, ?_⟩
      · simp [reduceOption_split]
      · rw [List.length_append, List.length_singleton]
        omega

theorem Sound.add (sound : Sound capacity slots) (x : α) : Sound capacity (add capacity slots x).2 := by
  by_cases there : x ∈ slots.reduceOption
  · rwa [add_of_mem capacity there]
  · rcases add_of_not_mem sound.bounded there with ⟨_, _, joined, bounded⟩ | ⟨_, refused⟩
    · exact ⟨joined.nodup_iff.mpr (List.nodup_cons.mpr ⟨there, sound.apart⟩), bounded⟩
    · rwa [refused]

/-- Values that are apart and not too many fill an empty store in their order. -/
theorem foldl_add_nil {values : List α} (apart : values.Nodup) (few : values.length ≤ capacity) :
    values.foldl (fun slots x => (SlotStore.add capacity slots x).2) [] = values.map some := by
  have fill (first : List α) (rest : List α) (apart : (first ++ rest).Nodup) (few : (first ++ rest).length ≤ capacity) :
      rest.foldl (fun slots x => (SlotStore.add capacity slots x).2) (first.map some) = (first ++ rest).map some := by
    induction rest generalizing first with
    | nil => simp
    | cons x rest hypothesis =>
      have new : some x ∉ first.map some := by
        intro there
        obtain ⟨other, member, same⟩ := List.mem_map.mp there
        obtain rfl := Option.some.inj same
        exact (List.nodup_append.mp apart).2.2 other member other List.mem_cons_self rfl
      have taken : (first.map some).findIdx? Option.isNone = none := by simp [List.findIdx?_eq_none_iff]
      have room : ¬ (first.map some).length = capacity := by
        rw [List.length_append, List.length_cons] at few
        rw [List.length_map]
        omega
      have added : (SlotStore.add capacity (first.map some) x).2 = (first ++ [x]).map some := by
        simp only [SlotStore.add, if_neg new, taken, if_neg room, List.map_append, List.map_singleton]
      rw [List.foldl_cons, added, hypothesis (first ++ [x]) (by simpa using apart) (by simpa using few)]
      simp
  simpa using fill [] values apart few

/-! ## Removals -/

omit [DecidableEq α] in
/-- The values in slot order lose their first one that passes the test. -/
theorem reduceOption_remove (p : α → Bool) (slots : List (Option α)) :
    (remove p slots).reduceOption = slots.reduceOption.eraseP p := by
  rw [remove]
  cases search : slots.findIdx? fun slot => slot.any p with
  | none =>
    symm
    apply List.eraseP_of_forall_not
    intro x member
    have missed := List.findIdx?_eq_none_iff.mp search (some x) (List.reduceOption_mem_iff.mp member)
    simpa using missed
  | some i =>
    obtain ⟨front, slot, back, rfl, _, set, hit, missed⟩ := split_of_findIdx? search
    obtain ⟨x, rfl⟩ := some_of_any hit
    have others : ∀ other ∈ front.reduceOption, ¬ p other = true := by
      intro other member
      simpa using missed (some other) (List.reduceOption_mem_iff.mp member)
    have first : p x = true := hit
    simp only [set]
    rw [reduceOption_split, reduceOption_split, List.eraseP_append_right _ others, Option.toList_none,
      Option.toList_some, List.singleton_append, List.eraseP_cons_of_pos first, List.nil_append]

omit [DecidableEq α] in
theorem length_remove (p : α → Bool) (slots : List (Option α)) : (remove p slots).length = slots.length := by
  rw [remove]
  cases slots.findIdx? fun slot => slot.any p with
  | none => rfl
  | some i => simp

omit [DecidableEq α] in
theorem Sound.remove (sound : Sound capacity slots) (p : α → Bool) : Sound capacity (remove p slots) := by
  refine ⟨?_, (length_remove p slots) ▸ sound.bounded⟩
  rw [reduceOption_remove]
  exact List.eraseP_sublist.nodup sound.apart

omit [DecidableEq α] in
/-- The first slot that passes is freed and its value gone, or no slot passes. -/
theorem remove_cases {slots : List (Option α)} (apart : slots.reduceOption.Nodup) (p : α → Bool) :
    (∃ i x, slots[i]? = some (some x) ∧ p x = true ∧ (∀ j y, j < i → slots[j]? = some (some y) → p y = false) ∧
      remove p slots = slots.set i none ∧
      ∀ y, y ∈ (remove p slots).reduceOption ↔ y ≠ x ∧ y ∈ slots.reduceOption) ∨
    (slots.findIdx? (fun slot => slot.any p) = none ∧ ∀ x ∈ slots.reduceOption, p x = false) := by
  cases search : slots.findIdx? fun slot => slot.any p with
  | none =>
    refine Or.inr ⟨rfl, ?_⟩
    intro x member
    simpa using List.findIdx?_eq_none_iff.mp search (some x) (List.reduceOption_mem_iff.mp member)
  | some i =>
    have freed : remove p slots = slots.set i none := by rw [remove, search]
    obtain ⟨front, slot, back, rfl, rfl, set, hit, missed⟩ := split_of_findIdx? search
    obtain ⟨x, rfl⟩ := some_of_any hit
    refine Or.inl ⟨front.length, x, by simp, hit, ?_, freed, ?_⟩
    · intro j y below found
      rw [List.getElem?_append_left below] at found
      exact missed (some y) (List.mem_of_getElem? found)
    · intro y
      rw [freed, set, reduceOption_split, reduceOption_split]
      rw [reduceOption_split, Option.toList_some, List.singleton_append, List.nodup_middle, List.nodup_cons,
        List.mem_append] at apart
      obtain ⟨alone, _⟩ := apart
      simp only [Option.toList_none, Option.toList_some, List.nil_append, List.singleton_append, List.mem_append,
        List.mem_cons]
      constructor
      · intro member
        refine ⟨?_, member.imp_right Or.inr⟩
        rintro rfl
        exact alone member
      · rintro ⟨other, first | same | last⟩
        · exact Or.inl first
        · exact absurd same other
        · exact Or.inr last

/-! ## Two values asked for at once -/

omit [DecidableEq α] in
theorem remove_none_cons (p : α → Bool) (slots : List (Option α)) : remove p (none :: slots) = none :: remove p slots := by
  simp only [remove, List.findIdx?_cons, Option.any_none, Bool.false_eq_true, if_false]
  cases slots.findIdx? fun slot => slot.any p with
  | none => rfl
  | some i => rfl

omit [DecidableEq α] in
theorem remove_some_cons (p : α → Bool) (x : α) (slots : List (Option α)) :
    remove p (some x :: slots) = if p x then none :: slots else some x :: remove p slots := by
  simp only [remove, List.findIdx?_cons, Option.any_some]
  by_cases hit : p x = true
  · simp only [if_pos hit, List.set_cons_zero]
  · simp only [if_neg hit]
    cases slots.findIdx? fun slot => slot.any p with
    | none => rfl
    | some i => rfl

omit [DecidableEq α] in
theorem remove_congr {p q : α → Bool} {slots : List (Option α)} (same : ∀ x, some x ∈ slots → p x = q x) :
    remove p slots = remove q slots := by
  induction slots with
  | nil => rfl
  | cons slot rest hypothesis =>
    have later := hypothesis fun x member => same x (List.mem_cons_of_mem slot member)
    cases slot with
    | none => rw [remove_none_cons, remove_none_cons, later]
    | some x => rw [remove_some_cons, remove_some_cons, same x List.mem_cons_self, later]

theorem remove_of_absent {x : α} {slots : List (Option α)} (absent : some x ∉ slots) :
    remove (fun y => y = x) slots = slots := by
  rw [remove, List.findIdx?_eq_none_iff.mpr]
  rintro (_ | y) member
  · rfl
  · refine decide_eq_false ?_
    rintro rfl
    exact absent member

/-- Asked for either of two values, a removal takes the wanted one, and only that, unless a slot in front of it has the other
one. -/
theorem remove_either_iff (wanted other : α) (slots : List (Option α)) :
    remove (fun x => x = wanted ∨ x = other) slots = remove (fun x => x = wanted) slots ↔
      some other ∉ slots.takeWhile fun slot => slot ≠ some wanted := by
  induction slots with
  | nil => simp [remove]
  | cons slot rest hypothesis =>
    cases slot with
    | none => simpa [remove_none_cons] using hypothesis
    | some x =>
      rw [remove_some_cons, remove_some_cons]
      by_cases hit : x = wanted
      · simp [hit]
      by_cases second : x = other
      · subst second
        simp [hit]
      · simpa [hit, second, Ne.symm second, List.takeWhile_cons] using hypothesis

end YbeProxy.SlotStore
