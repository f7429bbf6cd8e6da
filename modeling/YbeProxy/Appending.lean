import YbeProxy.Strings

/-!
# Texts appended to a buffer

`Q_strcat` appends a text whole or not at all. What a buffer holds after a number of texts is those that fitted, in order,
and it is all of them exactly when they fit together.
-/

namespace YbeProxy.Appending
open YbeProxy.Strings

/-- The texts that find room, where so much of the buffer is used. -/
def fitting (size : Nat) : Nat → List CString → List CString
  | _, [] => []
  | used, text :: rest =>
    if used + text.length < size then text :: fitting size (used + text.length) rest else fitting size used rest

def appendAll (size : Nat) (dest : CString) (texts : List CString) : CString :=
  texts.foldl (fun dest text => qStrcat dest size text) dest

variable {size : Nat}

theorem appendAll_eq (dest : CString) (texts : List CString) :
    appendAll size dest texts = dest ++ (fitting size dest.length texts).flatten := by
  induction texts generalizing dest with
  | nil => exact (List.append_nil dest).symm
  | cons text rest hypothesis =>
    rw [appendAll, List.foldl_cons]
    change appendAll size (qStrcat dest size text) rest = _
    rw [hypothesis, fitting]
    by_cases room : dest.length + text.length < size
    · rw [qStrcat_of_fits room, if_pos room, List.length_append, List.flatten_cons, List.append_assoc]
    · rw [qStrcat_of_full (Nat.le_of_not_lt room), if_neg room]

theorem fitting_sublist (used : Nat) (texts : List CString) : (fitting size used texts).Sublist texts := by
  induction texts generalizing used with
  | nil => exact List.Sublist.refl []
  | cons text rest hypothesis =>
    rw [fitting]
    split
    · exact (hypothesis _).cons_cons text
    · exact (hypothesis used).cons text

theorem length_fitting_lt {used : Nat} (room : used < size) (texts : List CString) :
    used + (fitting size used texts).flatten.length < size := by
  induction texts generalizing used with
  | nil => exact room
  | cons text rest hypothesis =>
    rw [fitting]
    split
    · rename_i fits
      have later := hypothesis fits
      rw [List.flatten_cons, List.length_append]
      omega
    · exact hypothesis room

theorem fitting_eq_self_iff {used : Nat} (room : used < size) (texts : List CString) :
    fitting size used texts = texts ↔ used + texts.flatten.length < size := by
  constructor
  · intro all
    have bound := length_fitting_lt room texts
    rwa [all] at bound
  · intro fits
    induction texts generalizing used with
    | nil => rfl
    | cons text rest hypothesis =>
      rw [List.flatten_cons, List.length_append] at fits
      rw [fitting, if_pos (by omega), hypothesis (by omega) (by omega)]

theorem appendAll_of_fits {dest : CString} {texts : List CString} (fits : dest.length + texts.flatten.length < size) :
    appendAll size dest texts = dest ++ texts.flatten := by
  rw [appendAll_eq, (fitting_eq_self_iff (by omega) texts).mpr fits]

theorem length_flatten_le {bound : Nat} {texts : List CString} (short : ∀ text ∈ texts, text.length ≤ bound) :
    texts.flatten.length ≤ bound * texts.length := by
  induction texts with
  | nil => exact Nat.le_refl 0
  | cons text rest hypothesis =>
    obtain ⟨first, others⟩ := List.forall_mem_cons.mp short
    calc (text :: rest).flatten.length = text.length + rest.flatten.length := by
          rw [List.flatten_cons, List.length_append]
      _ ≤ bound + bound * rest.length := Nat.add_le_add first (hypothesis others)
      _ = bound * (text :: rest).length := by
          rw [List.length_cons, Nat.mul_succ, Nat.add_comm]

end YbeProxy.Appending
