import Mathlib.Data.List.Basic

/-!
# Memory by its bytes

A memory takes every address to a byte. What a write leaves alone is said of the addresses: it changes those of its range
only, and what is not to change is kept by every write whose range avoids it.
-/

namespace YbeProxy.Memory

variable {α : Type}

def read (bytes : ℕ → α) (address length : ℕ) : List α := (List.range length).map fun i => bytes (address + i)

def write (bytes : ℕ → α) (address : ℕ) (data : List α) : ℕ → α :=
  fun a => if address ≤ a then (data[a - address]?).getD (bytes a) else bytes a

/-- The address is one of a range. -/
def Within (address length a : ℕ) : Prop := address ≤ a ∧ a < address + length

theorem length_read (bytes : ℕ → α) (address length : ℕ) : (read bytes address length).length = length := by
  simp [read]

theorem getElem_read (bytes : ℕ → α) (address : ℕ) {length i : ℕ} (inside : i < (read bytes address length).length) :
    (read bytes address length)[i] = bytes (address + i) := by
  simp only [read, List.getElem_map, List.getElem_range]

theorem read_succ (bytes : ℕ → α) (address length : ℕ) :
    read bytes address (length + 1) = bytes address :: read bytes (address + 1) length := by
  rw [read, List.range_succ_eq_map, List.map_cons, List.map_map, Nat.add_zero]
  refine congrArg _ (List.map_congr_left ?_)
  intro i _
  exact congrArg bytes (by omega)

theorem read_append (bytes : ℕ → α) (address length more : ℕ) :
    read bytes address (length + more) = read bytes address length ++ read bytes (address + length) more := by
  rw [read, List.range_add, List.map_append, List.map_map]
  refine congrArg _ (List.map_congr_left ?_)
  intro i _
  exact congrArg bytes (Nat.add_assoc _ _ _).symm

theorem write_outside (bytes : ℕ → α) (address : ℕ) (data : List α) {a : ℕ} (outside : ¬ Within address data.length a) :
    write bytes address data a = bytes a := by
  rw [write]
  split
  · rename_i before
    have behind : data.length ≤ a - address := by
      rw [Within] at outside
      omega
    rw [List.getElem?_eq_none behind, Option.getD_none]
  · rfl

/-- What was read from one memory is written into another: the range is as it was there. -/
theorem write_read_inside (bytes other : ℕ → α) (address length : ℕ) {a : ℕ} (inside : Within address length a) :
    write bytes address (read other address length) a = other a := by
  obtain ⟨before, behind⟩ := inside
  have index : a - address < length := by omega
  have back : address + (a - address) = a := by omega
  rw [write, if_pos before, read, List.getElem?_map, List.getElem?_range index, Option.map_some, Option.getD_some, back]

theorem write_inside (bytes : ℕ → α) (address : ℕ) {data : List α} {i : ℕ} (inside : i < data.length) :
    write bytes address data (address + i) = data[i] := by
  have index : address + i - address = i := by omega
  rw [write, if_pos (Nat.le_add_right _ _), index, List.getElem?_eq_getElem inside, Option.getD_some]

theorem write_read_at (bytes other : ℕ → α) (start address : ℕ) {length i : ℕ} (inside : i < length) :
    write bytes start (read other address length) (start + i) = other (address + i) := by
  rw [write_inside bytes start (by rwa [length_read]), getElem_read]

theorem read_congr {bytes other : ℕ → α} {address length : ℕ}
    (same : ∀ a, Within address length a → bytes a = other a) : read bytes address length = read other address length := by
  refine List.map_congr_left ?_
  intro i member
  have index := List.mem_range.mp member
  exact same (address + i) ⟨by omega, by omega⟩

theorem write_append (bytes : ℕ → α) (address : ℕ) (data more : List α) :
    write (write bytes address data) (address + data.length) more = write bytes address (data ++ more) := by
  funext a
  unfold write
  by_cases before : address ≤ a
  · by_cases first : a - address < data.length
    · have early : ¬ address + data.length ≤ a := by omega
      rw [if_neg early, if_pos before, if_pos before, List.getElem?_append_left first]
    · have late : address + data.length ≤ a := by omega
      rw [if_pos late, if_pos before, if_pos before, List.getElem?_append_right (Nat.le_of_not_lt first),
        List.getElem?_eq_none (Nat.le_of_not_lt first), Option.getD_none, Nat.sub_add_eq]
  · have early : ¬ address + data.length ≤ a := by omega
    rw [if_neg early, if_neg before, if_neg before]

theorem read_write_self (bytes : ℕ → α) (address : ℕ) (data : List α) :
    read (write bytes address data) address data.length = data := by
  refine List.ext_getElem (length_read _ _ _) ?_
  intro i _ inside
  simp only [read, List.getElem_map, List.getElem_range, write_inside bytes address inside]

theorem read_write_of_disjoint (bytes : ℕ → α) (start : ℕ) (data : List α) {address length : ℕ}
    (disjoint : ∀ a, Within address length a → ¬ Within start data.length a) :
    read (write bytes start data) address length = read bytes address length :=
  read_congr fun a inside => write_outside bytes start data (disjoint a inside)

/-! ## What a write keeps -/

/-- The two memories agree on a set of addresses. -/
def SameOn (kept : ℕ → Prop) (bytes other : ℕ → α) : Prop := ∀ a, kept a → other a = bytes a

/-- No address of the range is in the set. -/
def Avoids (kept : ℕ → Prop) (address length : ℕ) : Prop := ∀ a, Within address length a → ¬ kept a

theorem SameOn.refl (kept : ℕ → Prop) (bytes : ℕ → α) : SameOn kept bytes bytes := fun _ _ => rfl

theorem SameOn.trans {kept : ℕ → Prop} {bytes other third : ℕ → α} (first : SameOn kept bytes other)
    (second : SameOn kept other third) : SameOn kept bytes third :=
  fun a member => (second a member).trans (first a member)

theorem Avoids.part {kept : ℕ → Prop} {address length start size : ℕ} (avoids : Avoids kept address length)
    (before : address ≤ start) (behind : start + size ≤ address + length) : Avoids kept start size := by
  rintro a ⟨low, high⟩
  exact avoids a ⟨by omega, by omega⟩

theorem write_sameOn {kept : ℕ → Prop} (bytes : ℕ → α) {address : ℕ} {data : List α}
    (avoids : Avoids kept address data.length) : SameOn kept bytes (write bytes address data) := by
  intro a member
  exact write_outside bytes address data fun inside => avoids a inside member

/-! ## Several writes -/

def writeAll (bytes : ℕ → α) (writes : List (ℕ × List α)) : ℕ → α :=
  writes.foldl (fun bytes entry => write bytes entry.1 entry.2) bytes

/-- The address is in the range of one of the writes. -/
def Covered (writes : List (ℕ × List α)) (a : ℕ) : Prop := ∃ entry ∈ writes, Within entry.1 entry.2.length a

theorem write_congr {bytes other : ℕ → α} {a : ℕ} (same : bytes a = other a) (address : ℕ) (data : List α) :
    write bytes address data a = write other address data a := by
  rw [write, write, same]

theorem writeAll_congr {bytes other : ℕ → α} {a : ℕ} (same : bytes a = other a) (writes : List (ℕ × List α)) :
    writeAll bytes writes a = writeAll other writes a := by
  induction writes generalizing bytes other with
  | nil => exact same
  | cons entry writes hypothesis => exact hypothesis (write_congr same entry.1 entry.2)

theorem writeAll_outside (bytes : ℕ → α) {writes : List (ℕ × List α)} {a : ℕ} (outside : ¬ Covered writes a) :
    writeAll bytes writes a = bytes a := by
  induction writes generalizing bytes with
  | nil => rfl
  | cons entry writes hypothesis =>
    have later : ¬ Covered writes a := by
      rintro ⟨other, member, inside⟩
      exact outside ⟨other, List.mem_cons_of_mem entry member, inside⟩
    have first : ¬ Within entry.1 entry.2.length a := fun inside => outside ⟨entry, List.mem_cons_self, inside⟩
    exact (hypothesis _ later).trans (write_outside bytes entry.1 entry.2 first)

/-- Where something is written, nothing of the old memory is left. -/
theorem writeAll_covered (bytes other : ℕ → α) {writes : List (ℕ × List α)} {a : ℕ} (covered : Covered writes a) :
    writeAll bytes writes a = writeAll other writes a := by
  induction writes generalizing bytes other with
  | nil =>
    obtain ⟨entry, member, _⟩ := covered
    cases member
  | cons entry writes hypothesis =>
    by_cases later : Covered writes a
    · exact hypothesis _ _ later
    · obtain ⟨first, member, inside⟩ := covered
      rcases List.mem_cons.mp member with rfl | late
      · obtain ⟨i, rfl⟩ := Nat.exists_eq_add_of_le inside.1
        refine writeAll_congr ?_ writes
        dsimp only
        rw [write_inside _ _ (Nat.add_lt_add_iff_left.mp inside.2), write_inside _ _ (Nat.add_lt_add_iff_left.mp inside.2)]
      · exact absurd ⟨first, late, inside⟩ later

/-- The same writes once more change nothing. -/
theorem writeAll_again {bytes other : ℕ → α} {writes : List (ℕ × List α)} {a : ℕ}
    (written : other a = writeAll bytes writes a) : writeAll other writes a = writeAll bytes writes a := by
  by_cases covered : Covered writes a
  · exact writeAll_covered other bytes covered
  · rw [writeAll_outside other covered, written]

end YbeProxy.Memory
