import YbeProxy.Challenge
import YbeProxy.ServerCommands

/-!
# The text of a list of checksums

The server names its paks in one text, each checksum as `%i` prints it and a space behind it. The tokenizer reads the
list back from a text that fits its copy.
-/

namespace YbeProxy.ChecksumText
open YbeProxy.Strings YbeProxy.ServerCommands
open YbeProxy.Cmd
open YbeProxy.Addresses (isDigit_of_mem_decimal decimal_ne_nil)
open YbeProxy.Challenge (atoi_decimalInt)

/-- The text of a checksum. -/
def sumText (sum : Int32) : CString := decimalInt sum.toInt

/-- The text of a list, as `FS_LoadedPakPureChecksums` gives it. -/
def sumsText (sums : List Int32) : CString := sums.flatMap fun sum => sumText sum ++ [' ']

theorem number_sumText (sum : Int32) : number (sumText sum) = sum := by
  rw [number, sumText, atoi_decimalInt, Int32.ofInt_toInt]

theorem map_number_sumText (sums : List Int32) : (sums.map sumText).map number = sums := by
  have back : number ∘ sumText = id := funext number_sumText
  rw [List.map_map, back, List.map_id]

/-! ## A checksum as a token -/

/-- The characters of a number. -/
theorem of_mem_sumText {sum : Int32} {c : Char} (member : c ∈ sumText sum) : c = '-' ∨ isDigit c = true := by
  rw [sumText, decimalInt] at member
  split at member
  · rcases List.mem_cons.mp member with rfl | member
    · exact .inl rfl
    · exact .inr (isDigit_of_mem_decimal member)
  · exact .inr (isDigit_of_mem_decimal member)

theorem sumText_ne_nil (sum : Int32) : sumText sum ≠ [] := by
  rw [sumText, decimalInt]
  split
  · exact List.cons_ne_nil _ _
  · exact decimal_ne_nil _

theorem unquoted_sumText (sum : Int32) : '"' ∉ sumText sum :=
  fun member => absurd (of_mem_sumText member) (by decide)

theorem plain_sumText (sum : Int32) : Plain (sumText sum) := by
  have slash : '/' ∉ sumText sum := fun member => absurd (of_mem_sumText member) (by decide)
  refine ⟨?_, fun found => slash (found.subset (by decide)), fun found => slash (found.subset (by decide))⟩
  intro c member
  rcases of_mem_sumText member with rfl | digit
  · decide
  · have range : 48 ≤ c.toNat ∧ c.toNat ≤ 57 := by
      simpa [isDigit, Char.le_def, UInt32.le_iff_toNat_le] using digit
    simp [blank]
    omega

/-! ## The list that is read back -/

theorem sumsText_cons (sum : Int32) (sums : List Int32) : sumsText (sum :: sums) = sumText sum ++ ' ' :: sumsText sums := by
  simp [sumsText]

theorem sumsText_append (sums others : List Int32) : sumsText (sums ++ others) = sumsText sums ++ sumsText others :=
  List.flatMap_append

theorem length_sumsText_replicate (count : ℕ) (sum : Int32) :
    (sumsText (List.replicate count sum)).length = count * ((sumText sum).length + 1) := by
  induction count with
  | zero => simp [sumsText]
  | succ count hypothesis =>
    rw [List.replicate_succ, sumsText_cons, List.length_append, List.length_cons, hypothesis, Nat.succ_mul]
    omega

theorem tokensFrom_sumsText (sums : List Int32) (after : CString) (room : ℕ) :
    tokensFrom false room (sumsText sums ++ after) =
      (sums.map sumText).take room ++ tokensFrom false (room - sums.length) after := by
  induction sums generalizing room with
  | nil => simp [sumsText]
  | cons sum sums hypothesis =>
    cases room with
    | zero => simp [tokensFrom]
    | succ room =>
      have spaced (text : CString) : ∀ c ∈ (' ' :: text).head?, c = ' ' := by simp
      rw [sumsText_cons, List.append_assoc, List.cons_append, (plain_sumText sum).tokensFrom_append (spaced _)
        (sumText_ne_nil sum) (.inr (unquoted_sumText sum)), tokensFrom_space, hypothesis, List.length_cons,
        Nat.add_sub_add_right]
      simp

/-- What is read of a text that fits: the list, as far as there is room for its tokens. -/
theorem map_number_sumsText {sums : List Int32} (fits : (sumsText sums).length < bigInfoString) :
    (cmdTokenizeString2 (sumsText sums) false).map number = sums.take maxStringTokens := by
  have read := tokensFrom_sumsText sums [] maxStringTokens
  rw [List.append_nil, tokensFrom_nil, List.append_nil] at read
  rw [cmdTokenizeString2, qStrncpyz_of_fits fits, read, ← List.map_take, map_number_sumText]

end YbeProxy.ChecksumText
