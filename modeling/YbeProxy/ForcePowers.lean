import YbeProxy.UserinfoWrites

/-!
# Force powers

The texts that the scan of the `forcepowers` value lets through are those of a grammar, and the game reads no other.
-/

namespace YbeProxy.ForcePowers
open YbeProxy.Strings YbeProxy.Infostrings YbeProxy.Userinfo YbeProxy.UserinfoWrites

/-- `rank-side-powers`: two numbers, and at least one level for each force power. -/
structure ForceText (s : CString) : Prop where
  parts : ∃ rank side powers, s = rank ++ '-' :: (side ++ '-' :: powers) ∧ rank ≠ [] ∧ side ≠ [] ∧
    (∀ c ∈ rank, isDigit c = true) ∧ (∀ c ∈ side, isDigit c = true) ∧
    numForcePowers ≤ powers.length ∧ ∀ c ∈ powers, '0' ≤ c ∧ c ≤ '3'
  length : 22 ≤ s.length ∧ s.length ≤ 24

/-! ## Steps of the scan -/

/-- A digit that may stand where the scan is. -/
def Fits (scan : ForceScan) (c : Char) : Prop := isDigit c = true ∧ (scan.seps = 2 → c ≤ '3')

theorem ne_dash_of_isDigit {c : Char} (digit : isDigit c = true) : c ≠ '-' := by
  rintro rfl
  revert digit
  decide

theorem scanForce_digit {scan : ForceScan} {c : Char} (fits : Fits scan c) (i : Nat) (prev : Option Char) (rest : CString) :
    scanForce i prev scan (c :: rest) = scanForce (i + 1) (some c) scan rest := by
  obtain ⟨digit, level⟩ := fits
  have other := ne_dash_of_isDigit digit
  have low : ¬ (scan.seps = 2 ∧ c > '3') := fun high => Char.not_lt.mpr (level high.1) high.2
  rw [scanForce, if_neg (by simp [digit]), if_neg (by simp [other]), if_neg (by simp [other]), if_neg low, if_neg other]

theorem scanForce_digits {scan : ForceScan} {word : CString} (fits : ∀ c ∈ word, Fits scan c) (i : Nat) (prev : Option Char)
    (rest : CString) :
    scanForce i prev scan (word ++ rest) = scanForce (i + word.length) (word.getLast?.or prev) scan rest := by
  induction word generalizing i prev with
  | nil => rfl
  | cons c word hypothesis =>
    obtain ⟨here, others⟩ := List.forall_mem_cons.mp fits
    rw [List.cons_append, scanForce_digit here, hypothesis others, List.length_cons, Nat.add_right_comm, Nat.add_assoc]
    congr 1
    cases word with
    | nil => rfl
    | cons d word => simp [List.getLast?_cons]

/-- A separator stands behind a digit and not too far back. -/
theorem scanForce_dash {i : Nat} (place : 1 ≤ i ∧ i ≤ 5) {prev : Option Char} (single : prev ≠ some '-') (scan : ForceScan)
    (rest : CString) :
    scanForce i prev scan ('-' :: rest) = scanForce (i + 1) (some '-') ⟨scan.bad, scan.seps + 1, i + 1⟩ rest := by
  have low : ¬ (scan.seps = 2 ∧ '-' > '3') := fun high => absurd high.2 (by decide)
  rw [scanForce, if_neg (by simp), if_neg (by omega), if_neg (by simp [single]), if_neg low, if_pos rfl]

/-- What a character is like that the scan does not stop at. -/
theorem of_scanForce_good {i : Nat} {prev : Option Char} {scan : ForceScan} {c : Char} {rest : CString}
    (good : (scanForce i prev scan (c :: rest)).bad = false) :
    (c ≠ '-' → isDigit c = true) ∧ (c = '-' → (1 ≤ i ∧ i ≤ 5) ∧ prev ≠ some '-') ∧ (scan.seps = 2 → c ≤ '3') := by
  rw [scanForce] at good
  split at good
  · cases good
  split at good
  · cases good
  split at good
  · cases good
  split at good
  · cases good
  rename_i character place single level
  refine ⟨?_, ?_, ?_⟩
  · intro other
    by_contra symbol
    exact character ⟨other, by simpa using symbol⟩
  · intro dash
    constructor
    · by_contra far
      exact place ⟨by omega, dash⟩
    · exact fun twice => single ⟨twice, dash⟩
  · intro two
    by_contra high
    exact level ⟨two, Char.not_le.mp high⟩

theorem seps_le_scanForce (i : Nat) (prev : Option Char) (scan : ForceScan) (s : CString) :
    scan.seps ≤ (scanForce i prev scan s).seps := by
  induction s generalizing i prev scan with
  | nil => exact Nat.le_refl _
  | cons c rest hypothesis =>
    rw [scanForce]
    split
    · exact Nat.le_refl _
    split
    · exact Nat.le_refl _
    split
    · exact Nat.le_refl _
    split
    · exact Nat.le_refl _
    split
    · exact Nat.le_of_succ_le (hypothesis (i + 1) (some c) ⟨scan.bad, scan.seps + 1, i + 1⟩)
    · exact hypothesis (i + 1) (some c) scan

/-! ## The grammar -/

theorem badForce_eq_false_iff (s : CString) :
    badForce s = false ↔ (22 ≤ s.length ∧ s.length ≤ 24) ∧ (scanForce 0 none ⟨false, 0, 0⟩ s).bad = false ∧
      (scanForce 0 none ⟨false, 0, 0⟩ s).seps = 2 ∧
      numForcePowers ≤ s.length - (scanForce 0 none ⟨false, 0, 0⟩ s).powersStart := by
  rw [badForce]
  split
  · rename_i length
    simp [length, and_assoc]
  · rename_i length
    simp [length]

theorem fits_of_isDigit {scan : ForceScan} {word : CString} (digits : ∀ c ∈ word, isDigit c = true) (early : scan.seps < 2) :
    ∀ c ∈ word, Fits scan c := fun c member => ⟨digits c member, fun two => by omega⟩

theorem last_ne_dash {word : CString} (present : word ≠ []) (digits : ∀ c ∈ word, isDigit c = true) (prev : Option Char) :
    word.getLast?.or prev ≠ some '-' := by
  rw [List.getLast?_eq_some_getLast present, Option.some_or]
  intro same
  have member := List.getLast_mem present
  rw [Option.some.inj same] at member
  exact ne_dash_of_isDigit (digits '-' member) rfl

theorem badForce_of_forceText {s : CString} (text : ForceText s) : badForce s = false := by
  obtain ⟨⟨rank, side, powers, rfl, rankPresent, sidePresent, rankDigits, sideDigits, enough, levels⟩, length⟩ := text
  have rankLength := List.length_pos_iff.mpr rankPresent
  have sideLength := List.length_pos_iff.mpr sidePresent
  have size : (rank ++ '-' :: (side ++ '-' :: powers)).length = rank.length + side.length + powers.length + 2 := by
    simp only [List.length_append, List.length_cons]
    omega
  have fits : ∀ c ∈ powers, Fits ⟨false, 2, rank.length + 1 + side.length + 1⟩ c := by
    intro c member
    obtain ⟨low, high⟩ := levels c member
    have digit : c ≤ '9' := Char.le_trans high (by decide)
    exact ⟨by simp [isDigit, low, digit], fun _ => high⟩
  rw [size] at length
  have scanned : scanForce 0 none ⟨false, 0, 0⟩ (rank ++ '-' :: (side ++ '-' :: powers)) =
      ⟨false, 2, rank.length + 1 + side.length + 1⟩ := by
    rw [numForcePowers] at enough
    rw [scanForce_digits (fits_of_isDigit rankDigits (by decide)), Nat.zero_add,
      scanForce_dash (by omega) (last_ne_dash rankPresent rankDigits none),
      scanForce_digits (fits_of_isDigit sideDigits (Nat.lt_succ_self 1)),
      scanForce_dash (by omega) (last_ne_dash sidePresent sideDigits _), ← List.append_nil powers, scanForce_digits fits]
    rfl
  rw [badForce_eq_false_iff, scanned, size]
  refine ⟨length, rfl, rfl, ?_⟩
  dsimp only
  omega

/-- The digits up to the first separator, where the scan ends well. -/
theorem exists_dash {i : Nat} {prev : Option Char} {scan : ForceScan} {s : CString} (early : scan.seps < 2)
    (good : (scanForce i prev scan s).bad = false) (two : (scanForce i prev scan s).seps = 2)
    (start : prev = none ∧ i = 0 ∨ prev = some '-') :
    ∃ word rest, s = word ++ '-' :: rest ∧ word ≠ [] ∧ (∀ c ∈ word, isDigit c = true) ∧
      scanForce i prev scan s =
        scanForce (i + word.length + 1) (some '-') ⟨scan.bad, scan.seps + 1, i + word.length + 1⟩ rest := by
  obtain ⟨word, digits, outcome⟩ := exists_run (fun c => !isDigit c) s
  have whole : ∀ c ∈ word, isDigit c = true := fun c member => by simpa using digits c member
  have scanned (rest : CString) := scanForce_digits (fits_of_isDigit whole early) i prev rest
  rcases outcome with rfl | ⟨c, rest, rfl, stop⟩
  · have last := scanned []
    rw [List.append_nil] at last
    rw [last, scanForce] at two
    omega
  · rw [scanned] at good
    obtain ⟨digit, separates, _⟩ := of_scanForce_good good
    have dash : c = '-' := by
      by_contra other
      simp [digit other] at stop
    subst dash
    obtain ⟨place, single⟩ := separates rfl
    have present : word ≠ [] := by
      rintro rfl
      rcases start with ⟨_, rfl⟩ | dash
      · simp at place
      · exact single dash
    exact ⟨word, rest, rfl, present, whole, (scanned _).trans (scanForce_dash place single scan rest)⟩

/-- Behind the second separator stand levels only. -/
theorem levels_of_scanForce {i start : Nat} {prev : Option Char} {s : CString}
    (good : (scanForce i prev ⟨false, 2, start⟩ s).bad = false) (two : (scanForce i prev ⟨false, 2, start⟩ s).seps = 2) :
    (∀ c ∈ s, '0' ≤ c ∧ c ≤ '3') ∧ (scanForce i prev ⟨false, 2, start⟩ s).powersStart = start := by
  obtain ⟨word, levels, outcome⟩ := exists_run (fun c => !(isDigit c && c ≤ '3')) s
  have level : ∀ c ∈ word, isDigit c = true ∧ c ≤ '3' := fun c member => by simpa using levels c member
  have fits : ∀ c ∈ word, Fits ⟨false, 2, start⟩ c := fun c member => ⟨(level c member).1, fun _ => (level c member).2⟩
  have scanned (rest : CString) := scanForce_digits fits i prev rest
  rcases outcome with rfl | ⟨c, rest, rfl, stop⟩
  · constructor
    · intro c member
      obtain ⟨digit, high⟩ := level c member
      simp only [isDigit, Bool.and_eq_true, decide_eq_true_eq] at digit
      exact ⟨digit.1, high⟩
    · have last := scanned []
      rw [List.append_nil] at last
      rw [last]
      rfl
  · exfalso
    rw [scanned] at good two
    obtain ⟨digit, separates, low⟩ := of_scanForce_good good
    by_cases same : c = '-'
    · subst same
      obtain ⟨place, single⟩ := separates rfl
      rw [scanForce_dash place single] at two
      have third := seps_le_scanForce (i + word.length + 1) (some '-') ⟨false, 2 + 1, i + word.length + 1⟩ rest
      rw [two] at third
      exact absurd third (Nat.not_succ_le_self 2)
    · simp [digit same, low rfl] at stop

theorem forceText_of_not_badForce {s : CString} (good : badForce s = false) : ForceText s := by
  obtain ⟨length, good, two, enough⟩ := (badForce_eq_false_iff s).mp good
  obtain ⟨rank, rest, rfl, rankPresent, rankDigits, first⟩ := exists_dash (by decide) good two (Or.inl ⟨rfl, rfl⟩)
  rw [first] at good two enough
  obtain ⟨side, powers, rfl, sidePresent, sideDigits, second⟩ :=
    exists_dash (Nat.lt_succ_self 1) good two (Or.inr rfl)
  rw [second] at good two enough
  obtain ⟨levels, start⟩ := levels_of_scanForce good two
  refine ⟨⟨rank, side, powers, rfl, rankPresent, sidePresent, rankDigits, sideDigits, ?_, levels⟩, length⟩
  rw [start] at enough
  simp only [List.length_append, List.length_cons] at enough
  omega

theorem badForce_iff (s : CString) : badForce s = false ↔ ForceText s :=
  ⟨forceText_of_not_badForce, badForce_of_forceText⟩

/-! ## What the game reads -/

def defaultPowers : CString := "7-1-030000000000003332".toList

theorem forceText_default : ForceText defaultPowers := (badForce_iff _).mp (by decide)

/-- A text of the grammar is kept, and every other, also one that the buffer cuts, is replaced. -/
theorem forcePowers_cases (val : CString) :
    (ForceText val → forcePowers val = val) ∧ (¬ ForceText val → forcePowers val = defaultPowers) := by
  constructor
  · intro text
    have fits : qStrncpyz val 30 = val := qStrncpyz_of_fits (by have := text.length; omega)
    simp only [forcePowers, fits, (badForce_iff val).mpr text]
    rfl
  · intro other
    have bad : badForce (qStrncpyz val 30) = true := by
      rw [← Bool.not_eq_false, badForce_iff]
      intro text
      by_cases fits : val.length < 30
      · rw [qStrncpyz_of_fits fits] at text
        exact other text
      · have length := text.length
        rw [qStrncpyz, List.length_take] at length
        omega
    simp only [forcePowers, bad, if_true]
    rfl

/-- The value that is read, where the client has sent its own. -/
structure Checked (own read : CString) : Prop where
  kept : ForceText own → read = own
  replaced : ¬ ForceText own → read = defaultPowers
  safe : ForceText read

theorem checked_forcePowers (val : CString) : Checked val (forcePowers val) := by
  obtain ⟨kept, replaced⟩ := forcePowers_cases val
  refine ⟨kept, replaced, ?_⟩
  by_cases text : ForceText val
  · rwa [kept text]
  · rw [replaced text]
    exact forceText_default

/-- The value that the game reads is the one of the client where it is in the grammar, and the default where it is not. -/
theorem game_reads_forcePowers {env : Environment} {clientNum : Nat} {userinfo : Infostring}
    (accepted : (sanitize env clientNum true userinfo).refusal = none) :
    ∃ written, setUserinfo env clientNum true userinfo = some written ∧
      Checked (infoValueForKey userinfo.text "forcepowers".toList) (infoValueForKey written.text "forcepowers".toList) := by
  obtain ⟨valid, written, done⟩ := (accepted_iff env clientNum userinfo).mp accepted
  obtain ⟨_, called⟩ := sanitize_accepted valid done
  have delimited := delimited_of_validate valid
  obtain ⟨_, all⟩ := (sanitizeText_ok_iff delimited).mp done
  obtain ⟨_, _, _, powers⟩ := reads_written delimited all
  refine ⟨written, called, ?_⟩
  rw [powers]
  exact checked_forcePowers _

theorem game_reads_forcePowers_sample :
    ∃ written, setUserinfo noPlayers 0 true (userinfoOf "Bob".toList) = some written ∧
      Checked (infoValueForKey (userinfoOf "Bob".toList).text "forcepowers".toList)
        (infoValueForKey written.text "forcepowers".toList) := by
  refine @game_reads_forcePowers noPlayers 0 (userinfoOf "Bob".toList) ?_
  rw [userinfoOf]
  repeat rw [String.toList_ofList]
  decide +kernel

end YbeProxy.ForcePowers
