import YbeProxy.Cancellation
import YbeProxy.CleanNames
import YbeProxy.Numerals
import Mathlib.Data.List.Nodup
import Mathlib.Data.List.Perm.Subperm

/-!
# Unique names

When two names count as the same one, and that the name which `UniqueName` gives is the name of no other client.
-/

namespace YbeProxy.UniqueNames
open YbeProxy.Strings YbeProxy.Cancellation YbeProxy.Infostrings YbeProxy.Userinfo YbeProxy.CleanNames

/-! ## Names without colors -/

def escapes (c : Char) : Bool := c = '^'

theorem escapes_apart (c : Char) (escape : escapes c = true) : isDigit c = false := by
  obtain rfl : c = '^' := by simpa [escapes] using escape
  decide

/-- A color code is taken out. -/
abbrev ColorCancels : CString → CString → Prop := Cancels escapes isDigit

theorem final_short {s : CString} (short : s.length < 2) : Final escapes isDigit s := by
  rintro _ ⟨front, back, _, _⟩
  simp at short
  omega

/-- A pass takes color codes out, and where it finds none it leaves the text alone. -/
theorem stripColorPass_cancels (s : CString) :
    Relation.ReflTransGen ColorCancels s (stripColorPass s).2 ∧
      ((stripColorPass s).1 = false → (stripColorPass s).2 = s ∧ Final escapes isDigit s) := by
  induction s using stripColorPass.induct with
  | case1 => exact ⟨.refl, fun _ => ⟨rfl, final_short (by decide)⟩⟩
  | case2 c => exact ⟨.refl, fun _ => ⟨rfl, final_short (Nat.lt_succ_self 1)⟩⟩
  | case3 c d s code hypothesis =>
    rw [stripColorPass, if_pos code]
    rw [Bool.and_eq_true, decide_eq_true_eq] at code
    refine ⟨.head (Cancels.pair [] s ?_ code.2) hypothesis.1, fun none => Bool.noConfusion none⟩
    rw [code.1]
    rfl
  | case4 c d s plain hypothesis =>
    rw [stripColorPass, if_neg plain]
    obtain ⟨reached, final⟩ := hypothesis
    refine ⟨Relation.ReflTransGen.lift (c :: ·) (fun _ _ cancels => Cancels.cons c cancels) _ _ reached, ?_⟩
    intro none
    obtain ⟨same, last⟩ := final none
    refine ⟨congrArg (c :: ·) same, final_cons last ?_⟩
    rintro _ ⟨⟩
    simpa [escapes] using plain

/-- Passes go on until no color code is left. -/
theorem qStripColor_cancels (s : CString) :
    Relation.ReflTransGen ColorCancels s (qStripColor s) ∧ Final escapes isDigit (qStripColor s) := by
  induction s using qStripColor.induct with
  | case1 s more hypothesis =>
    rw [qStripColor, if_pos more]
    exact ⟨(stripColorPass_cancels s).1.trans hypothesis.1, hypothesis.2⟩
  | case2 s last =>
    obtain ⟨reached, done⟩ := stripColorPass_cancels s
    obtain ⟨same, final⟩ := done (by simpa using last)
    rw [qStripColor, if_neg last]
    exact ⟨reached, by rwa [same]⟩

theorem qStripColor_eq (s : CString) : qStripColor s = reduced escapes isDigit s :=
  eq_reduced escapes_apart (qStripColor_cancels s).1 (qStripColor_cancels s).2

/-! ## What names are compared on -/

/-- No color codes, no spaces, no case. -/
def plainName (name : CString) : CString :=
  ((reduced escapes isDigit name).filter (· ≠ ' ')).map Char.toUpper

theorem nameKey_eq {name : CString} (short : name.length < maxNetname) :
    (nameKey name maxNetname).map Char.toUpper = plainName name := by
  rw [nameKey, qStrncpyz_of_fits short, qStripColor_eq, plainName]

theorem length_nameKey (name : CString) : (nameKey name maxNetname).length < maxNetname := by
  have stripped := length_le_of_cancels (qStripColor_cancels (qStrncpyz name maxNetname)).1
  have cut := length_qStrncpyz_lt name (by decide : 0 < maxNetname)
  exact (List.length_filter_le _ _).trans_lt (stripped.trans_lt cut)

theorem plain_number (number : Nat) :
    ∀ c ∈ '[' :: (decimal number ++ [']']), escapes c = false ∧ c ≠ ' ' ∧ c.toUpper = c := by
  have digits : ∀ digit < 10, escapes (Nat.digitChar digit) = false ∧ Nat.digitChar digit ≠ ' ' ∧
      (Nat.digitChar digit).toUpper = Nat.digitChar digit := by decide
  intro c member
  rcases List.mem_cons.mp member with rfl | member
  · decide
  rcases List.mem_append.mp member with digit | last
  · obtain ⟨value, small, rfl⟩ := Numerals.mem_toDigits (by decide) digit
    exact digits value small
  · rw [List.mem_singleton.mp last]
    decide

/-- The color code in front of a number cancels alone, whatever the name in front of it ends with. -/
theorem plainName_mark (base : CString) (number : Nat) :
    plainName (base ++ mark number) = plainName base ++ '[' :: (decimal number ++ [']']) := by
  have plain := plain_number number
  have code : ColorCancels (base ++ mark number) (base ++ '[' :: (decimal number ++ [']'])) :=
    .pair base ('[' :: (decimal number ++ [']'])) (by decide) (by decide)
  have bracket : isDigit '[' = false := by decide
  have kept : ('[' :: (decimal number ++ [']'])).filter (· ≠ ' ') = '[' :: (decimal number ++ [']']) :=
    List.filter_eq_self.mpr fun c member => by simpa using (plain c member).2.1
  have upper : ('[' :: (decimal number ++ [']'])).map Char.toUpper = '[' :: (decimal number ++ [']']) :=
    (List.map_congr_left fun c member => (plain c member).2.2).trans (List.map_id _)
  rw [plainName, plainName, reduced_of_cancels escapes_apart code,
    reduced_append base (fun c member => (plain c member).1) (by simpa using bracket), List.filter_append, List.map_append,
    kept, upper]

theorem plainName_mark_injective (base : CString) {i j : Nat}
    (same : plainName (base ++ mark i) = plainName (base ++ mark j)) : i = j := by
  rw [plainName_mark, plainName_mark] at same
  have digits := (List.cons.inj (List.append_cancel_left same)).2
  have value (n : Nat) : Numerals.numeral 10 digitValue (decimal n) = n :=
    Numerals.numeral_toDigits (by decide) (by decide) n
  rw [← value i, ← value j, List.append_cancel_right digits]

/-! ## The names of the others -/

section
variable (players : Nat → CString) (clientNum : Nat)

def playerName (i : Nat) : CString := infoValueForKey (playerInfo players i) "n".toList

/-- Another client, which has a configstring. -/
def Other (i : Nat) : Prop := i < maxClients ∧ i ≠ clientNum ∧ playerInfo players i ≠ []

/-- Another client has the name, as names are compared. -/
def Taken (name : CString) : Prop := ∃ i, Other players clientNum i ∧ plainName name = plainName (playerName players i)

theorem inUse_iff {name : CString} (short : name.length < maxNetname)
    (names : ∀ i, Other players clientNum i → (playerName players i).length < maxNetname) :
    inUse (othersKeys players clientNum) name = true ↔ Taken players clientNum name := by
  have compared (i : Nat) (other : Other players clientNum i) :
      qStricmp (nameKey name maxNetname) (nameKey (playerName players i) maxNetname) = 0 ↔
        plainName name = plainName (playerName players i) := by
    have bound : (nameKey name maxNetname).length < 99999 := (length_nameKey name).trans (by decide)
    rw [qStricmp_eq_zero_iff bound, EqNoCase, nameKey_eq short, nameKey_eq (names i other)]
  have listed (i : Nat) : i ∈ (List.range maxClients).filter (fun i => i ≠ clientNum ∧ playerInfo players i ≠ []) ↔
      Other players clientNum i := by
    simp [Other]
  simp only [inUse, othersKeys, List.any_map, List.any_eq_true, listed, Function.comp_apply, decide_eq_true_eq, Taken]
  exact exists_congr fun i => and_congr_right (compared i)

theorem length_othersKeys (client : clientNum < maxClients) : (othersKeys players clientNum).length < maxClients := by
  rw [othersKeys, List.length_map]
  refine (List.length_filter_lt_length_iff_exists.mpr ⟨clientNum, List.mem_range.mpr client, ?_⟩).trans_eq List.length_range
  simp

/-- With fewer values taken than there are candidates, one of these is free. -/
theorem exists_not_mem {α : Type} {candidates taken : List α} (apart : candidates.Nodup)
    (few : taken.length < candidates.length) : ∃ x ∈ candidates, x ∉ taken := by
  by_contra all
  push Not at all
  exact absurd (List.subperm_of_subset apart all).length_le (Nat.not_le.mpr few)

theorem exists_free (client : clientNum < maxClients) (name : CString) :
    ∃ number ∈ List.range' 1 maxClients, inUse (othersKeys players clientNum) (candidate name number) = false := by
  have small : ∀ number ∈ List.range' 1 maxClients, number < 100 := by decide
  have key (number : Nat) (listed : number ∈ List.range' 1 maxClients) :
      (nameKey (candidate name number) maxNetname).map Char.toUpper = plainName (numberedBase name ++ mark number) := by
    rw [nameKey_eq (Nat.lt_succ_of_le (length_candidate_le name number)), candidate_eq (small number listed)]
  have apart : ((List.range' 1 maxClients).map fun number =>
      plainName (numberedBase name ++ mark number)).Nodup := by
    refine List.Nodup.map ?_ (List.nodup_range' ..)
    exact fun i j same => plainName_mark_injective _ same
  obtain ⟨plain, listed, free⟩ := @exists_not_mem _ _ ((othersKeys players clientNum).map (List.map Char.toUpper)) apart (by
    rw [List.length_map, List.length_map, List.length_range']
    exact length_othersKeys players clientNum client)
  obtain ⟨number, inside, rfl⟩ := List.mem_map.mp listed
  refine ⟨number, inside, ?_⟩
  rw [inUse, List.any_eq_false]
  intro other member
  rw [decide_eq_true_eq, qStricmp_eq_zero_iff ((length_nameKey _).trans (by decide)), EqNoCase, key number inside]
  exact fun same => free (List.mem_map.mpr ⟨other, member, same.symm⟩)

/-- What `UniqueName` promises. -/
structure Unique (name result : CString) : Prop where
  short : result.length < maxNetname
  apart : ¬ Taken players clientNum result
  unchanged : ¬ Taken players clientNum name → result = name
  numbered : Taken players clientNum name → ∃ number, 1 ≤ number ∧ result = numberedBase name ++ mark number ∧
    ∀ smaller, 1 ≤ smaller → smaller < number → Taken players clientNum (numberedBase name ++ mark smaller)

theorem uniqueName_unique (client : clientNum < maxClients) {name : CString} (short : name.length < maxNetname)
    (names : ∀ i, Other players clientNum i → (playerName players i).length < maxNetname) :
    Unique players clientNum name (uniqueName players clientNum name) := by
  have used (text : CString) (fits : text.length < maxNetname) := inUse_iff players clientNum fits names
  have whole (number : Nat) : (candidate name number).length < maxNetname :=
    Nat.lt_succ_of_le (length_candidate_le name number)
  have spelled (number : Nat) (inside : number ≤ maxClients) : candidate name number = numberedBase name ++ mark number :=
    candidate_eq (Nat.lt_of_le_of_lt inside (by decide)) name
  simp only [uniqueName]
  by_cases taken : Taken players clientNum name
  · rw [(used name short).mpr taken, Bool.not_true, if_neg Bool.false_ne_true]
    obtain ⟨free, inside, unused⟩ := exists_free players clientNum client name
    obtain ⟨number, found⟩ : ∃ number, (List.range' 1 maxClients).find? (fun number =>
        !inUse (othersKeys players clientNum) (candidate name number)) = some number := by
      rw [← Option.isSome_iff_exists, List.find?_isSome]
      exact ⟨free, inside, by rw [unused]; rfl⟩
    obtain ⟨first, listed, smaller⟩ := List.find?_range'_eq_some.mp found
    obtain ⟨low, high⟩ := List.mem_range'_1.mp listed
    have result : qStrncpyz (candidate name number) maxNetname = numberedBase name ++ mark number := by
      rw [qStrncpyz_of_fits (whole number), spelled number (by omega)]
    have untaken : ¬ Taken players clientNum (candidate name number) := by
      rw [← used _ (whole number)]
      simpa using first
    rw [spelled number (by omega)] at untaken
    simp only [found, result]
    refine ⟨?_, untaken, fun free => absurd taken free, fun _ => ⟨number, low, rfl, ?_⟩⟩
    · rw [← spelled number (by omega)]
      exact whole number
    · intro other positive below
      rw [← spelled other (by omega), ← used _ (whole other)]
      simpa using smaller other positive below
  · have unused : inUse (othersKeys players clientNum) name = false := by
      rw [Bool.eq_false_iff, Ne, used name short]
      exact taken
    rw [unused, Bool.not_false, if_pos rfl]
    exact ⟨short, taken, fun _ => rfl, fun there => absurd there taken⟩

end

def twoBobs (i : Nat) : CString :=
  if i = 1 then "n\\^1b o b\\t\\0".toList else if i = 2 then "n\\BOB[^3^31]\\t\\0".toList else []

theorem uniqueName_sample : Unique twoBobs 0 "Bob".toList (uniqueName twoBobs 0 "Bob".toList) := by
  have names : ∀ i, Other twoBobs 0 i → (playerName twoBobs i).length < maxNetname := by
    rintro i ⟨_, _, present⟩
    by_cases first : i = 1
    · rw [first]
      decide +kernel
    by_cases second : i = 2
    · rw [second]
      decide +kernel
    have none : playerInfo twoBobs i = [] := by
      rw [playerInfo, twoBobs, if_neg first, if_neg second]
      rfl
    exact absurd none present
  exact uniqueName_unique twoBobs 0 (by decide) (by decide) names

example : uniqueName twoBobs 0 "Bob".toList = "Bob^7[2]".toList := by decide +kernel

end YbeProxy.UniqueNames
