import YbeProxy.Userinfo
import Mathlib.Data.List.Infix

/-!
# Clean names

What `Proxy_ClientCleanName` keeps of a name, when cleaning a clean name changes it again, and what a number behind a
name does to that.
-/

namespace YbeProxy.CleanNames
open YbeProxy.Strings YbeProxy.Infostrings YbeProxy.Userinfo

/-! ## The loop as a filter -/

def keptName : CString → CString
  | [] => []
  | c :: rest => if dirty c rest then keptName rest else c :: keptName rest

/-- What the loop counts: a digit behind a color escape takes the escape back. -/
def colorless : Option Char → CString → Int
  | _, [] => 0
  | prev, c :: rest => (if prev = some '^' ∧ isDigit c then -1 else 1) + colorless (some c) rest

def trimmed (name : CString) : CString := (name.dropWhile (· = ' ')).dropWhile (· = '*')

theorem cleanLoop_eq (outSize : Nat) (text out : CString) (colorlessLen : Int) (fits : out.length ≤ outSize - 1) :
    cleanLoop outSize text out colorlessLen =
      (out ++ (keptName text).take (outSize - 1 - out.length),
        colorlessLen + colorless out.getLast? ((keptName text).take (outSize - 1 - out.length))) := by
  induction text generalizing out colorlessLen with
  | nil => simp [cleanLoop, keptName, colorless]
  | cons c rest hypothesis =>
    rw [cleanLoop, keptName]
    by_cases full : out.length < outSize - 1
    · rw [if_neg (not_not.mpr full)]
      cases drop : dirty c rest with
      | true => simpa [drop] using hypothesis out colorlessLen fits
      | false =>
        have grown : (out ++ [c]).length ≤ outSize - 1 := by
          rw [List.length_append, List.length_singleton]
          omega
        have one : outSize - 1 - out.length = outSize - 1 - (out ++ [c]).length + 1 := by
          rw [List.length_append, List.length_singleton]
          omega
        simp only [Bool.false_eq_true, if_false, one, List.take_succ_cons, colorless]
        by_cases code : out.getLast? = some '^' ∧ isDigit c = true
        · rw [if_pos code, hypothesis _ _ grown, List.getLast?_concat, if_pos code]
          simp only [List.append_assoc, List.singleton_append]
          congr 1
          omega
        · rw [if_neg code, hypothesis _ _ grown, List.getLast?_concat, if_neg code]
          simp only [List.append_assoc, List.singleton_append]
          congr 1
          omega
    · have none : outSize - 1 - out.length = 0 := by omega
      rw [if_pos full, none]
      simp [colorless]

/-- The name that is left, unless nothing of it can be seen. -/
def visibleName (name : CString) : CString := (keptName (trimmed name)).take 35

def Blank (name : CString) : Prop := visibleName name = [] ∨ colorless none (visibleName name) = 0

instance (name : CString) : Decidable (Blank name) := inferInstanceAs (Decidable (_ ∨ _))

theorem proxyClientCleanName_eq (name : CString) :
    proxyClientCleanName name maxNetname = if Blank name then "Padawan".toList else visibleName name := by
  have loop := cleanLoop_eq maxNetname (trimmed name) [] 0 (Nat.zero_le _)
  simp only [List.nil_append, List.length_nil, List.getLast?_nil, Int.zero_add] at loop
  change (if (cleanLoop maxNetname (trimmed name) [] 0).1 = [] ∨ (cleanLoop maxNetname (trimmed name) [] 0).2 = 0 then
    qStrncpyz "Padawan".toList maxNetname else (cleanLoop maxNetname (trimmed name) [] 0).1) = _
  rw [loop]
  rfl

/-! ## What the filter leaves -/

/-- A character that is never left out for itself. -/
def Keepable (c : Char) : Prop := ¬ c.toNat < 0x20 ∧ c.toNat ∉ [0x81, 0x8D, 0x8F, 0x90, 0x9D, 0xA0, 0xAD]

instance (c : Char) : Decidable (Keepable c) := inferInstanceAs (Decidable (_ ∧ _))

/-- No three spaces and no three at signs in a row. -/
def Spread (s : CString) : Prop := ¬ [' ', ' ', ' '] <:+: s ∧ ¬ ['@', '@', '@'] <:+: s

instance (s : CString) : Decidable (Spread s) := inferInstanceAs (Decidable (_ ∧ _))

/-- Nothing that cleaning would take off. -/
def Tidy (s : CString) : Prop := s.head? ≠ some ' ' ∧ s.head? ≠ some '*' ∧ Spread s

instance (s : CString) : Decidable (Tidy s) := inferInstanceAs (Decidable (_ ∧ _ ∧ _))

/-- A dirty character begins three in a row, or is not keepable. -/
theorem dirty_iff (c : Char) (rest : CString) :
    dirty c rest = true ↔ [' ', ' ', ' '] <+: c :: rest ∨ ['@', '@', '@'] <+: c :: rest ∨ ¬ Keepable c := by
  have three (d : Char) : [d, d, d] <+: c :: rest ↔ c = d ∧ rest.take 2 = [d, d] := by
    rw [List.cons_prefix_cons, List.prefix_iff_eq_take]
    exact and_congr eq_comm eq_comm
  simp only [dirty, three, Keepable, Bool.or_eq_true, Bool.and_eq_true, decide_eq_true_eq, beq_iff_eq,
    List.contains_iff_mem, not_and_or, not_not]
  tauto

theorem keptName_sublist (s : CString) : (keptName s).Sublist s := by
  induction s with
  | nil => exact List.Sublist.slnil
  | cons c rest hypothesis =>
    rw [keptName]
    split
    · exact hypothesis.cons c
    · exact hypothesis.cons_cons c

theorem keepable_keptName (s : CString) : ∀ c ∈ keptName s, Keepable c := by
  induction s with
  | nil => exact nofun
  | cons c rest hypothesis =>
    rw [keptName]
    split
    · exact hypothesis
    · rename_i clean
      rw [dirty_iff, not_or, not_or, not_not] at clean
      exact List.forall_mem_cons.mpr ⟨clean.2.2, hypothesis⟩

/-- The filter keeps a text of keepable characters exactly when nothing in it comes three in a row. -/
theorem keptName_eq_iff {s : CString} (keepable : ∀ c ∈ s, Keepable c) : keptName s = s ↔ Spread s := by
  induction s with
  | nil => exact iff_of_true rfl (by decide)
  | cons c rest hypothesis =>
    obtain ⟨here, others⟩ := List.forall_mem_cons.mp keepable
    have split : Spread (c :: rest) ↔ ¬ dirty c rest = true ∧ Spread rest := by
      simp only [Spread, List.infix_cons_iff, dirty_iff, here, not_true_eq_false, or_false]
      tauto
    rw [split, keptName]
    by_cases drop : dirty c rest = true
    · rw [if_pos drop]
      refine ⟨fun same => ?_, fun spread => absurd drop spread.1⟩
      have shorter := (keptName_sublist rest).length_le
      rw [same, List.length_cons] at shorter
      omega
    · rw [if_neg drop, List.cons.injEq, hypothesis others]
      simp [drop]

theorem trimmed_suffix (name : CString) : trimmed name <:+ name :=
  (List.dropWhile_suffix _).trans (List.dropWhile_suffix _)

theorem trimmed_of_head {name : CString} (space : name.head? ≠ some ' ') (asterisk : name.head? ≠ some '*') :
    trimmed name = name := by
  cases name with
  | nil => rfl
  | cons c rest =>
    have visible : c ≠ ' ' ∧ c ≠ '*' := by simpa using And.intro space asterisk
    rw [trimmed, List.dropWhile_cons_of_neg (by simpa using visible.1), List.dropWhile_cons_of_neg (by simpa using visible.2)]

/-- Trimming changes nothing but a name that starts with a space or an asterisk. -/
theorem head_of_trimmed {name : CString} (same : trimmed name = name) :
    name.head? ≠ some ' ' ∧ name.head? ≠ some '*' := by
  cases name with
  | nil => exact ⟨nofun, nofun⟩
  | cons c rest =>
    have shorter (d : Char) (drop : c = d) : trimmed (c :: rest) <:+ rest → False := by
      intro suffix
      have length := suffix.length_le
      rw [same, List.length_cons] at length
      omega
    constructor
    · intro space
      obtain rfl : c = ' ' := by simpa using space
      apply shorter ' ' rfl
      rw [trimmed, List.dropWhile_cons_of_pos (by decide)]
      exact (List.dropWhile_suffix _).trans (List.dropWhile_suffix _)
    · intro asterisk
      obtain rfl : c = '*' := by simpa using asterisk
      apply shorter '*' rfl
      rw [trimmed, List.dropWhile_cons_of_neg (by decide), List.dropWhile_cons_of_pos (by decide)]
      exact List.dropWhile_suffix _

theorem tidy_iff {s : CString} (keepable : ∀ c ∈ s, Keepable c) : Tidy s ↔ keptName (trimmed s) = s := by
  constructor
  · rintro ⟨space, asterisk, spread⟩
    rw [trimmed_of_head space asterisk]
    exact (keptName_eq_iff keepable).mpr spread
  · intro same
    have long := (keptName_sublist (trimmed s)).length_le
    rw [same] at long
    have whole : trimmed s = s := (trimmed_suffix s).eq_of_length_le long
    obtain ⟨space, asterisk⟩ := head_of_trimmed whole
    rw [whole] at same
    exact ⟨space, asterisk, (keptName_eq_iff keepable).mp same⟩

theorem length_kept_lt {s : CString} (keepable : ∀ c ∈ s, Keepable c) (untidy : ¬ Tidy s) :
    (keptName (trimmed s)).length < s.length := by
  have sublist := (keptName_sublist (trimmed s)).trans (trimmed_suffix s).sublist
  apply Nat.lt_of_le_of_ne sublist.length_le
  intro same
  exact untidy ((tidy_iff keepable).mpr (sublist.eq_of_length same))

/-- What a cleaned name is like: it can be seen, and cleaning it again at most takes something off. -/
structure Cleaned (s : CString) : Prop where
  keepable : ∀ c ∈ s, Keepable c
  present : s ≠ []
  short : s.length ≤ 35
  seen : colorless none s ≠ 0

theorem tidy_padawan : Tidy "Padawan".toList := by decide

theorem cleaned_proxyClientCleanName (name : CString) : Cleaned (proxyClientCleanName name maxNetname) := by
  rw [proxyClientCleanName_eq]
  by_cases blank : Blank name
  · rw [if_pos blank]
    exact ⟨by decide, by decide, by decide, by decide⟩
  · rw [if_neg blank]
    rw [Blank, not_or] at blank
    refine ⟨?_, blank.1, List.length_take_le _ _, blank.2⟩
    intro c member
    exact keepable_keptName _ c (List.mem_of_mem_take member)

theorem Cleaned.again_iff {s : CString} (cleaned : Cleaned s) : proxyClientCleanName s maxNetname = s ↔ Tidy s := by
  rw [proxyClientCleanName_eq]
  constructor
  · intro same
    by_contra untidy
    have shorter := length_kept_lt cleaned.keepable untidy
    split at same
    · rw [← same] at untidy
      exact untidy tidy_padawan
    · have length := congrArg List.length same
      rw [visibleName, List.length_take] at length
      omega
  · intro tidy
    have whole : visibleName s = s := by
      rw [visibleName, (tidy_iff cleaned.keepable).mp tidy, List.take_of_length_le cleaned.short]
    rw [if_neg, whole]
    rw [Blank, whole, not_or]
    exact ⟨cleaned.present, cleaned.seen⟩

/-! ## A number behind the name -/

def mark (number : Nat) : CString := "^7[".toList ++ decimal number ++ "]".toList

theorem length_decimal_le_two {number : Nat} (small : number < 100) : (decimal number).length ≤ 2 :=
  (Nat.length_toDigits_le_iff (by decide) (by decide)).mpr small

theorem length_numberedBase (name : CString) : (numberedBase name).length ≤ 29 := by
  have cut : (qStrncpyz name (maxNetname - 6)).length ≤ 29 := List.length_take_le _ _
  simp only [numberedBase]
  split
  · rw [List.length_dropLast]
    omega
  · exact cut

theorem candidate_eq {number : Nat} (small : number < 100) (name : CString) :
    candidate name number = numberedBase name ++ mark number := by
  have base := length_numberedBase name
  have digits := length_decimal_le_two small
  rw [candidate, comSprintf, List.append_assoc, List.append_assoc, List.take_of_length_le]
  · rw [mark, List.append_assoc]
  · simp [maxNetname]
    omega

theorem length_candidate_le (name : CString) (number : Nat) : (candidate name number).length ≤ 35 :=
  List.length_take_le _ _

theorem mark_digits {number : Nat} {c : Char} (member : c ∈ mark number) :
    c = '^' ∨ c = '[' ∨ c = ']' ∨ isDigit c = true := by
  rw [mark] at member
  rcases List.mem_append.mp member with front | last
  · rcases List.mem_append.mp front with first | digit
    · have three : ∀ c ∈ "^7[".toList, c = '^' ∨ c = '[' ∨ c = ']' ∨ isDigit c = true := by decide
      exact three c first
    · refine Or.inr (Or.inr (Or.inr ?_))
      have ascii := Nat.isDigit_of_mem_toDigits (by decide) (by decide) digit
      simpa [isDigit, Char.isDigit, Char.le_def] using ascii
  · exact Or.inr (Or.inr (Or.inl (by simpa using last)))

/-- The characters of a mark are kept, and cleaning could only take other ones. -/
theorem solid_mark {number : Nat} {c : Char} (member : c ∈ mark number) :
    Keepable c ∧ c ≠ ' ' ∧ c ≠ '@' ∧ c ≠ '*' := by
  rcases mark_digits member with rfl | rfl | rfl | digit
  · decide
  · decide
  · decide
  · simp only [isDigit, Bool.and_eq_true, decide_eq_true_eq, Char.le_def, UInt32.le_iff_toNat_le] at digit
    obtain ⟨low, high⟩ := digit
    change 48 ≤ c.toNat at low
    change c.toNat ≤ 57 at high
    refine ⟨⟨by omega, ?_⟩, ?_, ?_, ?_⟩
    · simp only [List.mem_cons, List.not_mem_nil, or_false]
      omega
    all_goals
      rintro rfl
      revert low high
      decide

/-- The base is the first 29 characters, without a color escape at their end. -/
theorem numberedBase_cases (name : CString) :
    name.take 29 = numberedBase name ∨ name.take 29 = numberedBase name ++ ['^'] := by
  change name.take 29 = (if (name.take 29).getLast? = some '^' then (name.take 29).dropLast else name.take 29) ∨
    name.take 29 = (if (name.take 29).getLast? = some '^' then (name.take 29).dropLast else name.take 29) ++ ['^']
  split
  · rename_i escape
    right
    have present : name.take 29 ≠ [] := by
      intro empty
      rw [empty] at escape
      cases escape
    have last : (name.take 29).getLast present = '^' := by
      rw [List.getLast?_eq_some_getLast present] at escape
      exact Option.some.inj escape
    rw [← last]
    exact (List.dropLast_append_getLast present).symm
  · exact Or.inl rfl

theorem numberedBase_start (name : CString) : numberedBase name <+: name := by
  rcases numberedBase_cases name with same | escape
  · rw [← same]
    exact List.take_prefix 29 name
  · exact (List.prefix_append (numberedBase name) ['^']).trans (escape ▸ List.take_prefix 29 name)

/-- One character more never lowers the count below what the rest reaches. -/
theorem colorless_cons_ge {bound : Int} {c : Char} {rest : CString}
    (later : bound ≤ colorless (some c) rest + if some c = some '^' then 1 else 0) (prev : Option Char) :
    bound ≤ colorless prev (c :: rest) + if prev = some '^' then 1 else 0 := by
  rw [colorless]
  by_cases code : prev = some '^' ∧ isDigit c = true
  · have digit : some c ≠ some '^' := by
      intro same
      have escape := code.2
      rw [Option.some.inj same] at escape
      revert escape
      decide
    rw [if_neg digit] at later
    rw [if_pos code, if_pos code.1]
    omega
  · rw [if_neg code]
    split at later <;> split <;> omega

theorem colorless_ge (s : CString) (prev : Option Char) :
    0 ≤ colorless prev s + if prev = some '^' then 1 else 0 := by
  induction s generalizing prev with
  | nil =>
    rw [colorless]
    split <;> decide
  | cons c rest hypothesis => exact colorless_cons_ge (hypothesis (some c)) prev

/-- A numbered name can be seen: the bracket counts. -/
theorem colorless_mark (base : CString) (number : Nat) (prev : Option Char) :
    1 ≤ colorless prev (base ++ mark number) + if prev = some '^' then 1 else 0 := by
  induction base generalizing prev with
  | nil =>
    have rest := colorless_ge (decimal number ++ "]".toList) (some '[')
    rw [if_neg (by decide)] at rest
    have spelled : mark number = '^' :: '7' :: '[' :: (decimal number ++ "]".toList) := rfl
    rw [List.nil_append, spelled, colorless, colorless, colorless, if_neg (not_and_of_not_right _ (by decide)),
      if_pos ⟨rfl, by decide⟩, if_neg (not_and_of_not_right _ (by decide))]
    split <;> omega
  | cons c base hypothesis => exact colorless_cons_ge (hypothesis (some c)) prev

theorem Cleaned.candidate {name : CString} (cleaned : Cleaned name) {number : Nat} (small : number < 100) :
    Cleaned (candidate name number) := by
  have seen := colorless_mark (numberedBase name) number none
  rw [if_neg nofun] at seen
  refine ⟨?_, ?_, length_candidate_le name number, ?_⟩
  · intro c member
    rw [candidate_eq small] at member
    rcases List.mem_append.mp member with base | marked
    · exact cleaned.keepable c ((numberedBase_start name).subset base)
    · exact (solid_mark marked).1
  · rw [candidate_eq small]
    simp [mark]
  · rw [candidate_eq small]
    omega

theorem prefix_of_append {α : Type} {l s t : List α} (apart : ∀ c ∈ l, c ∉ t) (inside : l <+: s ++ t) : l <+: s := by
  induction s generalizing l with
  | nil =>
    cases l with
    | nil => exact List.nil_prefix
    | cons c l => exact absurd (inside.subset List.mem_cons_self) (apart c List.mem_cons_self)
  | cons d s hypothesis =>
    cases l with
    | nil => exact List.nil_prefix
    | cons c l =>
      obtain ⟨rfl, rest⟩ := List.cons_prefix_cons.mp inside
      exact List.cons_prefix_cons.mpr ⟨rfl, hypothesis (fun e member => apart e (List.mem_cons_of_mem _ member)) rest⟩

theorem infix_of_append {α : Type} {l s t : List α} (present : l ≠ []) (apart : ∀ c ∈ l, c ∉ t) :
    l <:+: s ++ t ↔ l <:+: s := by
  refine ⟨?_, fun inside => inside.trans (List.prefix_append s t).isInfix⟩
  intro inside
  induction s with
  | nil =>
    obtain ⟨c, rest, rfl⟩ := List.exists_cons_of_ne_nil present
    exact absurd (inside.subset List.mem_cons_self) (apart c List.mem_cons_self)
  | cons d s hypothesis =>
    rw [List.cons_append, List.infix_cons_iff] at inside
    rw [List.infix_cons_iff]
    exact inside.imp (fun front => prefix_of_append apart (s := d :: s) front) hypothesis

/-- What starts with a color escape and has no spaces and at signs leaves a name as tidy as it was. -/
theorem tidy_append {s t : CString} (escape : t.head? = some '^') (solid : ∀ c ∈ t, c ≠ ' ' ∧ c ≠ '@') :
    Tidy (s ++ t) ↔ Tidy s := by
  have three (d : Char) (listed : d = ' ' ∨ d = '@') : [d, d, d] <:+: s ++ t ↔ [d, d, d] <:+: s := by
    apply infix_of_append (List.cons_ne_nil _ _)
    intro c member there
    have same : c = d := by simpa using member
    rw [same] at there
    rcases listed with rfl | rfl
    · exact (solid ' ' there).1 rfl
    · exact (solid '@' there).2 rfl
  rw [Tidy, Tidy, Spread, Spread, three ' ' (Or.inl rfl), three '@' (Or.inr rfl)]
  cases s with
  | nil =>
    rw [List.nil_append, escape]
    simp
  | cons c s => simp

/-- A numbered name is as tidy as the 29 characters in front of its number. -/
theorem tidy_candidate (name : CString) {number : Nat} (small : number < 100) :
    Tidy (candidate name number) ↔ Tidy (name.take 29) := by
  have marked : Tidy (numberedBase name ++ mark number) ↔ Tidy (numberedBase name) :=
    tidy_append rfl fun c member => ⟨(solid_mark member).2.1, (solid_mark member).2.2.1⟩
  rw [candidate_eq small, marked]
  rcases numberedBase_cases name with same | escape
  · rw [same]
  · rw [escape]
    exact (tidy_append rfl (by decide)).symm

/-! ## Unique names -/

section Unique
variable (players : Nat → CString) (clientNum : Nat)

/-- A number is put behind the name: another client uses it, and one of the numbers is free. -/
def numbered (name : CString) : Bool :=
  inUse (othersKeys players clientNum) name &&
    (List.range' 1 maxClients).any fun number => !inUse (othersKeys players clientNum) (candidate name number)

theorem uniqueName_cases (name : CString) :
    numbered players clientNum name = false ∧ uniqueName players clientNum name = name ∨
    ∃ number, number < 100 ∧ numbered players clientNum name = true ∧
      inUse (othersKeys players clientNum) (candidate name number) = false ∧
      uniqueName players clientNum name = candidate name number := by
  simp only [uniqueName, numbered]
  cases used : inUse (othersKeys players clientNum) name with
  | false => exact Or.inl ⟨rfl, rfl⟩
  | true =>
    simp only [Bool.not_true, Bool.false_eq_true, if_false, Bool.true_and]
    cases free : (List.range' 1 maxClients).find? fun number =>
        !inUse (othersKeys players clientNum) (candidate name number) with
    | none =>
      refine Or.inl ⟨?_, rfl⟩
      rw [List.any_eq_false]
      exact List.find?_eq_none.mp free
    | some number =>
      have unused := List.find?_some free
      have listed := List.mem_of_find?_eq_some free
      have small : number < 100 := by
        obtain ⟨_, high⟩ := List.mem_range'_1.mp listed
        have clients : maxClients = 32 := rfl
        omega
      refine Or.inr ⟨number, small, List.any_eq_true.mpr ⟨number, listed, unused⟩, by simpa using unused, ?_⟩
      exact qStrncpyz_of_fits (Nat.lt_succ_of_le (length_candidate_le name number))

/-- The name that it gives is left alone the next time. -/
theorem uniqueName_again (name : CString) :
    uniqueName players clientNum (uniqueName players clientNum name) = uniqueName players clientNum name := by
  rcases uniqueName_cases players clientNum name with ⟨_, same⟩ | ⟨number, _, _, free, same⟩
  · rw [same, same]
  · rw [same, uniqueName, free]
    rfl

end Unique

/-! ## The second cleaning -/

/-- The characters that neither trimming nor the filter takes off a keepable text. -/
def solid (c : Char) : Bool := c ≠ ' ' && c ≠ '@' && c ≠ '*'

theorem countP_dropWhile {α : Type} {p q : α → Bool} (apart : ∀ c, q c = true → p c = false) (s : List α) :
    (s.dropWhile q).countP p = s.countP p := by
  induction s with
  | nil => rfl
  | cons c rest hypothesis =>
    cases drop : q c with
    | true => rw [List.dropWhile_cons_of_pos drop, hypothesis, List.countP_cons_of_neg (by simp [apart c drop])]
    | false => rw [List.dropWhile_cons_of_neg (by simp [drop])]

theorem solid_trimmed (s : CString) : (trimmed s).countP solid = s.countP solid := by
  rw [trimmed, countP_dropWhile, countP_dropWhile]
  · intro c space
    simp only [decide_eq_true_eq] at space
    rw [space]
    decide
  · intro c asterisk
    simp only [decide_eq_true_eq] at asterisk
    rw [asterisk]
    decide

theorem solid_keptName {s : CString} (keepable : ∀ c ∈ s, Keepable c) : (keptName s).countP solid = s.countP solid := by
  induction s with
  | nil => rfl
  | cons c rest hypothesis =>
    obtain ⟨here, others⟩ := List.forall_mem_cons.mp keepable
    rw [keptName]
    split
    · rename_i drop
      have empty : solid c = false := by
        rcases (dirty_iff c rest).mp drop with spaces | ats | bad
        · rw [← (List.cons_prefix_cons.mp spaces).1]
          decide
        · rw [← (List.cons_prefix_cons.mp ats).1]
          decide
        · exact absurd here bad
      rw [hypothesis others, List.countP_cons_of_neg (by simp [empty])]
    · rw [List.countP_cons, List.countP_cons, hypothesis others]

/-- A number cannot make up for what cleaning took off: its characters are solid, and cleaning takes off none of
those. -/
theorem candidate_ne {s m : CString} {number : Nat} (small : number < 100) (shorter : m.length < s.length)
    (same : m.countP solid = s.countP solid) : candidate m number ≠ s := by
  intro equal
  obtain ⟨rest, split⟩ := numberedBase_start m
  rw [candidate_eq small] at equal
  have marked : (mark number).countP solid = (mark number).length := by
    apply List.countP_eq_length.mpr
    intro c member
    obtain ⟨_, space, at_, asterisk⟩ := solid_mark member
    simp [solid, space, at_, asterisk]
  have few := List.countP_le_length (p := solid) (l := rest)
  have length := congrArg List.length split
  have solids := congrArg (List.countP solid) split
  rw [List.length_append] at length
  rw [List.countP_append] at solids
  rw [← equal, List.countP_append, marked] at same
  rw [← equal, List.length_append] at shorter
  omega

theorem uniqueName_ne (players : Nat → CString) (clientNum : Nat) {s : CString} (cleaned : Cleaned s) (untidy : ¬ Tidy s) :
    uniqueName players clientNum (proxyClientCleanName s maxNetname) ≠ s := by
  have different : proxyClientCleanName s maxNetname ≠ s := fun same => untidy (cleaned.again_iff.mp same)
  obtain ⟨_, same⟩ | ⟨number, small, _, _, same⟩ :=
    uniqueName_cases players clientNum (proxyClientCleanName s maxNetname)
  · rw [same]
    exact different
  · rw [same, proxyClientCleanName_eq]
    split
    · intro equal
      have tidy := (tidy_candidate "Padawan".toList small).mpr (by decide)
      rw [equal] at tidy
      exact untidy tidy
    · have shorter := length_kept_lt cleaned.keepable untidy
      have whole : visibleName s = keptName (trimmed s) := List.take_of_length_le (by have := cleaned.short; omega)
      rw [whole]
      apply candidate_ne small shorter
      rw [solid_keptName fun c member => cleaned.keepable c ((trimmed_suffix s).subset member), solid_trimmed]

/-- The name that `Sanitize` writes for a value. -/
def gameName (env : Environment) (clientNum : Nat) (name : CString) : CString :=
  if env.proxySvAllowSamePlayerNames then proxyClientCleanName name maxNetname
  else uniqueName env.players clientNum (proxyClientCleanName name maxNetname)

theorem cleanName_eq (env : Environment) (clientNum : Nat) (userinfo : CString) :
    cleanName env clientNum userinfo = gameName env clientNum (infoValueForKey userinfo "name".toList) := rfl

/-- Nothing of the name can be seen, or what is kept of it (35 characters, or 29 in front of a number) is tidy. -/
def TidyName (env : Environment) (clientNum : Nat) (name : CString) : Prop :=
  Blank name ∨ Tidy ((keptName (trimmed name)).take
    (if !env.proxySvAllowSamePlayerNames && numbered env.players clientNum (visibleName name) then 29 else 35))

instance (env : Environment) (clientNum : Nat) (name : CString) : Decidable (TidyName env clientNum name) :=
  inferInstanceAs (Decidable (_ ∨ _))

theorem cleaned_gameName (env : Environment) (clientNum : Nat) (name : CString) :
    Cleaned (gameName env clientNum name) ∧ (Tidy (gameName env clientNum name) ↔ TidyName env clientNum name) := by
  have cleaned := cleaned_proxyClientCleanName name
  have spelled := proxyClientCleanName_eq name
  have plain (whole : gameName env clientNum name = proxyClientCleanName name maxNetname)
      (unnumbered : ¬ Blank name →
        (!env.proxySvAllowSamePlayerNames && numbered env.players clientNum (visibleName name)) = false) :
      Tidy (gameName env clientNum name) ↔ TidyName env clientNum name := by
    rw [whole, spelled, TidyName]
    by_cases blank : Blank name
    · rw [if_pos blank]
      exact iff_of_true tidy_padawan (Or.inl blank)
    · rw [if_neg blank, unnumbered blank, if_neg Bool.false_ne_true, or_iff_right blank]
      rfl
  cases same : env.proxySvAllowSamePlayerNames with
  | true =>
    have whole : gameName env clientNum name = proxyClientCleanName name maxNetname := by rw [gameName, if_pos same]
    exact ⟨whole ▸ cleaned, plain whole fun _ => by rw [same]; rfl⟩
  | false =>
    have whole : gameName env clientNum name =
        uniqueName env.players clientNum (proxyClientCleanName name maxNetname) := by
      rw [gameName, if_neg (by rw [same]; decide)]
    obtain ⟨free, kept⟩ | ⟨number, small, used, _, marked⟩ :=
      uniqueName_cases env.players clientNum (proxyClientCleanName name maxNetname)
    · rw [kept] at whole
      refine ⟨whole ▸ cleaned, plain whole ?_⟩
      intro seen
      rw [spelled, if_neg seen] at free
      rw [free, Bool.and_false]
    · rw [marked] at whole
      rw [whole, TidyName]
      refine ⟨cleaned.candidate small, ?_⟩
      rw [tidy_candidate _ small, spelled]
      by_cases blank : Blank name
      · rw [if_pos blank]
        exact iff_of_true (by decide) (Or.inl blank)
      · rw [spelled, if_neg blank] at used
        rw [if_neg blank, used, same, or_iff_right blank, visibleName, List.take_take]
        rfl

/-- Cleaning the name once more gives the same name exactly when the value was tidy. -/
theorem gameName_again_iff (env : Environment) (clientNum : Nat) (name : CString) :
    gameName env clientNum (gameName env clientNum name) = gameName env clientNum name ↔ TidyName env clientNum name := by
  obtain ⟨cleaned, tidy_iff⟩ := cleaned_gameName env clientNum name
  rw [← tidy_iff]
  constructor
  · intro again
    by_contra untidy
    rw [gameName] at again
    split at again
    · exact untidy (cleaned.again_iff.mp again)
    · exact uniqueName_ne env.players clientNum cleaned untidy again
  · intro tidy
    have again := cleaned.again_iff.mpr tidy
    rw [gameName, again]
    split
    · rfl
    · rename_i distinct
      rw [gameName, if_neg distinct, uniqueName_again]

end YbeProxy.CleanNames
