import YbeProxy.CleanNames

/-!
# Dirty names

For which names what `Proxy_ClientCleanName` writes is clean: it takes spaces off before asterisks, each once, and it looks for
three in a row in the text that it reads, where other characters that it leaves out may stand between them.
-/

namespace YbeProxy.DirtyNames
open YbeProxy.Strings YbeProxy.Userinfo YbeProxy.CleanNames

/-! ## What is left of a run -/

theorem dirty_keepable {c : Char} (keepable : Keepable c) (rest : CString) :
    dirty c rest = true ↔ (c = ' ' ∨ c = '@') ∧ ∃ tail, rest = c :: c :: tail := by
  rw [dirty_iff]
  simp only [keepable, not_true_eq_false, or_false, List.cons_prefix_cons]
  constructor
  · rintro (⟨rfl, tail, rfl⟩ | ⟨rfl, tail, rfl⟩)
    · exact ⟨Or.inl rfl, tail, rfl⟩
    · exact ⟨Or.inr rfl, tail, rfl⟩
  · rintro ⟨rfl | rfl, tail, rfl⟩
    · exact Or.inl ⟨rfl, tail, rfl⟩
    · exact Or.inr ⟨rfl, tail, rfl⟩

theorem keptName_of_not_keepable {c : Char} (bad : ¬ Keepable c) (rest : CString) : keptName (c :: rest) = keptName rest := by
  rw [keptName, if_pos ((dirty_iff c rest).mpr (Or.inr (Or.inr bad)))]

/-- The first character that can be kept is kept, or one of the same behind it. -/
theorem head_keptName (s : CString) : (keptName s).head? = s.find? fun c => Keepable c := by
  induction s with
  | nil => rfl
  | cons c rest hypothesis =>
    by_cases keepable : Keepable c
    · rw [List.find?_cons_of_pos (by simpa using keepable), keptName]
      by_cases drop : dirty c rest = true
      · obtain ⟨_, tail, rfl⟩ := (dirty_keepable keepable rest).mp drop
        rw [if_pos drop, hypothesis, List.find?_cons_of_pos (by simpa using keepable)]
      · rw [if_neg drop]
        rfl
    · rw [keptName_of_not_keepable keepable, hypothesis, List.find?_cons_of_neg (by simpa using keepable)]

/-- Of a run of spaces or at signs the last two are kept. -/
theorem keptName_replicate {c : Char} (listed : c = ' ' ∨ c = '@') (m : Nat) {rest : CString}
    (ends : ∀ d ∈ rest.head?, d ≠ c) :
    keptName (List.replicate m c ++ rest) = List.replicate (min m 2) c ++ keptName rest := by
  have keepable : Keepable c := by
    rcases listed with rfl | rfl
    · decide
    · decide
  have last (k : Nat) (few : k < 2) : ¬ dirty c (List.replicate k c ++ rest) = true := by
    rw [dirty_keepable keepable]
    rintro ⟨_, tail, same⟩
    obtain rfl | rfl : k = 0 ∨ k = 1 := by omega
    · rw [List.replicate_zero, List.nil_append] at same
      exact ends c (by rw [same]; rfl) rfl
    · rw [List.replicate_one, List.singleton_append, List.cons.injEq] at same
      exact ends c (by rw [same.2]; rfl) rfl
  induction m with
  | zero => rfl
  | succ m hypothesis =>
    rw [List.replicate_succ, List.cons_append, keptName]
    by_cases few : m < 2
    · rw [if_neg (last m few), hypothesis, Nat.min_eq_left (Nat.le_of_lt few), Nat.min_eq_left few,
        List.replicate_succ, List.cons_append]
    · have three : dirty c (List.replicate m c ++ rest) = true := by
        obtain ⟨k, rfl⟩ : ∃ k, m = k + 2 := ⟨m - 2, by omega⟩
        exact (dirty_keepable keepable _).mpr ⟨listed, List.replicate k c ++ rest, rfl⟩
      rw [if_pos three, hypothesis, Nat.min_eq_right (by omega), Nat.min_eq_right (by omega)]

/-! ## Stretches -/

/-- At most two of each run between characters that are left out. -/
def weight (stretch : CString) : Nat :=
  ((stretch.splitOnP fun c => !Keepable c).map fun run => min run.length 2).sum

theorem weight_run {run : CString} (keepable : ∀ c ∈ run, Keepable c) : weight run = min run.length 2 := by
  rw [weight, List.splitOnP_eq_singleton fun c member => by simpa using keepable c member]
  simp

theorem weight_append {run : CString} (keepable : ∀ c ∈ run, Keepable c) {d : Char} (bad : ¬ Keepable d) (rest : CString) :
    weight (run ++ d :: rest) = min run.length 2 + weight rest := by
  rw [weight, List.splitOnP_append_cons_of_forall_mem (fun c member => by simpa using keepable c member) d
    (by simpa using bad), List.map_cons, List.sum_cons, weight]

/-- Of spaces (or at signs) with characters between them that are left out, two of each run are kept at most. -/
theorem keptName_stretch {c : Char} (listed : c = ' ' ∨ c = '@') {stretch back : CString}
    (stretches : ∀ d ∈ stretch, d = c ∨ ¬ Keepable d) (ends : ∀ d ∈ back.head?, d ≠ c) :
    keptName (stretch ++ back) = List.replicate (weight stretch) c ++ keptName back := by
  have same {run : CString} (keepable : ∀ d ∈ run, Keepable d) (inside : ∀ d ∈ run, d = c ∨ ¬ Keepable d) :
      run = List.replicate run.length c :=
    List.eq_replicate_of_mem fun d member => (inside d member).resolve_right (not_not.mpr (keepable d member))
  induction stretch using runs_induction fun d => !Keepable d with
  | last run whole =>
    have keepable : ∀ d ∈ run, Keepable d := fun d member => by simpa using whole d member
    rw [weight_run keepable, same keepable stretches, keptName_replicate listed _ ends, List.length_replicate]
  | more run d rest whole bad hypothesis =>
    have keepable : ∀ d ∈ run, Keepable d := fun d member => by simpa using whole d member
    have other : ¬ Keepable d := by simpa using bad
    have apart : ∀ e ∈ (d :: (rest ++ back)).head?, e ≠ c := by
      rintro e ⟨⟩ rfl
      rcases listed with rfl | rfl
      · exact other (by decide)
      · exact other (by decide)
    obtain ⟨front, later⟩ := List.forall_mem_append.mp stretches
    have tail := hypothesis fun e member => later e (List.mem_cons_of_mem d member)
    rw [weight_append keepable other, List.append_assoc, List.cons_append, same keepable front,
      keptName_replicate listed _ apart, keptName_of_not_keepable other, tail, List.length_replicate,
      ← List.append_assoc, List.replicate_append_replicate]

/-! ## Where a character of the output comes from -/

/-- How many characters of the front are kept, with what stands behind it. -/
def keptCount : CString → CString → Nat
  | [], _ => 0
  | c :: front, behind => (if dirty c (front ++ behind) then 0 else 1) + keptCount front behind

theorem keptName_append (front behind : CString) :
    ∃ kept, keptName (front ++ behind) = kept ++ keptName behind ∧ kept.length = keptCount front behind := by
  induction front with
  | nil => exact ⟨[], rfl, rfl⟩
  | cons c front hypothesis =>
    obtain ⟨kept, parts, length⟩ := hypothesis
    rw [List.cons_append, keptName, keptCount]
    by_cases drop : dirty c (front ++ behind) = true
    · rw [if_pos drop, if_pos drop, Nat.zero_add]
      exact ⟨kept, parts, length⟩
    · rw [if_neg drop, if_neg drop, parts]
      exact ⟨c :: kept, rfl, by rw [List.length_cons, length, Nat.add_comm]⟩

/-- A cut of what is kept is one of the text. -/
theorem split_of_keptName {text kept rest : CString} (parts : keptName text = kept ++ rest) :
    ∃ front behind, text = front ++ behind ∧ keptName behind = rest ∧ keptCount front behind = kept.length := by
  induction text generalizing kept with
  | nil =>
    obtain ⟨rfl, rfl⟩ := List.append_eq_nil_iff.mp parts.symm
    exact ⟨[], [], rfl, rfl, rfl⟩
  | cons c text hypothesis =>
    cases kept with
    | nil => exact ⟨[], c :: text, rfl, parts, rfl⟩
    | cons d kept =>
      rw [keptName] at parts
      by_cases drop : dirty c text = true
      · rw [if_pos drop] at parts
        obtain ⟨front, behind, rfl, same, count⟩ := hypothesis parts
        exact ⟨c :: front, behind, rfl, same, by rw [keptCount, if_pos drop, Nat.zero_add, count]⟩
      · rw [if_neg drop, List.cons_append, List.cons.injEq] at parts
        obtain ⟨front, behind, rfl, same, count⟩ := hypothesis parts.2
        exact ⟨c :: front, behind, rfl, same, by rw [keptCount, if_neg drop, count, List.length_cons, Nat.add_comm]⟩

/-- Spaces (or at signs), with characters between their runs that are left out, of which more than three are kept within the first
`n` characters that are. -/
def Crowded (c : Char) (n : Nat) (text : CString) : Prop :=
  ∃ front stretch back, text = front ++ (stretch ++ back) ∧ (∀ d ∈ stretch, d = c ∨ ¬ Keepable d) ∧
    (∀ d ∈ back.head?, d ≠ c) ∧ 4 ≤ weight stretch ∧ keptCount front (stretch ++ back) + 4 ≤ n

theorem le_of_replicate_prefix {α : Type} {c : α} {k w : Nat} {rest : List α} (ends : ∀ d ∈ rest.head?, d ≠ c)
    (front : List.replicate k c <+: List.replicate w c ++ rest) : k ≤ w := by
  by_contra longer
  obtain ⟨tail, same⟩ := front
  have here := congrArg (fun list => list[w]?) same
  rw [List.getElem?_append_left (by rw [List.length_replicate]; omega), List.getElem?_replicate_of_lt (by omega),
    List.getElem?_append_right (by rw [List.length_replicate]), List.length_replicate, Nat.sub_self,
    ← List.head?_eq_getElem?] at here
  exact ends c here.symm rfl

theorem four_in_a_row_iff {c : Char} (listed : c = ' ' ∨ c = '@') (n : Nat) (text : CString) :
    List.replicate 4 c <:+: (keptName text).take n ↔ Crowded c n text := by
  constructor
  · rintro ⟨kept, rest, parts⟩
    have whole := List.take_append_drop n (keptName text)
    rw [← parts, List.append_assoc, List.append_assoc] at whole
    have fits : kept.length + 4 ≤ n := by
      have length := congrArg List.length parts
      simp only [List.length_append, List.length_replicate, List.length_take] at length
      omega
    obtain ⟨front, behind, rfl, same, count⟩ := split_of_keptName whole.symm
    obtain ⟨stretch, stretches, outcome⟩ := exists_run (fun d => d ≠ c ∧ Keepable d) behind
    have inside : ∀ d ∈ stretch, d = c ∨ ¬ Keepable d := by
      intro d member
      have stays := stretches d member
      by_cases equal : d = c
      · exact Or.inl equal
      · exact Or.inr (by simpa [equal] using stays)
    obtain ⟨back, rfl, ends, first⟩ : ∃ back, behind = stretch ++ back ∧ (∀ d ∈ back.head?, d ≠ c) ∧
        ∀ d ∈ (keptName back).head?, d ≠ c := by
      rcases outcome with rfl | ⟨d, tail, rfl, stop⟩
      · exact ⟨[], (List.append_nil _).symm, by simp, by simp [keptName]⟩
      · have other : d ≠ c ∧ Keepable d := by simpa using stop
        refine ⟨d :: tail, rfl, by simpa using other.1, ?_⟩
        rw [head_keptName, List.find?_cons_of_pos (by simpa using other.2)]
        simpa using other.1
    refine ⟨front, stretch, back, rfl, inside, ends, ?_, by rw [count]; exact fits⟩
    rw [keptName_stretch listed inside ends] at same
    exact le_of_replicate_prefix first ⟨_, same.symm⟩
  · rintro ⟨front, stretch, back, rfl, inside, ends, four, fits⟩
    obtain ⟨kept, parts, length⟩ := keptName_append front (stretch ++ back)
    obtain ⟨more, weigh⟩ := Nat.exists_eq_add_of_le four
    rw [keptName_stretch listed inside ends, weigh, ← List.replicate_append_replicate] at parts
    have start : kept ++ List.replicate 4 c <+: (keptName (front ++ (stretch ++ back))).take n := by
      rw [List.prefix_take_iff, parts]
      constructor
      · exact ⟨List.replicate more c ++ keptName back, by simp only [List.append_assoc]⟩
      · rw [List.length_append, List.length_replicate, length]
        exact fits
    exact (List.suffix_append kept _).isInfix.trans start.isInfix

/-! ## What can be seen -/

/-- What the loop counts is what one pass without color codes leaves. -/
theorem colorless_eq (s : CString) (prev : Option Char) (plain : ∀ c ∈ s.head?, ¬ (prev = some '^' ∧ isDigit c = true)) :
    colorless prev s = (stripColorPass s).2.length := by
  induction s using stripColorPass.induct generalizing prev with
  | case1 => rfl
  | case2 c =>
    rw [colorless, if_neg (plain c rfl)]
    rfl
  | case3 c d s code hypothesis =>
    rw [Bool.and_eq_true, decide_eq_true_eq] at code
    obtain ⟨rfl, digit⟩ := code
    have next : ∀ c ∈ s.head?, ¬ (some d = some '^' ∧ isDigit c = true) := by
      rintro c _ ⟨⟨⟩, _⟩
      revert digit
      decide
    rw [colorless, if_neg (plain '^' rfl), colorless, if_pos ⟨rfl, digit⟩, hypothesis (some d) next, stripColorPass,
      if_pos (by simpa using digit)]
    dsimp only
    omega
  | case4 c d s other hypothesis =>
    have next : ∀ e ∈ (d :: s).head?, ¬ (some c = some '^' ∧ isDigit e = true) := by
      rintro _ ⟨⟩
      simpa using other
    rw [colorless, if_neg (plain c rfl), hypothesis (some c) next, stripColorPass, if_neg other, List.length_cons]
    omega

theorem mem_stripColorPass {c : Char} (other : c ≠ '^' ∧ isDigit c = false) {s : CString} (member : c ∈ s) :
    c ∈ (stripColorPass s).2 := by
  induction s using stripColorPass.induct with
  | case1 => exact member
  | case2 d => exact member
  | case3 d e s code hypothesis =>
    rw [Bool.and_eq_true, decide_eq_true_eq] at code
    rw [stripColorPass, if_pos (by simpa using code)]
    rcases List.mem_cons.mp member with rfl | member
    · exact absurd code.1 other.1
    · rcases List.mem_cons.mp member with rfl | member
      · rw [other.2] at code
        cases code.2
      · exact hypothesis member
  | case4 d e s plain hypothesis =>
    rw [stripColorPass, if_neg plain]
    rcases List.mem_cons.mp member with rfl | member
    · exact List.mem_cons_self
    · exact List.mem_cons_of_mem d (hypothesis member)

/-- What is kept within the buffer, or a name where nothing of that can be seen. -/
theorem proxyClientCleanName_of_size (name : CString) (outSize : Nat) :
    proxyClientCleanName name outSize =
      if (stripColorPass ((keptName (trimmed name)).take (outSize - 1))).2 = [] then qStrncpyz "Padawan".toList outSize
      else (keptName (trimmed name)).take (outSize - 1) := by
  have loop := cleanLoop_eq outSize (trimmed name) [] 0 (Nat.zero_le _)
  simp only [List.nil_append, List.length_nil, List.getLast?_nil, Int.zero_add, Nat.sub_zero] at loop
  change (if (cleanLoop outSize (trimmed name) [] 0).1 = [] ∨ (cleanLoop outSize (trimmed name) [] 0).2 = 0 then
    qStrncpyz "Padawan".toList outSize else (cleanLoop outSize (trimmed name) [] 0).1) = _
  rw [loop, colorless_eq _ none (by simp)]
  generalize (keptName (trimmed name)).take (outSize - 1) = kept
  have unseen : (kept = [] ∨ ((stripColorPass kept).2.length : Int) = 0) ↔ (stripColorPass kept).2 = [] := by
    rw [Int.natCast_eq_zero, List.length_eq_zero_iff]
    refine or_iff_right_of_imp ?_
    rintro rfl
    rfl
  simp only [unseen]

/-! ## Clean names -/

/-- A name as it is meant to be. -/
structure Clean (outSize : Nat) (s : CString) : Prop where
  fits : s.length < outSize
  start : ∀ c ∈ s.head?, c ≠ ' ' ∧ c ≠ '*'
  keepable : ∀ c ∈ s, Keepable c
  spaces : ¬ List.replicate 4 ' ' <:+: s
  ats : ¬ List.replicate 4 '@' <:+: s
  /-- As it is drawn, without its color codes. -/
  seen : (stripColorPass s).2 ≠ []

/-- Behind the leading spaces, and then the leading asterisks, the first character that can be kept is none of both, and nowhere
in what fits are more than three spaces, or at signs, kept with only characters between them that are left out. -/
structure CleanInput (outSize : Nat) (name : CString) : Prop where
  start : ∀ c ∈ (trimmed name).find? fun c => Keepable c, c ≠ ' ' ∧ c ≠ '*'
  spaces : ¬ Crowded ' ' (outSize - 1) (trimmed name)
  ats : ¬ Crowded '@' (outSize - 1) (trimmed name)

theorem head_kept {n : Nat} (room : 0 < n) (text : CString) :
    ((keptName text).take n).head? = text.find? fun c => Keepable c := by
  rw [List.head?_take, if_neg (by omega), head_keptName]

theorem plain_of_eq_some {first : Option Char} {d : Char} (found : first = some d) (plain : d ≠ ' ' ∧ d ≠ '*') :
    ∀ c ∈ first, c ≠ ' ' ∧ c ≠ '*' := by
  intro c member
  obtain rfl : d = c := Option.some.inj (found.symm.trans member)
  exact plain

/-- A name is written clean if and only if its text has none of the two flaws. -/
theorem proxyClientCleanName_clean_iff (name : CString) {outSize : Nat} (room : 8 ≤ outSize) :
    Clean outSize (proxyClientCleanName name outSize) ↔ CleanInput outSize name := by
  have input : CleanInput outSize name ↔ (∀ c ∈ ((keptName (trimmed name)).take (outSize - 1)).head?, c ≠ ' ' ∧ c ≠ '*') ∧
      ¬ List.replicate 4 ' ' <:+: (keptName (trimmed name)).take (outSize - 1) ∧
      ¬ List.replicate 4 '@' <:+: (keptName (trimmed name)).take (outSize - 1) := by
    rw [head_kept (by omega), four_in_a_row_iff (Or.inl rfl), four_in_a_row_iff (Or.inr rfl)]
    exact ⟨fun ⟨start, spaces, ats⟩ => ⟨start, spaces, ats⟩, fun ⟨start, spaces, ats⟩ => ⟨start, spaces, ats⟩⟩
  have keepable : ∀ c ∈ (keptName (trimmed name)).take (outSize - 1), Keepable c :=
    fun c member => keepable_keptName _ c (List.mem_of_mem_take member)
  have fits : ((keptName (trimmed name)).take (outSize - 1)).length < outSize := by
    rw [List.length_take]
    omega
  rw [proxyClientCleanName_of_size, input]
  generalize (keptName (trimmed name)).take (outSize - 1) = kept at keepable fits
  by_cases blank : (stripColorPass kept).2 = []
  · have absent {c : Char} (other : c ≠ '^' ∧ isDigit c = false) : c ∉ kept := by
      intro member
      have shown := mem_stripColorPass other member
      rw [blank] at shown
      cases shown
    have apart {c : Char} (other : c ≠ '^' ∧ isDigit c = false) : ¬ List.replicate 4 c <:+: kept :=
      fun inside => absent other (inside.subset List.mem_cons_self)
    have padawan : qStrncpyz "Padawan".toList outSize = "Padawan".toList :=
      qStrncpyz_of_fits (Nat.lt_of_lt_of_le (by decide) room)
    rw [if_pos blank, padawan]
    have start : ∀ c ∈ "Padawan".toList.head?, c ≠ ' ' ∧ c ≠ '*' := @plain_of_eq_some _ 'P' rfl (by decide)
    refine iff_of_true ⟨Nat.lt_of_lt_of_le (by decide) room, start, by decide, by decide, by decide, by decide⟩ ?_
    refine ⟨?_, apart (by decide), apart (by decide)⟩
    intro c first
    have member := List.mem_of_mem_head? first
    constructor
    · rintro rfl
      exact absent (by decide) member
    · rintro rfl
      exact absent (by decide) member
  · rw [if_neg blank]
    constructor
    · rintro ⟨_, start, _, spaces, ats, _⟩
      exact ⟨start, spaces, ats⟩
    · rintro ⟨start, spaces, ats⟩
      exact ⟨fits, start, keepable, spaces, ats, blank⟩

theorem cleanInput_padme : CleanInput 36 "  **^1Padme @@@@   ".toList :=
  (proxyClientCleanName_clean_iff "  **^1Padme @@@@   ".toList (by decide)).mp
    ⟨by decide, @plain_of_eq_some _ '^' (by decide) (by decide), by decide, by decide, by decide, by decide⟩

/-- A space behind an asterisk stays in front, and spaces with a control character between them stay together. -/
theorem dirty_names :
    ¬ Clean 36 (proxyClientCleanName "* Bob".toList 36) ∧ ¬ Clean 36 (proxyClientCleanName "a  \x01  b".toList 36) := by
  have first : proxyClientCleanName "* Bob".toList 36 = " Bob".toList := by decide
  have second : proxyClientCleanName "a  \x01  b".toList 36 = "a    b".toList := by decide
  rw [first, second]
  constructor
  · intro clean
    exact (clean.start ' ' rfl).1 rfl
  · intro clean
    exact clean.spaces (by decide)

end YbeProxy.DirtyNames
