import YbeProxy.Strings

/-!
# The command tokenizer

`Cmd_TokenizeString2` and `Cmd_Argv` of `Engine/Hooks/qcommon/cmd.cpp`. The line is read from a bounded copy, and the
tokens are its words and quoted texts outside comments.
-/

namespace YbeProxy.Cmd
open YbeProxy.Strings

def bigInfoString : Nat := 8192
def maxStringTokens : Nat := 1024

/-- The characters that separate tokens: everything up to the space, as unsigned bytes. -/
def blank (c : Char) : Bool := c.toNat ≤ 32

/-- Behind the first `*/`, or the end of the text. -/
def skipComment : CString → CString
  | [] => []
  | c :: rest => if c = '*' ∧ rest.head? = some '/' then rest.tail else skipComment rest

theorem length_skipComment_le (text : CString) : (skipComment text).length ≤ text.length := by
  induction text with
  | nil => exact Nat.le_refl 0
  | cons c rest hypothesis =>
    rw [skipComment]
    split
    · rw [List.length_tail, List.length_cons]
      omega
    · rw [List.length_cons]
      omega

def opensComment (text : CString) : Bool := text.head? = some '/' && (text.tail.head? = some '/' || text.tail.head? = some '*')

/-- The text from the next token on: blanks and `/* */` comments are skipped, and `//` ends the line. -/
def skipBlanks (text : CString) : CString :=
  match _ : text.dropWhile blank with
  | [] => []
  | c :: rest =>
    if c = '/' ∧ rest.head? = some '/' then []
    -- The opening slash is skipped too, so a comment may close with its own star.
    else if c = '/' ∧ rest.head? = some '*' then skipBlanks (skipComment rest)
    else c :: rest
termination_by text.length
decreasing_by
  have skipped := length_skipComment_le rest
  have dropped := (List.dropWhile_sublist blank (l := text)).length_le
  rw [‹text.dropWhile blank = c :: rest›, List.length_cons] at dropped
  omega

/-- A word: up to a blank, a quote that is honoured, or a comment; and the text behind it. -/
def word (ignoreQuotes : Bool) : CString → CString × CString
  | [] => ([], [])
  | c :: rest =>
    if blank c || (!ignoreQuotes && c = '"') || opensComment (c :: rest) then ([], c :: rest)
    else (c :: (word ignoreQuotes rest).1, (word ignoreQuotes rest).2)

def tokensFrom (ignoreQuotes : Bool) : Nat → CString → List CString
  | 0, _ => []
  | room + 1, text =>
    match skipBlanks text with
    | [] => []
    | c :: rest =>
      if !ignoreQuotes && c = '"' then
        rest.takeWhile (· ≠ '"') :: tokensFrom ignoreQuotes room (rest.dropWhile (· ≠ '"')).tail
      else (word ignoreQuotes (c :: rest)).1 :: tokensFrom ignoreQuotes room (word ignoreQuotes (c :: rest)).2

def cmdTokenizeString2 (text_in : CString) (ignoreQuotes : Bool) : List CString :=
  tokensFrom ignoreQuotes maxStringTokens (qStrncpyz text_in bigInfoString)

/-- `Cmd_Argv`: empty from `Cmd_Argc` on. -/
def cmdArgv (tokens : List CString) (arg : Nat) : CString := tokens.getD arg []

example : cmdTokenizeString2 "say \"a;b\" x/*c*/y // z".toList false =
    ["say".toList, "a;b".toList, "x".toList, "y".toList] := by decide +kernel

theorem skipBlanks_of_nil {text : CString} (met : text.dropWhile blank = []) : skipBlanks text = [] := by
  rw [skipBlanks]
  split <;> simp_all

theorem skipBlanks_of_cons {text rest : CString} {c : Char} (met : text.dropWhile blank = c :: rest) :
    skipBlanks text = if c = '/' ∧ rest.head? = some '/' then [] else
      if c = '/' ∧ rest.head? = some '*' then skipBlanks (skipComment rest) else c :: rest := by
  rw [skipBlanks]
  split
  · simp_all
  · rename_i c' rest' met'
    obtain ⟨rfl, rfl⟩ := List.cons.inj (met.symm.trans met')
    rfl

/-- Nothing is skipped where a token starts. -/
theorem skipBlanks_of_token {c : Char} {rest : CString} (visible : blank c = false)
    (plain : opensComment (c :: rest) = false) : skipBlanks (c :: rest) = c :: rest := by
  have kept : (c :: rest).dropWhile blank = c :: rest := by rw [List.dropWhile_cons_of_neg (by simp [visible])]
  have line : ¬(c = '/' ∧ rest.head? = some '/') := by
    rintro ⟨rfl, second⟩
    simp [opensComment, second] at plain
  have block : ¬(c = '/' ∧ rest.head? = some '*') := by
    rintro ⟨rfl, second⟩
    simp [opensComment, second] at plain
  rw [skipBlanks_of_cons kept, if_neg line, if_neg block]

theorem skipBlanks_blank {c : Char} (space : blank c = true) (rest : CString) :
    skipBlanks (c :: rest) = skipBlanks rest := by
  rw [skipBlanks.eq_def (c :: rest), skipBlanks.eq_def rest, List.dropWhile_cons_of_pos space]

/-- A line that starts with a character of a word starts with a token of that character. -/
theorem head_cmdArgv_zero {c : Char} (tail : CString) (ignoreQuotes : Bool) (visible : blank c = false)
    (unquoted : c ≠ '"') (plain : c ≠ '/') :
    (cmdArgv (cmdTokenizeString2 (c :: tail) ignoreQuotes) 0).head? = some c := by
  have copied : qStrncpyz (c :: tail) bigInfoString = c :: qStrncpyz tail (bigInfoString - 1) := rfl
  have starts (rest : CString) : skipBlanks (c :: rest) = c :: rest :=
    skipBlanks_of_token visible (by simp [opensComment, plain])
  have room : maxStringTokens = 1023 + 1 := rfl
  rw [cmdTokenizeString2, copied, room, tokensFrom, starts]
  simp [cmdArgv, unquoted, word, visible, opensComment, plain]

theorem cmdArgv_zero_of_nil (ignoreQuotes : Bool) : cmdArgv (cmdTokenizeString2 [] ignoreQuotes) 0 = [] := by
  have room : maxStringTokens = 1023 + 1 := rfl
  rw [cmdTokenizeString2, room, tokensFrom]
  simp [qStrncpyz, skipBlanks, cmdArgv]

/-- A text that the tokenizer leaves whole. -/
def Plain (token : CString) : Prop :=
  (∀ c ∈ token, blank c = false) ∧ ¬ "//".toList <:+: token ∧ ¬ "/*".toList <:+: token

theorem Plain.tail {c : Char} {token : CString} (plain : Plain (c :: token)) : Plain token := by
  obtain ⟨visible, line, block⟩ := plain
  refine ⟨fun d member => visible d (List.mem_cons_of_mem c member), ?_, ?_⟩
  · exact fun found => line (found.trans (List.suffix_cons c token).isInfix)
  · exact fun found => block (found.trans (List.suffix_cons c token).isInfix)

theorem opens_no_quote {ignoreQuotes : Bool} {c : Char} {token : CString}
    (unquoted : ignoreQuotes = true ∨ '"' ∉ c :: token) : (!ignoreQuotes && decide (c = '"')) = false := by
  rcases unquoted with rfl | absent
  · rfl
  · simp [(List.ne_of_not_mem_cons absent).symm]

section Spaced
variable {ignoreQuotes : Bool} {token after : CString} (ends : ∀ c ∈ after.head?, c = ' ')
include ends

theorem Plain.opensComment_append {c : Char} (plain : Plain (c :: token)) : opensComment (c :: token ++ after) = false := by
  obtain ⟨visible, line, block⟩ := plain
  by_cases slash : c = '/'
  · subst slash
    cases token with
    | nil =>
      cases after with
      | nil => rfl
      | cons d after =>
        obtain rfl := ends d rfl
        rfl
    | cons d token =>
      have second : d ≠ '/' := by
        rintro rfl
        exact line ⟨[], token, rfl⟩
      have third : d ≠ '*' := by
        rintro rfl
        exact block ⟨[], token, rfl⟩
      simp [opensComment, second, third]
  · simp [opensComment, slash]

/-- A plain text in front of a space is a word as it stands. -/
theorem Plain.word_append (plain : Plain token) (unquoted : ignoreQuotes = true ∨ '"' ∉ token) :
    word ignoreQuotes (token ++ after) = (token, after) := by
  induction token with
  | nil =>
    cases after with
    | nil => rfl
    | cons d after =>
      obtain rfl := ends d rfl
      rfl
  | cons c token hypothesis =>
    have visible : blank c = false := plain.1 c List.mem_cons_self
    have opens := plain.opensComment_append ends
    rw [List.cons_append] at opens ⊢
    rw [word, hypothesis plain.tail (unquoted.imp_right List.not_mem_of_not_mem_cons)]
    simp [visible, opens, opens_no_quote unquoted]

theorem Plain.tokensFrom_append (plain : Plain token) (nonempty : token ≠ [])
    (unquoted : ignoreQuotes = true ∨ '"' ∉ token) (room : Nat) :
    tokensFrom ignoreQuotes (room + 1) (token ++ after) = token :: tokensFrom ignoreQuotes room after := by
  obtain ⟨c, rest, rfl⟩ := List.exists_cons_of_ne_nil nonempty
  have visible : blank c = false := plain.1 c List.mem_cons_self
  have opens := plain.opensComment_append ends
  have taken := plain.word_append ends unquoted
  rw [List.cons_append] at opens taken ⊢
  rw [tokensFrom, skipBlanks_of_token visible opens]
  simp [taken, opens_no_quote unquoted]

end Spaced

theorem tokensFrom_space (ignoreQuotes : Bool) (room : Nat) (text : CString) :
    tokensFrom ignoreQuotes room (' ' :: text) = tokensFrom ignoreQuotes room text := by
  cases room with
  | zero => rfl
  | succ room => rw [tokensFrom, tokensFrom, skipBlanks_blank rfl]

theorem tokensFrom_nil (ignoreQuotes : Bool) (room : Nat) : tokensFrom ignoreQuotes room [] = [] := by
  cases room with
  | zero => rfl
  | succ room => simp [tokensFrom, skipBlanks]

/-! ## The room that tokens take -/

def cost (tokens : List CString) : Nat := (tokens.map fun token => token.length + 1).sum

/-- A word ends before a character that no word starts with. -/
def Bounded (ignoreQuotes : Bool) (text : CString) : Prop :=
  ∀ c rest, text = c :: rest → (blank c || (!ignoreQuotes && c = '"') || opensComment (c :: rest)) = true

theorem word_length (ignoreQuotes : Bool) (text : CString) :
    (word ignoreQuotes text).1.length + (word ignoreQuotes text).2.length = text.length := by
  induction text with
  | nil => rfl
  | cons c rest hypothesis =>
    rw [word]
    split
    · simp
    · simp only [List.length_cons]
      omega

theorem word_bounded (ignoreQuotes : Bool) (text : CString) : Bounded ignoreQuotes (word ignoreQuotes text).2 := by
  induction text with
  | nil =>
    intro c rest same
    cases same
  | cons c rest hypothesis =>
    rw [word]
    split
    · rename_i stop
      rintro c rest ⟨⟩
      exact stop
    · exact hypothesis

/-- Skipping to the next token takes a character where a blank or a comment stands, and nothing where a word starts. -/
theorem length_skipBlanks (text : CString) :
    (skipBlanks text).length ≤ text.length ∧
      (skipBlanks text = text ∨ skipBlanks text = [] ∨ (skipBlanks text).length < text.length) ∧
      ∀ c rest, skipBlanks text = c :: rest → blank c = false ∧ opensComment (c :: rest) = false := by
  induction text using skipBlanks.induct with
  | case1 text met =>
    rw [skipBlanks_of_nil met]
    exact ⟨Nat.zero_le _, Or.inr (Or.inl rfl), by rintro c rest ⟨⟩⟩
  | case2 text c rest met slashes =>
    rw [skipBlanks_of_cons met, if_pos slashes]
    exact ⟨Nat.zero_le _, Or.inr (Or.inl rfl), by rintro c rest ⟨⟩⟩
  | case3 text c rest met line block hypothesis =>
    have skipped := length_skipComment_le rest
    have dropped := (List.dropWhile_sublist blank (l := text)).length_le
    rw [met, List.length_cons] at dropped
    obtain ⟨shorter, _, starts⟩ := hypothesis
    rw [skipBlanks_of_cons met, if_neg line, if_pos block]
    exact ⟨by omega, Or.inr (Or.inr (by omega)), starts⟩
  | case4 text c rest met line block =>
    have dropped := List.dropWhile_sublist blank (l := text)
    rw [met] at dropped
    have visible : blank c = false := by
      have head := List.head?_dropWhile_not blank text
      rw [met] at head
      simpa using head
    rw [skipBlanks_of_cons met, if_neg line, if_neg block]
    refine ⟨dropped.length_le, ?_, ?_⟩
    · obtain same | less := Nat.eq_or_lt_of_le dropped.length_le
      · exact Or.inl (dropped.eq_of_length same)
      · exact Or.inr (Or.inr less)
    · rintro c' rest' ⟨⟩
      refine ⟨visible, ?_⟩
      by_cases slash : c = '/'
      · have second : rest.head? ≠ some '/' := fun same => line ⟨slash, same⟩
        have third : rest.head? ≠ some '*' := fun same => block ⟨slash, same⟩
        simp [opensComment, second, third]
      · simp [opensComment, slash]

/-- The tokens and the spaces between them fit in the text they are read from. A text that starts with no word has a
character left over. -/
theorem cost_tokensFrom (room : Nat) (text : CString) :
    cost (tokensFrom false room text) ≤ text.length + 1 ∧
      (Bounded false text → cost (tokensFrom false room text) ≤ text.length) := by
  induction room generalizing text with
  | zero => exact ⟨Nat.zero_le _, fun _ => Nat.zero_le _⟩
  | succ room hypothesis =>
    obtain ⟨shorter, moved, starts⟩ := length_skipBlanks text
    rw [tokensFrom]
    cases next : skipBlanks text with
    | nil => exact ⟨Nat.zero_le _, fun _ => Nat.zero_le _⟩
    | cons c rest =>
      obtain ⟨visible, plain⟩ := starts c rest next
      rw [next] at moved
      by_cases quote : c = '"'
      · have parts := congrArg List.length (List.takeWhile_append_dropWhile (p := fun x => decide (x ≠ '"')) (l := rest))
        rw [List.length_append] at parts
        have tail := (hypothesis (rest.dropWhile fun x => decide (x ≠ '"')).tail).1
        have quoted : cost ((rest.takeWhile fun x => decide (x ≠ '"')) ::
            tokensFrom false room (rest.dropWhile fun x => decide (x ≠ '"')).tail) ≤ (c :: rest).length := by
          simp only [cost, List.map_cons, List.sum_cons, List.length_cons] at tail ⊢
          cases closed : rest.dropWhile fun x => decide (x ≠ '"') with
          | nil =>
            rw [closed] at parts
            simp only [List.tail_nil, tokensFrom_nil, List.map_nil, List.sum_nil, List.length_nil] at parts ⊢
            omega
          | cons d after =>
            rw [closed, List.length_cons] at parts
            rw [closed, List.tail_cons] at tail
            simp only [List.tail_cons]
            omega
        simp only [quote, Bool.not_false, Bool.true_and, decide_true, if_true]
        rw [next] at shorter
        exact ⟨by omega, fun _ => by omega⟩
      · have split := word_length false (c :: rest)
        have tail := (hypothesis (word false (c :: rest)).2).2 (word_bounded false (c :: rest))
        have spent : cost ((word false (c :: rest)).1 :: tokensFrom false room (word false (c :: rest)).2) ≤
            (c :: rest).length + 1 := by
          simp only [cost, List.map_cons, List.sum_cons] at tail ⊢
          omega
        simp only [quote, decide_false, Bool.and_false, Bool.false_eq_true, if_false]
        rw [next] at shorter
        refine ⟨by omega, ?_⟩
        intro bounded
        obtain same | nothing | less := moved
        · have stop := bounded c rest same.symm
          simp [visible, plain, quote] at stop
        · cases nothing
        · omega

theorem cost_cmdTokenizeString2 (text_in : CString) :
    cost (cmdTokenizeString2 text_in false) ≤ text_in.length + 1 := by
  have tokens := (cost_tokensFrom maxStringTokens (qStrncpyz text_in bigInfoString)).1
  have copied : (qStrncpyz text_in bigInfoString).length ≤ text_in.length := List.length_take_le' _ _
  exact Nat.le_trans tokens (Nat.succ_le_succ copied)

end YbeProxy.Cmd
