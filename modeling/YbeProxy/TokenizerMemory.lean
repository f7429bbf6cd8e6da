import YbeProxy.Cmd
import Mathlib.Data.List.Infix

/-!
# The memory of the tokenizer

`Cmd_TokenizeString2` of `Engine/Hooks/qcommon/cmd.cpp` with its pointers: every read is checked against the bounds of the
copy, every write against those of the token buffer and of `cmd_argv`. It stays inside of all three, and its tokens are those
of `Cmd`.
-/

namespace YbeProxy.TokenizerMemory
open YbeProxy.Strings
open YbeProxy.Cmd (bigInfoString maxStringTokens blank Plain skipBlanks skipComment opensComment word)

def nul : Char := '\x00'
def tokenizedSize : Nat := bigInfoString + maxStringTokens

/-- `cmd_cmd` once the text is copied; `strncpy` fills the rest up. -/
def copyOf (text_in : CString) : List Char :=
  let text := (text_in.takeWhile (· ≠ nul)).take (bigInfoString - 1)
  text ++ List.replicate (bigInfoString - text.length) nul

/-! ## Reading -/

variable (copy : List Char)

/-- The two characters at a pointer; the second is read only where the first is the one looked for. -/
def pair (text : Nat) (first second : Char) : Option Bool :=
  match copy[text]? with
  | none => none
  | some c => if c = first then (copy[text + 1]?).map (· = second) else some false

def skipWhitespace (text : Nat) : Option Nat :=
  if _ : text < copy.length then
    if copy[text] ≠ nul ∧ blank copy[text] = true then skipWhitespace (text + 1) else some text
  else none

/-- To the end of a comment, or of the text. -/
def skipToClose (text : Nat) : Option Nat :=
  if _ : text < copy.length then
    if copy[text] = nul then some text
    else
      match pair copy text '*' '/' with
      | none => none
      | some true => some text
      | some false => skipToClose (text + 1)
  else none

/-- What is found behind the blanks: the end of the tokens, the start of one, or a comment, with what is behind it. -/
inductive Next
  | parsed
  | token (text : Nat)
  | comment (text : Nat)

def afterBlanks (text : Nat) : Option Next :=
  match skipWhitespace copy text with
  | none => none
  | some text =>
    if _ : text < copy.length then
      if copy[text] = nul then some .parsed
      else
        match pair copy text '/' '/', pair copy text '/' '*' with
        | some true, _ => some .parsed
        | some false, some false => some (.token text)
        | some false, some true =>
          match skipToClose copy text with
          | none => none
          | some text =>
            if _ : text < copy.length then
              if copy[text] = nul then some .parsed else some (.comment (text + 2))
            else none
        | _, _ => none
    else none

theorem le_skipWhitespace {text found : Nat} (skipped : skipWhitespace copy text = some found) : text ≤ found := by
  induction text using skipWhitespace.induct copy with
  | case1 text inside blank hypothesis =>
    rw [skipWhitespace, dif_pos inside, if_pos blank] at skipped
    exact Nat.le_of_succ_le (hypothesis skipped)
  | case2 text inside visible =>
    rw [skipWhitespace, dif_pos inside, if_neg visible] at skipped
    exact (Option.some.inj skipped).le
  | case3 text outside =>
    rw [skipWhitespace, dif_neg outside] at skipped
    cases skipped

theorem le_skipToClose {text found : Nat} (skipped : skipToClose copy text = some found) : text ≤ found := by
  induction text using skipToClose.induct copy with
  | case1 text inside ended =>
    rw [skipToClose, dif_pos inside, if_pos ended] at skipped
    exact (Option.some.inj skipped).le
  | case2 text inside goesOn outside =>
    rw [skipToClose, dif_pos inside, if_neg goesOn, outside] at skipped
    cases skipped
  | case3 text inside goesOn closes =>
    rw [skipToClose, dif_pos inside, if_neg goesOn, closes] at skipped
    exact (Option.some.inj skipped).le
  | case4 text inside goesOn open' hypothesis =>
    rw [skipToClose, dif_pos inside, if_neg goesOn, open'] at skipped
    exact Nat.le_of_succ_le (hypothesis skipped)
  | case5 text outside =>
    rw [skipToClose, dif_neg outside] at skipped
    cases skipped

theorem lt_afterBlanks {text found : Nat} (commented : afterBlanks copy text = some (.comment found)) :
    text < found ∧ text < copy.length := by
  rw [afterBlanks] at commented
  split at commented
  · cases commented
  rename_i start skipped
  have first := le_skipWhitespace copy skipped
  split at commented
  · rename_i inside
    split at commented
    · cases commented
    split at commented
    · cases commented
    · cases commented
    · split at commented
      · cases commented
      rename_i close skipped
      have second := le_skipToClose copy skipped
      split at commented
      · split at commented
        · cases commented
        · cases commented
          omega
      · cases commented
    · cases commented
  · cases commented

/-- The start of the next token, if there is one. -/
def findToken (text : Nat) : Option (Option Nat) :=
  match _ : afterBlanks copy text with
  | none => none
  | some .parsed => some none
  | some (.token text) => some (some text)
  | some (.comment text) => findToken text
termination_by copy.length - text
decreasing_by
  have forward := lt_afterBlanks copy ‹_›
  omega

/-! ## Writing -/

def put (written : List Char) (c : Char) : Option (List Char) :=
  if written.length < tokenizedSize then some (written ++ [c]) else none

def copyQuoted (text : Nat) (written : List Char) : Option (Nat × List Char) :=
  if _ : text < copy.length then
    if copy[text] = nul ∨ copy[text] = '"' then some (text, written)
    else
      match put written copy[text] with
      | none => none
      | some written => copyQuoted (text + 1) written
  else none

def copyWord (ignoreQuotes : Bool) (text : Nat) (written : List Char) : Option (Nat × List Char) :=
  if _ : text < copy.length then
    if blank copy[text] || (!ignoreQuotes && copy[text] = '"') then some (text, written)
    else
      match pair copy text '/' '/', pair copy text '/' '*' with
      | some false, some false =>
        match put written copy[text] with
        | none => none
        | some written => copyWord ignoreQuotes (text + 1) written
      | some _, some _ => some (text, written)
      | _, _ => none
  else none

/-- An entry of `cmd_argv`, and whether it was read in quotes. -/
structure Arg where
  offset : Nat
  quoted : Bool

/-- `cmd_argv`, and what is written of the token buffer. -/
structure Tokenized where
  argv : List Arg
  written : List Char

/-- The NUL behind a token, and whether the text goes on. -/
def closeToken (text : Nat) (written : List Char) : Option (Bool × List Char) :=
  match put written nul with
  | none => none
  | some written => if _ : text < copy.length then some (copy[text] ≠ nul, written) else none

def tokenize (ignoreQuotes : Bool) (text : Nat) (out : Tokenized) : Option Tokenized :=
  if out.argv.length = maxStringTokens then some out
  else if _ : out.argv.length < maxStringTokens then
    match findToken copy text with
    | none => none
    | some none => some out
    | some (some text) =>
      let quoted := !ignoreQuotes && copy[text]? = some '"'
      let argv := out.argv ++ [⟨out.written.length, quoted⟩]
      match if quoted then copyQuoted copy (text + 1) out.written else copyWord copy ignoreQuotes text out.written with
      | none => none
      | some (text, written) =>
        match closeToken copy text written with
        | none => none
        | some (false, written) => some ⟨argv, written⟩
        -- A closing quote is passed over.
        | some (true, written) => tokenize ignoreQuotes (if quoted then text + 1 else text) ⟨argv, written⟩
  else none
termination_by maxStringTokens - out.argv.length
decreasing_by
  simp only [List.length_append, List.length_singleton]
  omega

def cmdTokenizeString2 (text_in : Option CString) (ignoreQuotes : Bool) : Option Tokenized :=
  match text_in with
  | none => some ⟨[], []⟩
  | some text => tokenize (copyOf text) ignoreQuotes 0 ⟨[], []⟩

/-! ## What the pointers read -/

/-- What is left of the text at a pointer, up to the NUL behind it. -/
structure Holds (text : Nat) (rest : CString) : Prop where
  clean : nul ∉ rest
  held : ∃ pad, copy.drop text = rest ++ nul :: pad

namespace Holds
variable {copy} {text : Nat} {rest : CString} {c : Char}

theorem nil (holds : Holds copy text []) : ∃ _ : text < copy.length, copy[text] = nul := by
  obtain ⟨pad, held⟩ := holds.held
  have read : copy[text]? = some nul := by
    rw [← List.head?_drop, held]
    rfl
  exact List.getElem?_eq_some_iff.mp read

theorem cons (holds : Holds copy text (c :: rest)) :
    (∃ _ : text < copy.length, copy[text] = c) ∧ c ≠ nul ∧ Holds copy (text + 1) rest := by
  obtain ⟨clean, pad, held⟩ := holds
  have read : copy[text]? = some c := by
    rw [← List.head?_drop, held]
    rfl
  refine ⟨List.getElem?_eq_some_iff.mp read, ?_, ?_, pad, ?_⟩
  · rintro rfl
    exact clean List.mem_cons_self
  · exact fun member => clean (List.mem_cons_of_mem c member)
  · rw [← List.tail_drop, held]
    rfl

theorem read (holds : Holds copy text rest) : copy[text]? = some (rest.headD nul) := by
  cases rest with
  | nil =>
    obtain ⟨inside, ended⟩ := holds.nil
    exact List.getElem?_eq_some_iff.mpr ⟨inside, ended⟩
  | cons c rest => exact List.getElem?_eq_some_iff.mpr holds.cons.1

/-- The two characters that are looked for are those at the head of the rest. -/
theorem pair_eq (holds : Holds copy text (c :: rest)) (first second : Char) (visible : second ≠ nul) :
    pair copy text first second = some (decide (c = first ∧ rest.head? = some second)) := by
  obtain ⟨_, _, behind⟩ := holds.cons
  by_cases same : c = first
  · cases rest with
    | nil => simp [pair, holds.read, behind.read, same, Ne.symm visible]
    | cons d rest => simp [pair, holds.read, behind.read, same]
  · simp [pair, holds.read, same]

end Holds

theorem skipWhitespace_spec {text : Nat} {rest : CString} (holds : Holds copy text rest) :
    ∃ found, skipWhitespace copy text = some found ∧ Holds copy found (rest.dropWhile blank) := by
  induction rest generalizing text with
  | nil =>
    obtain ⟨inside, ended⟩ := holds.nil
    refine ⟨text, ?_, holds⟩
    rw [skipWhitespace, dif_pos inside, if_neg (fun both => both.1 ended)]
  | cons c rest hypothesis =>
    obtain ⟨⟨inside, read⟩, visible, behind⟩ := holds.cons
    by_cases space : blank c = true
    · obtain ⟨found, skipped, reached⟩ := hypothesis behind
      refine ⟨found, ?_, ?_⟩
      · rw [skipWhitespace, dif_pos inside, read, if_pos ⟨visible, space⟩, skipped]
      · rwa [List.dropWhile_cons_of_pos space]
    · refine ⟨text, ?_, ?_⟩
      · rw [skipWhitespace, dif_pos inside, read, if_neg (fun both => space both.2)]
      · rwa [List.dropWhile_cons_of_neg space]

/-- The loop over a comment stops at the end of the text, or at the mark that `skipComment` passes. -/
theorem skipToClose_spec {text : Nat} {rest : CString} (holds : Holds copy text rest) :
    ∃ found left, skipToClose copy text = some found ∧ Holds copy found left ∧
      (left = [] ∧ skipComment rest = [] ∨ left = '*' :: '/' :: skipComment rest) := by
  induction rest generalizing text with
  | nil =>
    obtain ⟨inside, ended⟩ := holds.nil
    refine ⟨text, [], ?_, holds, Or.inl ⟨rfl, rfl⟩⟩
    rw [skipToClose, dif_pos inside, if_pos ended]
  | cons c rest hypothesis =>
    obtain ⟨⟨inside, read⟩, visible, behind⟩ := holds.cons
    have marks := holds.pair_eq '*' '/' (by decide)
    by_cases closes : c = '*' ∧ rest.head? = some '/'
    · obtain ⟨rfl, slash⟩ := closes
      refine ⟨text, '*' :: rest, ?_, holds, Or.inr ?_⟩
      · rw [skipToClose, dif_pos inside, read, if_neg visible, marks]
        simp [slash]
      · rw [skipComment, if_pos ⟨rfl, slash⟩, ← List.cons_head?_tail slash]
        rfl
    · obtain ⟨found, left, skipped, reached, ends⟩ := hypothesis behind
      refine ⟨found, left, ?_, reached, ?_⟩
      · rw [skipToClose, dif_pos inside, read, if_neg visible, marks]
        rw [decide_eq_false closes, skipped]
      · rwa [skipComment, if_neg closes]

theorem findToken_of_parsed {text : Nat} (next : afterBlanks copy text = some .parsed) :
    findToken copy text = some none := by
  rw [findToken]
  split <;> simp_all

theorem findToken_of_token {text found : Nat} (next : afterBlanks copy text = some (.token found)) :
    findToken copy text = some (some found) := by
  rw [findToken]
  split <;> simp_all

theorem findToken_of_comment {text found : Nat} (next : afterBlanks copy text = some (.comment found)) :
    findToken copy text = findToken copy found := by
  rw [findToken]
  split <;> simp_all

/-- The loop finds what `skipBlanks` leaves. -/
theorem findToken_spec {text : Nat} {rest : CString} (holds : Holds copy text rest) :
    (findToken copy text = some none ∧ skipBlanks rest = []) ∨
      ∃ found, findToken copy text = some (some found) ∧ skipBlanks rest ≠ [] ∧ Holds copy found (skipBlanks rest) := by
  induction rest using YbeProxy.Cmd.skipBlanks.induct generalizing text with
  | case1 rest met =>
    obtain ⟨found, skipped, reached⟩ := skipWhitespace_spec copy holds
    rw [met] at reached
    obtain ⟨inside, ended⟩ := reached.nil
    exact Or.inl ⟨findToken_of_parsed copy (by simp [afterBlanks, skipped, inside, ended]), Cmd.skipBlanks_of_nil met⟩
  | case2 rest c tail met slashes =>
    obtain ⟨found, skipped, reached⟩ := skipWhitespace_spec copy holds
    rw [met] at reached
    obtain ⟨⟨inside, read⟩, _, _⟩ := reached.cons
    have line := reached.pair_eq '/' '/' (by decide)
    rw [Cmd.skipBlanks_of_cons met, if_pos slashes]
    refine Or.inl ⟨findToken_of_parsed copy ?_, rfl⟩
    simp [afterBlanks, skipped, inside, read, line, slashes.1, slashes.2]
  | case3 rest c tail met line block hypothesis =>
    obtain ⟨found, skipped, reached⟩ := skipWhitespace_spec copy holds
    rw [met] at reached
    obtain ⟨⟨inside, read⟩, visible, _⟩ := reached.cons
    have noLine := reached.pair_eq '/' '/' (by decide)
    have opens := reached.pair_eq '/' '*' (by decide)
    obtain ⟨close, left, closed, behind, ends⟩ := skipToClose_spec copy reached
    have passed : skipComment (c :: tail) = skipComment tail := by
      rw [skipComment, if_neg]
      rintro ⟨rfl, _⟩
      exact absurd block.1 (by decide)
    rw [Cmd.skipBlanks_of_cons met, if_neg line, if_pos block]
    rw [passed] at ends
    obtain ⟨rfl, star⟩ := block
    rcases ends with ⟨rfl, nothing⟩ | rfl
    · obtain ⟨inside', ended⟩ := behind.nil
      left
      constructor
      · refine findToken_of_parsed copy ?_
        simp [afterBlanks, skipped, inside, read, visible, noLine, opens, star, closed, inside', ended]
      · rw [nothing]
        exact Cmd.skipBlanks_of_nil rfl
    · obtain ⟨⟨inside', read'⟩, marked, second⟩ := behind.cons
      obtain ⟨_, _, third⟩ := second.cons
      have next : afterBlanks copy text = some (.comment (close + 2)) := by
        simp [afterBlanks, skipped, inside, read, visible, noLine, opens, star, closed, inside', read', marked]
      rw [findToken_of_comment copy next]
      exact hypothesis third
  | case4 rest c tail met line block =>
    obtain ⟨found, skipped, reached⟩ := skipWhitespace_spec copy holds
    rw [met] at reached
    obtain ⟨⟨inside, read⟩, visible, _⟩ := reached.cons
    have noLine := reached.pair_eq '/' '/' (by decide)
    have noBlock := reached.pair_eq '/' '*' (by decide)
    rw [Cmd.skipBlanks_of_cons met, if_neg line, if_neg block]
    refine Or.inr ⟨found, findToken_of_token copy ?_, List.cons_ne_nil c tail, reached⟩
    rw [decide_eq_false line] at noLine
    rw [decide_eq_false block] at noBlock
    simp only [afterBlanks, skipped, dif_pos inside, read, if_neg visible, noLine, noBlock]

/-! ## What is written -/

theorem put_of_room {written : List Char} (room : written.length < tokenizedSize) (c : Char) :
    put written c = some (written ++ [c]) := if_pos room

theorem copyQuoted_spec {text : Nat} {rest : CString} (holds : Holds copy text rest) (written : List Char)
    (room : written.length + rest.length ≤ tokenizedSize) :
    ∃ found, copyQuoted copy text written = some (found, written ++ rest.takeWhile (· ≠ '"')) ∧
      Holds copy found (rest.dropWhile (· ≠ '"')) := by
  induction rest generalizing text written with
  | nil =>
    obtain ⟨inside, ended⟩ := holds.nil
    refine ⟨text, ?_, holds⟩
    rw [copyQuoted, dif_pos inside, if_pos (Or.inl ended)]
    simp
  | cons c rest hypothesis =>
    obtain ⟨⟨inside, read⟩, visible, behind⟩ := holds.cons
    by_cases quote : c = '"'
    · refine ⟨text, ?_, ?_⟩
      · rw [copyQuoted, dif_pos inside, read, if_pos (Or.inr quote)]
        simp [quote]
      · rwa [List.dropWhile_cons_of_neg (by simp [quote])]
    · rw [List.length_cons] at room
      obtain ⟨found, copied, reached⟩ := hypothesis behind (written ++ [c])
        (by rw [List.length_append, List.length_singleton]; omega)
      refine ⟨found, ?_, ?_⟩
      · rw [copyQuoted, dif_pos inside, read, if_neg (not_or.mpr ⟨visible, quote⟩), put_of_room (by omega)]
        simp only [copied]
        simp [quote]
      · rwa [List.dropWhile_cons_of_pos (by simp [quote])]

theorem opensComment_cons (c : Char) (rest : CString) : opensComment (c :: rest) = true ↔
    (c = '/' ∧ rest.head? = some '/') ∨ (c = '/' ∧ rest.head? = some '*') := by
  simp only [opensComment, Bool.and_eq_true, Bool.or_eq_true, decide_eq_true_eq]
  simp [and_or_left]

theorem copyWord_spec (ignoreQuotes : Bool) {text : Nat} {rest : CString} (holds : Holds copy text rest)
    (written : List Char) (room : written.length + rest.length ≤ tokenizedSize) :
    ∃ found, copyWord copy ignoreQuotes text written = some (found, written ++ (word ignoreQuotes rest).1) ∧
      Holds copy found (word ignoreQuotes rest).2 := by
  induction rest generalizing text written with
  | nil =>
    obtain ⟨inside, ended⟩ := holds.nil
    refine ⟨text, ?_, holds⟩
    have stops : (blank copy[text] || (!ignoreQuotes && copy[text] = '"')) = true := by
      rw [ended]
      rfl
    rw [copyWord, dif_pos inside, if_pos stops, word, List.append_nil]
  | cons c rest hypothesis =>
    obtain ⟨⟨inside, read⟩, visible, behind⟩ := holds.cons
    have line := holds.pair_eq '/' '/' (by decide)
    have block := holds.pair_eq '/' '*' (by decide)
    rw [copyWord, dif_pos inside, read, word]
    by_cases stops : (blank c || (!ignoreQuotes && c = '"')) = true
    · rw [if_pos stops, if_pos (by rw [stops]; rfl)]
      exact ⟨text, by rw [List.append_nil], holds⟩
    rw [if_neg stops, line, block]
    by_cases opens : opensComment (c :: rest) = true
    · rw [if_pos (by rw [opens, Bool.or_true]), List.append_nil]
      refine ⟨text, ?_, holds⟩
      rcases (opensComment_cons c rest).mp opens with slashes | star
      · simp [slashes.1, slashes.2]
      · simp [star.1, star.2]
    · have plain := (not_congr (opensComment_cons c rest)).mp opens
      rw [not_or] at plain
      rw [List.length_cons] at room
      obtain ⟨found, copied, reached⟩ := hypothesis behind (written ++ [c])
        (by rw [List.length_append, List.length_singleton]; omega)
      rw [if_neg (by simp only [stops, opens]; decide), decide_eq_false plain.1, decide_eq_false plain.2]
      refine ⟨found, ?_, reached⟩
      simp only [@put_of_room written (by omega), copied, List.append_assoc, List.singleton_append]

theorem closeToken_spec {text : Nat} {rest : CString} (holds : Holds copy text rest) {written : List Char}
    (room : written.length < tokenizedSize) :
    closeToken copy text written = some (!rest.isEmpty, written ++ [nul]) := by
  rw [closeToken, put_of_room room]
  cases rest with
  | nil =>
    obtain ⟨inside, ended⟩ := holds.nil
    simp [inside, ended]
  | cons c rest =>
    obtain ⟨⟨inside, read⟩, visible, _⟩ := holds.cons
    simp [inside, read, visible]

/-- The tokens with where they come from: true for those in quotes. -/
def taggedFrom (ignoreQuotes : Bool) : Nat → CString → List (Bool × CString)
  | 0, _ => []
  | room + 1, text =>
    match skipBlanks text with
    | [] => []
    | c :: rest =>
      if !ignoreQuotes && c = '"' then
        (true, rest.takeWhile (· ≠ '"')) :: taggedFrom ignoreQuotes room (rest.dropWhile (· ≠ '"')).tail
      else (false, (word ignoreQuotes (c :: rest)).1) :: taggedFrom ignoreQuotes room (word ignoreQuotes (c :: rest)).2

theorem taggedFrom_nil (ignoreQuotes : Bool) (room : Nat) : taggedFrom ignoreQuotes room [] = [] := by
  cases room with
  | zero => rfl
  | succ room => rw [taggedFrom, Cmd.skipBlanks_of_nil rfl]

theorem map_taggedFrom (ignoreQuotes : Bool) (room : Nat) (text : CString) :
    (taggedFrom ignoreQuotes room text).map Prod.snd = Cmd.tokensFrom ignoreQuotes room text := by
  induction room generalizing text with
  | zero => rfl
  | succ room hypothesis =>
    rw [taggedFrom, Cmd.tokensFrom]
    cases skipBlanks text with
    | nil => rfl
    | cons c rest =>
      dsimp only
      split
      · rw [List.map_cons, hypothesis]
      · rw [List.map_cons, hypothesis]

/-- The token buffer with these tokens, and where `cmd_argv` points. -/
def image (tokens : List (Bool × CString)) : List Char := tokens.flatMap fun token => token.2 ++ [nul]

def layout : Nat → List (Bool × CString) → List Arg
  | _, [] => []
  | start, token :: rest => ⟨start, token.1⟩ :: layout (start + token.2.length + 1) rest

theorem tokenize_spec (ignoreQuotes : Bool) (room : Nat) {text : Nat} {rest : CString} (holds : Holds copy text rest)
    (out : Tokenized) (free : out.argv.length + room = maxStringTokens)
    (budget : out.written.length + rest.length + room < tokenizedSize) :
    tokenize copy ignoreQuotes text out = some ⟨out.argv ++ layout out.written.length (taggedFrom ignoreQuotes room rest),
      out.written ++ image (taggedFrom ignoreQuotes room rest)⟩ := by
  induction room generalizing text rest out with
  | zero =>
    rw [Nat.add_zero] at free
    rw [tokenize, if_pos free]
    simp [taggedFrom, layout, image]
  | succ room hypothesis =>
    rw [tokenize, if_neg (by omega), dif_pos (by omega), taggedFrom]
    have shorter := (Cmd.length_skipBlanks rest).1
    -- What is done behind a token, in quotes or not: `left` is what the pointer holds then, `after` where the next one starts.
    have finish {token left after : CString} {close : Nat} (start : Nat) (quoted : Bool) (reached : Holds copy close left)
        (ends : left = [] → after = []) (goesOn : left ≠ [] → Holds copy start after)
        (spent : token.length + after.length ≤ rest.length) :
        (match closeToken copy close (out.written ++ token) with
          | none => none
          | some (false, written) => some ⟨out.argv ++ [⟨out.written.length, quoted⟩], written⟩
          | some (true, written) =>
            tokenize copy ignoreQuotes start ⟨out.argv ++ [⟨out.written.length, quoted⟩], written⟩) =
          some (⟨out.argv ++ layout out.written.length ((quoted, token) :: taggedFrom ignoreQuotes room after),
            out.written ++ image ((quoted, token) :: taggedFrom ignoreQuotes room after)⟩ : Tokenized) := by
      rw [closeToken_spec copy reached (by rw [List.length_append]; omega)]
      cases left with
      | nil =>
        rw [ends rfl, taggedFrom_nil]
        simp [layout, image]
      | cons c left =>
        have next := hypothesis (goesOn (List.cons_ne_nil c left))
          ⟨out.argv ++ [⟨out.written.length, quoted⟩], out.written ++ token ++ [nul]⟩
          (by simp only [List.length_append, List.length_singleton]; omega)
          (by simp only [List.length_append, List.length_singleton]; omega)
        simp only [List.isEmpty_cons, Bool.not_false, next]
        simp [layout, image, Nat.add_assoc]
    rcases findToken_spec copy holds with ⟨parsed, nothing⟩ | ⟨found, token, something, reached⟩
    · rw [parsed, nothing]
      simp [layout, image]
    rw [token]
    cases next : skipBlanks rest with
    | nil => exact absurd next something
    | cons c tail =>
      rw [next] at reached shorter
      rw [List.length_cons] at shorter
      have quoted : (!ignoreQuotes && decide (copy[found]? = some '"')) = (!ignoreQuotes && decide (c = '"')) := by
        rw [reached.read]
        simp
      simp only [quoted]
      cases quote : !ignoreQuotes && decide (c = '"') with
      | true =>
        obtain ⟨_, _, behind⟩ := reached.cons
        obtain ⟨close, copied, left⟩ := copyQuoted_spec copy behind out.written (by omega)
        have parts := congrArg List.length (List.takeWhile_append_dropWhile (p := fun x => decide (x ≠ '"')) (l := tail))
        rw [List.length_append] at parts
        simp only [if_true, copied]
        refine finish (close + 1) true left ?_ ?_ ?_
        · intro ended
          rw [ended, List.tail_nil]
        · intro goesOn
          cases closed : tail.dropWhile fun x => decide (x ≠ '"') with
          | nil => exact absurd closed goesOn
          | cons d after =>
            rw [closed] at left
            exact left.cons.2.2
        · rw [List.length_tail]
          omega
      | false =>
        obtain ⟨close, copied, left⟩ := copyWord_spec copy ignoreQuotes reached out.written
          (by rw [List.length_cons]; omega)
        have parts := Cmd.word_length ignoreQuotes (c :: tail)
        rw [List.length_cons] at parts
        simp only [Bool.false_eq_true, if_false, copied]
        exact finish close false left id (fun _ => left) (by omega)

/-! ## Every text -/

/-- The text that `cmd_cmd` holds. -/
def copied (text_in : CString) : CString := (text_in.takeWhile (· ≠ nul)).take (bigInfoString - 1)

theorem length_copied (text_in : CString) : (copied text_in).length < bigInfoString := by
  have size : bigInfoString = 8192 := rfl
  have short : (copied text_in).length ≤ bigInfoString - 1 := List.length_take_le _ _
  omega

theorem length_copyOf (text_in : CString) : (copyOf text_in).length = bigInfoString := by
  have short := length_copied text_in
  change (copied text_in ++ List.replicate (bigInfoString - (copied text_in).length) nul).length = bigInfoString
  rw [List.length_append, List.length_replicate]
  omega

theorem copyOf_holds (text_in : CString) : Holds (copyOf text_in) 0 (copied text_in) := by
  constructor
  · intro member
    have kept := List.mem_takeWhile_imp (List.mem_of_mem_take member)
    simp at kept
  · obtain ⟨pad, padded⟩ := Nat.exists_eq_add_of_lt (length_copied text_in)
    have spare : bigInfoString - (copied text_in).length = pad + 1 := by omega
    refine ⟨List.replicate pad nul, ?_⟩
    change (copied text_in ++ List.replicate (bigInfoString - (copied text_in).length) nul).drop 0 = _
    rw [List.drop_zero, spare, List.replicate_succ]

theorem skipComment_suffix (text : CString) : skipComment text <:+ text := by
  induction text with
  | nil => exact List.suffix_rfl
  | cons c rest hypothesis =>
    rw [skipComment]
    split
    · exact (List.tail_suffix rest).trans (List.suffix_cons c rest)
    · exact hypothesis.trans (List.suffix_cons c rest)

theorem skipBlanks_suffix (text : CString) : skipBlanks text <:+ text := by
  induction text using YbeProxy.Cmd.skipBlanks.induct with
  | case1 text met =>
    rw [Cmd.skipBlanks_of_nil met]
    exact List.nil_suffix
  | case2 text c rest met slashes =>
    rw [Cmd.skipBlanks_of_cons met, if_pos slashes]
    exact List.nil_suffix
  | case3 text c rest met line block hypothesis =>
    have dropped := List.dropWhile_suffix (l := text) blank
    rw [met] at dropped
    rw [Cmd.skipBlanks_of_cons met, if_neg line, if_pos block]
    exact ((hypothesis.trans (skipComment_suffix rest)).trans (List.suffix_cons c rest)).trans dropped
  | case4 text c rest met line block =>
    have dropped := List.dropWhile_suffix (l := text) blank
    rw [met] at dropped
    rwa [Cmd.skipBlanks_of_cons met, if_neg line, if_neg block]

/-- A word is a part of the text, and there is no quote in it where quotes are honoured. -/
theorem word_parts (ignoreQuotes : Bool) (text : CString) :
    (word ignoreQuotes text).1 ++ (word ignoreQuotes text).2 = text ∧
      (ignoreQuotes = false → '"' ∉ (word ignoreQuotes text).1) := by
  induction text with
  | nil => exact ⟨rfl, fun _ => List.not_mem_nil⟩
  | cons c rest hypothesis =>
    rw [word]
    split
    · exact ⟨rfl, fun _ => List.not_mem_nil⟩
    · rename_i goesOn
      refine ⟨by rw [List.cons_append, hypothesis.1], ?_⟩
      intro honoured member
      rcases List.mem_cons.mp member with rfl | later
      · simp [honoured] at goesOn
      · exact hypothesis.2 honoured later

/-- No two characters at the start of a word open a comment. -/
theorem word_plain (ignoreQuotes : Bool) (text : CString) : Plain (word ignoreQuotes text).1 := by
  induction text with
  | nil => exact ⟨by simp [word], by simp [word], by simp [word]⟩
  | cons c rest hypothesis =>
    rw [word]
    split
    · exact ⟨by simp, by simp, by simp⟩
    · rename_i goesOn
      simp only [Bool.or_eq_true, not_or, Bool.not_eq_true] at goesOn
      obtain ⟨⟨visible, _⟩, plain⟩ := goesOn
      obtain ⟨visibles, line, block⟩ := hypothesis
      have parts := (word_parts ignoreQuotes rest).1
      -- Two characters that are in the longer word only would have stopped it.
      have starts {second : Char} (opens : c = '/' → rest.head? = some second → opensComment (c :: rest) = true)
          (found : ['/', second] <:+: c :: (word ignoreQuotes rest).1) : ['/', second] <:+: (word ignoreQuotes rest).1 := by
        rcases List.infix_cons_iff.mp found with first | later
        · obtain ⟨rfl, after, same⟩ := List.cons_prefix_cons.mp first
          have head : rest.head? = some second := by
            rw [← parts, ← same]
            rfl
          rw [opens rfl head] at plain
          cases plain
        · exact later
      refine ⟨List.forall_mem_cons.mpr ⟨visible, visibles⟩, fun found => line (starts ?_ found),
        fun found => block (starts ?_ found)⟩
      · exact fun slash head => (opensComment_cons c rest).mpr (Or.inl ⟨slash, head⟩)
      · exact fun slash head => (opensComment_cons c rest).mpr (Or.inr ⟨slash, head⟩)

/-- What the tokenizer promises of a token. -/
structure Proper (ignoreQuotes : Bool) (token : Bool × CString) : Prop where
  unquoted : ignoreQuotes = false → '"' ∉ token.2
  plain : token.1 = false → token.2 ≠ [] ∧ Plain token.2
  clean : nul ∉ token.2

theorem taggedFrom_proper (ignoreQuotes : Bool) (room : Nat) {text : CString} (clean : nul ∉ text) :
    ∀ token ∈ taggedFrom ignoreQuotes room text, Proper ignoreQuotes token := by
  induction room generalizing text with
  | zero => simp [taggedFrom]
  | succ room hypothesis =>
    rw [taggedFrom]
    obtain ⟨_, _, starts⟩ := Cmd.length_skipBlanks text
    have suffix := skipBlanks_suffix text
    cases next : skipBlanks text with
    | nil => simp
    | cons c rest =>
      rw [next] at suffix
      obtain ⟨visible, opens⟩ := starts c rest next
      have cleanHere : nul ∉ c :: rest := fun member => clean (suffix.subset member)
      have cleanRest : nul ∉ rest := fun member => cleanHere (List.mem_cons_of_mem c member)
      dsimp only
      cases quote : !ignoreQuotes && decide (c = '"') with
      | true =>
        simp only [if_true, List.forall_mem_cons]
        refine ⟨⟨?_, fun absurdity => Bool.noConfusion absurdity, ?_⟩, hypothesis ?_⟩
        · intro _ member
          have kept := List.mem_takeWhile_imp member
          simp at kept
        · exact fun member => cleanRest (List.takeWhile_subset _ member)
        · exact fun member => cleanRest ((List.dropWhile_suffix _).subset (List.mem_of_mem_tail member))
      | false =>
        obtain ⟨parts, unquoted⟩ := word_parts ignoreQuotes (c :: rest)
        have plain := word_plain ignoreQuotes (c :: rest)
        simp only [Bool.false_eq_true, if_false, List.forall_mem_cons]
        refine ⟨⟨unquoted, fun _ => ⟨?_, plain⟩, ?_⟩, hypothesis ?_⟩
        · rw [word, visible, opens, quote]
          simp
        · exact fun member => absurd (plain.1 nul member) (by decide)
        · intro member
          rw [← parts] at cleanHere
          exact cleanHere (List.mem_append_right _ member)

/-- The text that an entry of `cmd_argv` points to, up to the NUL behind it. -/
def argText (out : Tokenized) (arg : Arg) : CString := (out.written.drop arg.offset).takeWhile (· ≠ nul)

/-- Each entry points to its token in the buffer, with a NUL behind it, and the tokens stand one behind the other. -/
theorem layout_spec {tokens : List (Bool × CString)} (clean : ∀ token ∈ tokens, nul ∉ token.2) (out : Tokenized)
    (before : List Char) (written : out.written = before ++ image tokens) :
    ((layout before.length tokens).map fun arg => (arg.quoted, argText out arg)) = tokens ∧
    (∀ arg ∈ layout before.length tokens, before.length ≤ arg.offset ∧
      out.written[arg.offset + (argText out arg).length]? = some nul) ∧
    (layout before.length tokens).Pairwise fun a b => a.offset + (argText out a).length < b.offset := by
  induction tokens generalizing before with
  | nil => simp [layout]
  | cons token rest hypothesis =>
    obtain ⟨cleanToken, cleanRest⟩ := List.forall_mem_cons.mp clean
    have behind : out.written = (before ++ token.2 ++ [nul]) ++ image rest := by
      rw [written]
      simp [image]
    have start : (before ++ token.2 ++ [nul]).length = before.length + token.2.length + 1 := by
      simp [Nat.add_assoc]
    obtain ⟨texts, later, ordered⟩ := hypothesis cleanRest _ behind
    rw [start] at texts later ordered
    have text : argText out ⟨before.length, token.1⟩ = token.2 := by
      have visible (c : Char) (member : c ∈ token.2) : decide (c ≠ nul) = true := by
        rw [decide_eq_true_eq]
        rintro rfl
        exact cleanToken member
      rw [argText, behind, List.append_assoc, List.append_assoc, List.drop_left' rfl,
        List.takeWhile_append_of_pos visible]
      simp
    have ended : out.written[before.length + token.2.length]? = some nul := by
      rw [behind, List.append_assoc, List.getElem?_append_right (by simp)]
      simp
    refine ⟨?_, ?_, ?_⟩
    · rw [layout, List.map_cons, text, texts]
    · rw [layout, List.forall_mem_cons]
      refine ⟨⟨Nat.le_refl _, by rw [text]; exact ended⟩, ?_⟩
      intro arg member
      obtain ⟨low, closed⟩ := later arg member
      exact ⟨by omega, closed⟩
    · rw [layout, List.pairwise_cons]
      refine ⟨?_, ordered⟩
      intro arg member
      have low := (later arg member).1
      rw [text]
      dsimp only
      omega

theorem length_layout (start : Nat) (tokens : List (Bool × CString)) : (layout start tokens).length = tokens.length := by
  induction tokens generalizing start with
  | nil => rfl
  | cons token rest hypothesis => rw [layout, List.length_cons, List.length_cons, hypothesis]

/-- The tokens and the NULs behind them fit in the text and one byte for each token. -/
theorem length_image (ignoreQuotes : Bool) (room : Nat) (text : CString) :
    (taggedFrom ignoreQuotes room text).length ≤ room ∧
      (image (taggedFrom ignoreQuotes room text)).length ≤ text.length + room := by
  induction room generalizing text with
  | zero => simp [taggedFrom, image]
  | succ room hypothesis =>
    rw [taggedFrom]
    have shorter := (Cmd.length_skipBlanks text).1
    cases next : skipBlanks text with
    | nil => simp [image]
    | cons c rest =>
      rw [next, List.length_cons] at shorter
      dsimp only
      cases quote : !ignoreQuotes && decide (c = '"') with
      | true =>
        obtain ⟨count, size⟩ := hypothesis (rest.dropWhile (· ≠ '"')).tail
        have parts := congrArg List.length (List.takeWhile_append_dropWhile (p := fun x => decide (x ≠ '"')) (l := rest))
        rw [List.length_append] at parts
        rw [List.length_tail] at size
        simp only [image, if_true, List.length_cons, List.flatMap_cons, List.length_append, List.length_nil] at size ⊢
        omega
      | false =>
        obtain ⟨count, size⟩ := hypothesis (word ignoreQuotes (c :: rest)).2
        have parts := Cmd.word_length ignoreQuotes (c :: rest)
        rw [List.length_cons] at parts
        simp only [image, Bool.false_eq_true, if_false, List.length_cons, List.flatMap_cons, List.length_append,
          List.length_nil] at size ⊢
        omega

theorem cmdTokenizeString2_eq (text_in : CString) (ignoreQuotes : Bool) :
    cmdTokenizeString2 (some text_in) ignoreQuotes =
      some ⟨layout 0 (taggedFrom ignoreQuotes maxStringTokens (copied text_in)),
        image (taggedFrom ignoreQuotes maxStringTokens (copied text_in))⟩ := by
  have short := length_copied text_in
  have whole : tokenizedSize = bigInfoString + maxStringTokens := rfl
  have result := tokenize_spec (copyOf text_in) ignoreQuotes maxStringTokens (copyOf_holds text_in) ⟨[], []⟩ (by simp) (by
    rw [List.length_nil]
    omega)
  rwa [List.nil_append, List.nil_append] at result

/-- The tokens in the buffer are those of `Cmd`. -/
theorem map_argText (text_in : CString) (ignoreQuotes : Bool) (clean : nul ∉ text_in) :
    ∃ out, cmdTokenizeString2 (some text_in) ignoreQuotes = some out ∧
      out.argv.map (argText out) = Cmd.cmdTokenizeString2 text_in ignoreQuotes := by
  refine ⟨_, cmdTokenizeString2_eq text_in ignoreQuotes, ?_⟩
  have whole : copied text_in = qStrncpyz text_in bigInfoString := by
    rw [copied, List.takeWhile_eq_self_iff.mpr, qStrncpyz]
    intro c member
    rw [decide_eq_true_eq]
    rintro rfl
    exact clean member
  have proper := taggedFrom_proper ignoreQuotes maxStringTokens (copyOf_holds text_in).clean
  obtain ⟨texts, _⟩ := layout_spec (fun token member => (proper token member).clean)
    ⟨layout 0 (taggedFrom ignoreQuotes maxStringTokens (copied text_in)),
      image (taggedFrom ignoreQuotes maxStringTokens (copied text_in))⟩ [] rfl
  rw [Cmd.cmdTokenizeString2, ← whole, ← map_taggedFrom]
  have words := congrArg (List.map Prod.snd) texts
  rwa [List.map_map] at words

/-- What `Cmd_TokenizeString2` leaves behind: it ends with all its accesses in bounds. -/
theorem tokenizer_stays_inside (text_in : Option CString) (ignoreQuotes : Bool) :
    (∀ text, text_in = some text → (copyOf text).length = bigInfoString) ∧
    ∃ out, cmdTokenizeString2 text_in ignoreQuotes = some out ∧
      out.argv.length ≤ maxStringTokens ∧
      out.written.length ≤ bigInfoString + maxStringTokens ∧
      (∀ arg ∈ out.argv, out.written[arg.offset + (argText out arg).length]? = some nul) ∧
      (out.argv.Pairwise fun a b => a.offset + (argText out a).length < b.offset) ∧
      ∀ arg ∈ out.argv, (ignoreQuotes = false → '"' ∉ argText out arg) ∧
        (arg.quoted = false → argText out arg ≠ [] ∧ Plain (argText out arg)) := by
  refine ⟨fun text _ => length_copyOf text, ?_⟩
  cases text_in with
  | none => exact ⟨⟨[], []⟩, rfl, by simp⟩
  | some text =>
    refine ⟨_, cmdTokenizeString2_eq text ignoreQuotes, ?_⟩
    have short := length_copied text
    have proper := taggedFrom_proper ignoreQuotes maxStringTokens (copyOf_holds text).clean
    obtain ⟨count, room⟩ := length_image ignoreQuotes maxStringTokens (copied text)
    generalize taggedFrom ignoreQuotes maxStringTokens (copied text) = tokens at proper count room ⊢
    obtain ⟨texts, args, ordered⟩ := layout_spec (fun token member => (proper token member).clean)
      ⟨layout 0 tokens, image tokens⟩ [] rfl
    refine ⟨?_, ?_, fun arg member => (args arg member).2, ordered, ?_⟩
    · dsimp only
      rw [length_layout]
      exact count
    · dsimp only
      omega
    · intro arg member
      have listed := List.mem_map_of_mem (f := fun arg => (arg.quoted, argText ⟨layout 0 tokens, image tokens⟩ arg)) member
      have token := proper _ (texts ▸ listed)
      exact ⟨token.unquoted, token.plain⟩

end YbeProxy.TokenizerMemory
