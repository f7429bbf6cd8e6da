import YbeProxy.Strings
import YbeProxy.TextChunks
import YbeProxy.WhileLoop

/-!
# Printing to a client

`PrintToClient` of `Features/Cvars.cpp`: a text goes to a client in prints of whole lines. A copy that would read behind
the text or write behind the chunk has no result.
-/

namespace YbeProxy.PrintToClient
open YbeProxy.Strings YbeProxy.TextChunks YbeProxy.WhileLoop

/-- `sizeof(chunk)`. -/
def chunkSize : ℕ := 1000

def maxVaString : ℕ := 32000

def strchr : CString → Char → Option ℕ
  | [], _ => none
  | a :: s, c => if a = c then some 0 else (strchr s c).map (· + 1)

/-- The break counts. -/
def lineLength (line : CString) : ℕ :=
  match strchr line '\n' with
  | some i => i + 1
  | none => line.length

/-- `memcpy(chunk + length, source, n)`, where `length` is how much of the chunk is in use. -/
def memcpy (chunk source : CString) (n : ℕ) : Option CString :=
  if n ≤ source.length ∧ chunk.length + n ≤ chunkSize then some (chunk ++ source.take n) else none

/-- The chunk, up to `length`, and what is left of the text. -/
structure Filling where
  chunk : CString
  line : CString
  broke : Bool

def fillTurn (s : Filling) : Option Filling :=
  if chunkSize ≤ s.chunk.length + lineLength s.line then some { s with broke := true }
  else
    (memcpy s.chunk s.line (lineLength s.line)).map fun chunk => { s with chunk, line := s.line.drop (lineLength s.line) }

/-- The inner loop. -/
def fill (fuel : ℕ) (text : CString) : Option Filling :=
  loop (fun s => !s.broke && decide (s.line ≠ [])) (fun _ s => fillTurn s) fuel ⟨[], text, false⟩

/-- A line longer than a chunk is cut. -/
def cutLine (text : CString) (s : Filling) : Option Filling :=
  if s.chunk.length = 0 then
    (memcpy [] text (chunkSize - 1)).map fun chunk => { s with chunk, line := text.drop (chunkSize - 1) }
  else some s

def singleQuote (c : Char) : Char := if c = '"' then '\'' else c

/-- `va("print \"%s\"", chunk)`. -/
def printCommand (chunk : CString) : CString := comSprintf maxVaString ("print \"".toList ++ chunk ++ ['"'])

structure Printing where
  text : CString
  sent : List (Int32 × CString)

/-- A turn of the outer loop. The `'\0'` goes in the chunk too. -/
def printTurn (clientNum : Int32) (fuel : ℕ) (s : Printing) : Option Printing :=
  (fill fuel s.text).bind fun filled => (cutLine s.text filled).bind fun filled =>
    if filled.chunk.length < chunkSize then
      some { text := filled.line, sent := s.sent ++ [(clientNum, printCommand (filled.chunk.map singleQuote))] }
    else none

/-- What is sent with `SendServerCommand`. -/
def printToClient (clientNum : Int32) (fuel : ℕ) (text : CString) : Option (List (Int32 × CString)) :=
  (loop (fun s => decide (s.text ≠ [])) (printTurn clientNum) fuel ⟨text, []⟩).map Printing.sent

/-! ## Lines -/

theorem strchr_cases (s : CString) (c : Char) :
    (∃ body rest, s = body ++ c :: rest ∧ c ∉ body ∧ strchr s c = some body.length) ∨ c ∉ s ∧ strchr s c = none := by
  induction s with
  | nil => exact .inr ⟨List.not_mem_nil, rfl⟩
  | cons a s hypothesis =>
    by_cases here : a = c
    · exact .inl ⟨[], s, by rw [here]; rfl, List.not_mem_nil, if_pos here⟩
    · have other : c ≠ a := fun same => here same.symm
      rcases hypothesis with ⟨body, rest, rfl, absent, found⟩ | ⟨absent, none⟩
      · exact .inl ⟨a :: body, rest, rfl, List.not_mem_cons_of_ne_of_not_mem other absent, by simp [strchr, here, found]⟩
      · exact .inr ⟨List.not_mem_cons_of_ne_of_not_mem other absent, by simp [strchr, here, none]⟩

/-- A text begins with a line that has its break only at its end, or at none. -/
theorem lineLength_cases (line : CString) :
    (∃ body rest, line = body ++ '\n' :: rest ∧ '\n' ∉ body ∧ lineLength line = body.length + 1) ∨
      '\n' ∉ line ∧ lineLength line = line.length := by
  unfold lineLength
  rcases strchr_cases line '\n' with ⟨body, rest, split, absent, found⟩ | ⟨absent, none⟩
  · exact .inl ⟨body, rest, split, absent, by rw [found]⟩
  · exact .inr ⟨absent, by rw [none]⟩

theorem lineLength_le (line : CString) : lineLength line ≤ line.length := by
  rcases lineLength_cases line with ⟨body, rest, rfl, _, length⟩ | ⟨_, length⟩
  · rw [length, List.length_append, List.length_cons]
    omega
  · exact length.le

theorem lineLength_pos {line : CString} (more : line ≠ []) : 0 < lineLength line := by
  rcases lineLength_cases line with ⟨body, rest, _, _, length⟩ | ⟨_, length⟩
  · omega
  · rw [length]
    exact List.length_pos_iff.mpr more

/-- A whole line ends behind its break or with the text. -/
theorem lineLength_ends (line : CString) : ['\n'] <:+ line.take (lineLength line) ∨ line.drop (lineLength line) = [] := by
  rcases lineLength_cases line with ⟨body, rest, rfl, _, length⟩ | ⟨_, length⟩
  · have size : lineLength (body ++ '\n' :: rest) = (body ++ ['\n']).length := by simp [length]
    rw [size, List.append_cons body '\n' rest, List.take_left]
    exact .inl (List.suffix_append body ['\n'])
  · rw [length, List.drop_length]
    exact .inr rfl

theorem unbroken_take {line : CString} {n : ℕ} (inside : n < lineLength line) : '\n' ∉ line.take n := by
  rcases lineLength_cases line with ⟨body, rest, rfl, absent, length⟩ | ⟨absent, _⟩
  · rw [List.take_append_of_le_length (by omega)]
    exact fun member => absent (List.mem_of_mem_take member)
  · exact fun member => absent (List.mem_of_mem_take member)

/-! ## A chunk -/

/-- What the inner loop keeps: a chunk of whole lines, with what is left behind it. -/
structure Filled (text : CString) (s : Filling) : Prop where
  split : text = s.chunk ++ s.line
  fits : s.chunk.length < chunkSize
  whole : s.chunk = [] ∨ ['\n'] <:+ s.chunk ∨ s.line = []
  broke : s.broke = true → s.line ≠ [] ∧ chunkSize ≤ s.chunk.length + lineLength s.line

theorem fillTurn_filled {text : CString} {s : Filling} (filled : Filled text s) (more : s.line ≠ []) :
    ∃ next, fillTurn s = some next ∧ Filled text next ∧
      (next.broke = true ∨ next.broke = s.broke ∧ next.line.length < s.line.length) := by
  obtain ⟨split, fits, whole, broke⟩ := filled
  by_cases full : chunkSize ≤ s.chunk.length + lineLength s.line
  · exact ⟨_, if_pos full, ⟨split, fits, whole, fun _ => ⟨more, full⟩⟩, .inl rfl⟩
  · have size : lineLength s.line ≤ s.line.length := lineLength_le s.line
    have positive := lineLength_pos more
    have copied : memcpy s.chunk s.line (lineLength s.line) = some (s.chunk ++ s.line.take (lineLength s.line)) :=
      if_pos ⟨size, by omega⟩
    refine ⟨⟨s.chunk ++ s.line.take (lineLength s.line), s.line.drop (lineLength s.line), s.broke⟩, ?_, ⟨?_, ?_, ?_, ?_⟩,
      .inr ⟨rfl, ?_⟩⟩
    · rw [fillTurn, if_neg full, copied]
      rfl
    · rw [List.append_assoc, List.take_append_drop, split]
    · change (s.chunk ++ s.line.take (lineLength s.line)).length < chunkSize
      rw [List.length_append, List.length_take_of_le size]
      omega
    · rcases lineLength_ends s.line with ends | done
      · exact .inr (.inl (ends.trans (List.suffix_append _ _)))
      · exact .inr (.inr done)
    · intro stopped
      exact absurd (broke stopped).2 full
    · change (s.line.drop (lineLength s.line)).length < s.line.length
      rw [List.length_drop]
      omega

theorem fill_ends (text : CString) : ∃ filled, Ends (fun fuel => fill fuel text) filled ∧ Filled text filled ∧
    (filled.broke = true ∨ filled.line = []) := by
  let measure (s : Filling) : ℕ := if s.broke then 0 else s.line.length + 1
  have turn (s : Filling) (filled : Filled text s) (more : (!s.broke && decide (s.line ≠ [])) = true) :
      ∃ next, Ends (fun _ => fillTurn s) next ∧ Filled text next ∧ measure next < measure s := by
    simp only [Bool.and_eq_true, Bool.not_eq_true', decide_eq_true_eq] at more
    obtain ⟨next, run, kept, progress⟩ := fillTurn_filled filled more.2
    refine ⟨next, by rw [run]; exact .pure next, kept, ?_⟩
    rcases progress with stopped | ⟨same, shorter⟩
    · simp [measure, stopped, more.1]
    · simpa [measure, same, more.1] using shorter
  obtain ⟨filled, ends, kept, done⟩ := loop_ends (Filled text) measure turn ⟨[], text, false⟩
    ⟨rfl, (by decide : 0 < chunkSize), .inl rfl, by rintro ⟨⟩⟩
  refine ⟨filled, ends, kept, ?_⟩
  by_cases stopped : filled.broke = true
  · exact .inl stopped
  · simpa [stopped] using done

/-- A chunk is cut behind a break, at the end of the text or in a line that is too long. -/
theorem cutLine_cut {text : CString} (nonempty : text ≠ []) {s : Filling} (filled : Filled text s)
    (done : s.broke = true ∨ s.line = []) :
    ∃ chunk rest broke, cutLine text s = some ⟨chunk, rest, broke⟩ ∧ text = chunk ++ rest ∧ chunk ≠ [] ∧
      chunk.length ≤ 999 ∧ Cut '\n' 999 chunk rest := by
  obtain ⟨split, fits, whole, broke⟩ := filled
  have size : chunkSize = 1000 := rfl
  by_cases none : s.chunk = []
  · rw [none, List.nil_append] at split
    have stopped : s.broke = true := by
      rcases done with stopped | ended
      · exact stopped
      · exact absurd (split.trans ended) nonempty
    have long := (broke stopped).2
    rw [none, List.length_nil, ← split] at long
    have room := lineLength_le text
    have length : (text.take 999).length = 999 := List.length_take_of_le (by omega)
    have copied : memcpy [] text (chunkSize - 1) = some (text.take 999) := if_pos ⟨by omega, by decide⟩
    refine ⟨text.take 999, text.drop 999, s.broke, ?_, (List.take_append_drop 999 text).symm, ?_, length.le, ?_⟩
    · rw [cutLine, if_pos (by rw [none]; rfl), copied]
      rfl
    · intro empty
      rw [empty] at length
      cases length
    · exact .full length (unbroken_take (by omega))
  · refine ⟨s.chunk, s.line, s.broke, if_neg ?_, split, none, by omega, ?_⟩
    · exact mt List.length_eq_zero_iff.mp none
    · rcases whole with empty | ends | ended
      · exact absurd empty none
      · exact .behindBreak ends
      · exact .last ended

/-! ## A whole text -/

theorem printCommand_of_short {chunk : CString} (short : chunk.length ≤ 999) :
    printCommand chunk = "print \"".toList ++ chunk ++ ['"'] := by
  have size : ("print \"".toList ++ chunk ++ ['"']).length = 7 + chunk.length + 1 := by simp; omega
  exact List.take_of_length_le (by rw [size, maxVaString]; omega)

/-- What a chunk is sent as. -/
def sent (clientNum : Int32) (chunk : CString) : Int32 × CString :=
  (clientNum, "print \"".toList ++ chunk.map singleQuote ++ ['"'])

theorem printTurn_ends (clientNum : Int32) {s : Printing} (more : s.text ≠ []) :
    ∃ chunk rest, Ends (fun fuel => printTurn clientNum fuel s) ⟨rest, s.sent ++ [sent clientNum chunk]⟩ ∧
      s.text = chunk ++ rest ∧ chunk ≠ [] ∧ chunk.length ≤ 999 ∧ Cut '\n' 999 chunk rest := by
  obtain ⟨filled, ends, kept, done⟩ := fill_ends s.text
  obtain ⟨chunk, rest, broke, run, split, nonempty, short, cut⟩ := cutLine_cut more kept done
  refine ⟨chunk, rest, ends.bind ?_, split, nonempty, short, cut⟩
  have room : chunk.length < chunkSize := Nat.lt_of_le_of_lt short (by decide)
  have command := @printCommand_of_short (chunk.map singleQuote) (by rwa [List.length_map])
  simp only [run, Option.bind_some, if_pos room, command]
  exact .pure _

theorem printToClient_chunking (clientNum : Int32) (text : CString) : ∃ chunks, Chunking '\n' 999 text chunks ∧
    Ends (fun fuel => printToClient clientNum fuel text) (chunks.map (sent clientNum)) := by
  -- Where the rest is cut in chunks, the whole text is.
  let Inv (s : Printing) : Prop := ∃ chunks, s.sent = chunks.map (sent clientNum) ∧
    ∀ tail, Chunking '\n' 999 s.text tail → Chunking '\n' 999 text (chunks ++ tail)
  have turn (s : Printing) (kept : Inv s) (more : decide (s.text ≠ []) = true) :
      ∃ next, Ends (fun fuel => printTurn clientNum fuel s) next ∧ Inv next ∧ next.text.length < s.text.length := by
    obtain ⟨chunks, sends, chunking⟩ := kept
    obtain ⟨chunk, rest, ends, split, nonempty, short, cut⟩ := printTurn_ends clientNum (of_decide_eq_true more)
    refine ⟨_, ends, ⟨chunks ++ [chunk], ?_, ?_⟩, ?_⟩
    · rw [List.map_append, ← sends]
      rfl
    · intro tail cutRest
      rw [List.append_assoc]
      refine chunking _ ?_
      rw [split]
      exact .cons nonempty short cut cutRest
    · have positive := List.length_pos_iff.mpr nonempty
      rw [split, List.length_append]
      change rest.length < _
      omega
  obtain ⟨result, ends, ⟨chunks, sends, chunking⟩, done⟩ := loop_ends Inv _ turn ⟨text, []⟩ ⟨[], rfl, fun _ => id⟩
  have empty : result.text = [] := not_not.mp (of_decide_eq_false done)
  have cut := chunking [] (by rw [empty]; exact .nil)
  rw [List.append_nil] at cut
  exact ⟨chunks, cut, sends ▸ ends.map Printing.sent⟩

theorem unquoted_singleQuote (chunk : CString) : '"' ∉ chunk.map singleQuote := by
  intro member
  obtain ⟨c, _, quoted⟩ := List.mem_map.mp member
  unfold singleQuote at quoted
  split at quoted
  · exact absurd quoted (by decide)
  · contradiction

/-- Every text is printed, in chunks that are its own with single quotes, and no line that fits in a chunk is split. -/
theorem printToClient_lossless (clientNum : Int32) (text : CString) :
    ∃ chunks : List CString,
      Ends (fun fuel => printToClient clientNum fuel text)
        (chunks.map fun chunk => (clientNum, "print \"".toList ++ chunk ++ ['"'])) ∧
      (∀ chunk ∈ chunks, 1 ≤ chunk.length ∧ chunk.length ≤ 999 ∧ '"' ∉ chunk) ∧
      chunks.flatten = text.map singleQuote ∧
      ∀ before line after, LineOf '\n' text before line after → line.length ≤ 999 →
        Unsplit chunks (before.map singleQuote) (line.map singleQuote) := by
  obtain ⟨chunks, chunking, ends⟩ := printToClient_chunking clientNum text
  refine ⟨chunks.map (List.map singleQuote), ?_, ?_, ?_, ?_⟩
  · rw [List.map_map]
    exact ends
  · intro chunk member
    obtain ⟨raw, listed, rfl⟩ := List.mem_map.mp member
    obtain ⟨nonempty, short⟩ := chunking.sizes raw listed
    rw [List.length_map]
    exact ⟨nonempty, short, unquoted_singleQuote raw⟩
  · rw [← List.map_flatten, chunking.flatten_eq]
  · intro before line after isLine short
    exact (chunking.unsplit isLine short).map singleQuote

example : printToClient 3 4 "a\n\"b\"".toList = some [(3, "print \"a\n'b'\"".toList)] := by decide

end YbeProxy.PrintToClient
