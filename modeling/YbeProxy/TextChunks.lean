import Mathlib.Data.List.Infix

/-!
# Texts in chunks

A text of lines is cut into chunks: behind a break, at its end, or, in a line that is too long, where the chunk is full.
No line that fits in a chunk is then split between two of them.
-/

namespace YbeProxy.TextChunks

variable {α β : Type} {br : α} {limit : ℕ}

/-- A line of a text behind `before`, its break with it. The last line may have none. -/
structure LineOf (br : α) (text before line after : List α) : Prop where
  split : text = before ++ line ++ after
  nonempty : line ≠ []
  starts : before = [] ∨ [br] <:+ before
  unbroken : br ∉ line.dropLast
  ends : [br] <:+ line ∨ after = []

/-- Where a chunk may end. -/
inductive Cut (br : α) (limit : ℕ) (chunk rest : List α) : Prop
  | behindBreak (ends : [br] <:+ chunk)
  | last (done : rest = [])
  | full (length : chunk.length = limit) (unbroken : br ∉ chunk)

inductive Chunking (br : α) (limit : ℕ) : List α → List (List α) → Prop
  | nil : Chunking br limit [] []
  | cons {chunk rest : List α} {chunks : List (List α)} (nonempty : chunk ≠ []) (fits : chunk.length ≤ limit)
      (cut : Cut br limit chunk rest) (tail : Chunking br limit rest chunks) :
      Chunking br limit (chunk ++ rest) (chunk :: chunks)

/-- The line that comes behind `before` is in one of the parts. -/
def Unsplit (parts : List (List α)) (before line : List α) : Prop :=
  ∃ left part right pre post, parts = left ++ part :: right ∧ part = pre ++ line ++ post ∧ left.flatten ++ pre = before

theorem Unsplit.cons {parts : List (List α)} {before line : List α} (unsplit : Unsplit parts before line)
    (part : List α) : Unsplit (part :: parts) (part ++ before) line := by
  obtain ⟨left, found, right, pre, post, rfl, split, rfl⟩ := unsplit
  exact ⟨part :: left, found, right, pre, post, rfl, split, by rw [List.flatten_cons, List.append_assoc]⟩

theorem Unsplit.map {parts : List (List α)} {before line : List α} (unsplit : Unsplit parts before line) (f : α → β) :
    Unsplit (parts.map (List.map f)) (before.map f) (line.map f) := by
  obtain ⟨left, part, right, pre, post, rfl, rfl, rfl⟩ := unsplit
  refine ⟨left.map (List.map f), (pre ++ line ++ post).map f, right.map (List.map f), pre.map f, post.map f, ?_, ?_, ?_⟩
  · rw [List.map_append, List.map_cons]
  · rw [List.map_append, List.map_append]
  · rw [List.map_append, List.map_flatten]

theorem break_suffix {front back : List α} (ends : [br] <:+ front ++ back) (nonempty : back ≠ []) : [br] <:+ back :=
  List.suffix_of_suffix_length_le ends (List.suffix_append front back) (List.length_pos_iff.mpr nonempty)

theorem LineOf.drop {chunk rest before line after : List α}
    (isLine : LineOf br (chunk ++ rest) (chunk ++ before) line after) : LineOf br rest before line after := by
  obtain ⟨split, nonempty, starts, unbroken, ends⟩ := isLine
  rw [List.append_assoc, List.append_assoc] at split
  refine ⟨?_, nonempty, ?_, unbroken, ends⟩
  · rw [List.append_cancel_left split, List.append_assoc]
  · by_cases first : before = []
    · exact .inl first
    · rcases starts with none | behind
      · exact absurd (List.append_eq_nil_iff.mp none).2 first
      · exact .inr (break_suffix behind first)

/-- No cut comes inside a line that fits in a chunk. -/
theorem Cut.not_inside {before part left rest after : List α} (cut : Cut br limit (before ++ part) rest)
    (isLine : LineOf br (before ++ part ++ rest) before (part ++ left) after) (short : (part ++ left).length ≤ limit)
    (begun : part ≠ []) : left = [] := by
  obtain ⟨split, _, starts, unbroken, _⟩ := isLine
  by_contra more
  cases cut with
  | behindBreak ends =>
    have member : br ∈ part := (break_suffix ends begun).subset List.mem_cons_self
    rw [List.dropLast_append_of_ne_nil more] at unbroken
    exact unbroken (List.mem_append_left _ member)
  | last done =>
    have length := congrArg List.length split
    simp only [done, List.length_append, List.length_nil] at length
    have positive := List.length_pos_iff.mpr more
    omega
  | full length unbroken =>
    rcases starts with rfl | ⟨front, rfl⟩
    · have positive := List.length_pos_iff.mpr more
      rw [List.nil_append] at length
      rw [List.length_append] at short
      omega
    · simp at unbroken

/-- A line that fits in a chunk is on one side of a cut. -/
theorem Cut.keeps {chunk rest before line after : List α} (cut : Cut br limit chunk rest)
    (isLine : LineOf br (chunk ++ rest) before line after) (short : line.length ≤ limit) :
    chunk <+: before ∨ before ++ line <+: chunk := by
  have ahead : chunk <+: before ++ line ++ after := ⟨rest, isLine.split⟩
  rcases List.prefix_or_prefix_of_prefix ahead (List.prefix_append (before ++ line) after) with inside | behind
  · rcases List.prefix_or_prefix_of_prefix inside (List.prefix_append before line) with early | ⟨part, rfl⟩
    · exact .inl early
    · obtain ⟨left, rfl⟩ := (List.prefix_append_right_inj before).mp inside
      by_cases begun : part = []
      · exact .inl (by rw [begun, List.append_nil])
      · rw [cut.not_inside isLine short begun, List.append_nil]
        exact .inr (List.prefix_refl _)
  · exact .inr behind

namespace Chunking
variable {text : List α} {chunks : List (List α)} (chunking : Chunking br limit text chunks)
include chunking

theorem flatten_eq : chunks.flatten = text := by
  induction chunking with
  | nil => rfl
  | cons _ _ _ _ hypothesis => rw [List.flatten_cons, hypothesis]

theorem sizes : ∀ chunk ∈ chunks, 1 ≤ chunk.length ∧ chunk.length ≤ limit := by
  induction chunking with
  | nil => simp
  | cons nonempty fits _ _ hypothesis =>
    exact List.forall_mem_cons.mpr ⟨⟨List.length_pos_iff.mpr nonempty, fits⟩, hypothesis⟩

/-- A line that fits in a chunk is in one. -/
theorem unsplit {before line after : List α} (isLine : LineOf br text before line after)
    (short : line.length ≤ limit) : Unsplit chunks before line := by
  induction chunking generalizing before with
  | nil =>
    have empty := isLine.split.symm
    simp only [List.append_eq_nil_iff] at empty
    exact absurd empty.1.2 isLine.nonempty
  | @cons chunk rest chunks nonempty fits cut tail hypothesis =>
    rcases cut.keeps isLine short with ⟨before', rfl⟩ | ⟨post, inside⟩
    · exact (hypothesis isLine.drop).cons chunk
    · exact ⟨[], chunk, chunks, before, post, rfl, inside.symm, rfl⟩

end Chunking

end YbeProxy.TextChunks
