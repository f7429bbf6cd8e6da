import Mathlib.Data.List.Infix
import Mathlib.Data.List.TakeWhile

/-!
# Paths

A path is split at its separators. Of its parts, the empty ones and those that stand for the directory itself lead
nowhere: two paths that differ in these only are the same.
-/

namespace YbeProxy.Paths

variable {α : Type} (sep : α → Bool) (here : α)

/-- The parts of a path that lead somewhere. -/
def resolve [DecidableEq α] (path : List α) : List (List α) :=
  (path.splitOnP sep).filter fun part => part ≠ [] ∧ part ≠ [here]

/-- A beginning that leads nowhere. -/
inductive Idle : List α → Prop
  | nil : Idle []
  | empty {c : α} {rest : List α} (separates : sep c = true) (idle : Idle rest) : Idle (c :: rest)
  | here {c : α} {rest : List α} (separates : sep c = true) (idle : Idle rest) : Idle (here :: c :: rest)

variable {sep here}

/-- Induction over the parts of a path. -/
@[elab_as_elim] theorem parts_induction (sep : α → Bool) {motive : List α → Prop} (path : List α)
    (last : ∀ part, (∀ c ∈ part, sep c = false) → motive part)
    (more : ∀ part c rest, (∀ d ∈ part, sep d = false) → sep c = true → motive rest → motive (part ++ c :: rest)) :
    motive path := by
  induction length : path.length using Nat.strong_induction_on generalizing path with
  | _ n hypothesis =>
    have split := List.takeWhile_append_dropWhile (p := fun c => !sep c) (l := path)
    have plain : ∀ c ∈ path.takeWhile (fun c => !sep c), sep c = false := by
      intro c member
      simpa using List.mem_takeWhile_imp member
    cases rest : path.dropWhile (fun c => !sep c) with
    | nil =>
      rw [rest, List.append_nil] at split
      exact last path (split ▸ plain)
    | cons c rest' =>
      have separates : sep c = true := by
        have head := List.head?_dropWhile_not (fun c => !sep c) path
        simpa [rest] using head
      rw [rest] at split
      have shorter : rest'.length < n := by
        rw [← length, ← split, List.length_append, List.length_cons]
        omega
      rw [← split]
      exact more _ c rest' plain separates (hypothesis _ shorter rest' rfl)

theorem resolve_name [DecidableEq α] {name : List α} (plain : ∀ c ∈ name, sep c = false) (nonempty : name ≠ [])
    (moves : name ≠ [here]) : resolve sep here name = [name] := by
  have kept : decide (name ≠ [] ∧ name ≠ [here]) = true := decide_eq_true ⟨nonempty, moves⟩
  rw [resolve, List.splitOnP_eq_singleton plain, List.filter_cons_of_pos (by exact kept), List.filter_nil]

section Ends
variable {suffix : List α} (plain : ∀ c ∈ suffix, sep c = false)
include plain

theorem not_sep_of_append {part : List α} (inside : ∀ c ∈ part, sep c = false) : ∀ c ∈ part ++ suffix, sep c = false :=
  List.forall_mem_append.mpr ⟨inside, plain⟩

/-- The last part of a path has its end. -/
theorem exists_last_part (front : List α) :
    ∃ init stem, (front ++ suffix).splitOnP sep = init ++ [stem ++ suffix] := by
  induction front using parts_induction sep with
  | last part inside => exact ⟨[], part, List.splitOnP_eq_singleton (not_sep_of_append plain inside)⟩
  | more part c rest inside separates hypothesis =>
    obtain ⟨init, stem, split⟩ := hypothesis
    refine ⟨part :: init, stem, ?_⟩
    rw [List.append_assoc, List.cons_append, List.splitOnP_append_cons_of_forall_mem inside c separates, split,
      List.cons_append]

/-- A part that is never in front of a separator is not in a path that ends otherwise. -/
theorem not_mem_parts {part : List α} (other : ¬ suffix <:+ part) (front : List α)
    (guarded : ∀ c, sep c = true → ¬ part ++ [c] <:+: front ++ suffix) : part ∉ (front ++ suffix).splitOnP sep := by
  induction front using parts_induction sep with
  | last front inside =>
    rw [List.splitOnP_eq_singleton (not_sep_of_append plain inside), List.mem_singleton]
    rintro rfl
    exact other (List.suffix_append front suffix)
  | more first c rest inside separates hypothesis =>
    rw [List.append_assoc, List.cons_append] at guarded ⊢
    rw [List.splitOnP_append_cons_of_forall_mem inside c separates, List.mem_cons, not_or]
    constructor
    · rintro rfl
      exact guarded c separates ⟨[], rest ++ suffix, by simp⟩
    · refine hypothesis fun d separates' found => guarded d separates' (found.trans ?_)
      exact ⟨first ++ [c], [], by simp⟩

/-- What a path resolves to ends in its last part. Where there is nothing else, an idle beginning stands before it. -/
theorem resolve_cases [DecidableEq α] (long : 2 ≤ suffix.length) (front : List α) :
    ∃ init base, resolve sep here (front ++ suffix) = init ++ [base] ∧
      (init = [] → ∃ lead, Idle sep here lead ∧ front ++ suffix = lead ++ base) := by
  induction front using parts_induction sep with
  | last part inside =>
    have size : (part ++ suffix).length = part.length + suffix.length := List.length_append
    have nonempty : part ++ suffix ≠ [] := by
      intro empty
      rw [empty, List.length_nil] at size
      omega
    have moves : part ++ suffix ≠ [here] := by
      intro single
      rw [single, List.length_singleton] at size
      omega
    refine ⟨[], part ++ suffix, ?_, fun _ => ⟨[], .nil, rfl⟩⟩
    exact resolve_name (not_sep_of_append plain inside) nonempty moves
  | more part c rest inside separates hypothesis =>
    obtain ⟨init, base, resolved, alone⟩ := hypothesis
    rw [resolve] at resolved
    rw [List.append_assoc, List.cons_append, resolve, List.splitOnP_append_cons_of_forall_mem inside c separates]
    by_cases kept : part ≠ [] ∧ part ≠ [here]
    · refine ⟨part :: init, base, ?_, ?_⟩
      · rw [List.filter_cons_of_pos (by simpa using kept), resolved]
        rfl
      · rintro ⟨⟩
    · refine ⟨init, base, ?_, ?_⟩
      · rw [List.filter_cons_of_neg (by simpa using kept), resolved]
      · intro none
        obtain ⟨lead, idle, split⟩ := alone none
        rw [not_and_or, not_not, not_not] at kept
        rw [split]
        rcases kept with rfl | rfl
        · exact ⟨c :: lead, .empty separates idle, rfl⟩
        · exact ⟨here :: c :: lead, .here separates idle, rfl⟩

/-- What stands in front of a separator ends a part. -/
theorem exists_part_of_infix {path : List α} {c : α} (separates : sep c = true) (found : suffix ++ [c] <:+: path) :
    ∃ part ∈ path.splitOnP sep, suffix <:+ part := by
  obtain ⟨before, after, rfl⟩ := found
  obtain ⟨init, stem, split⟩ := exists_last_part plain before
  have cut : before ++ (suffix ++ [c]) ++ after = before ++ suffix ++ c :: after := by simp
  rw [cut, List.splitOnP_append_cons _ _ separates, split]
  exact ⟨stem ++ suffix, by simp, List.suffix_append stem suffix⟩

end Ends

/-! ## Idle beginnings -/

section Lead
variable {lead : List α} (idle : Idle sep here lead) (path : List α)
include idle

theorem Idle.parts_append : ∃ parts, (lead ++ path).splitOnP sep = parts ++ path.splitOnP sep ∧
    ∀ part ∈ parts, part = [] ∨ part = [here] := by
  induction idle with
  | nil => exact ⟨[], rfl, by simp⟩
  | empty separates _ hypothesis =>
    obtain ⟨parts, split, idle⟩ := hypothesis
    refine ⟨[] :: parts, ?_, by simpa using idle⟩
    rw [List.cons_append, List.splitOnP_cons_eq_if_modifyHead, if_pos separates, split, List.cons_append]
  | @here c rest separates _ hypothesis =>
    obtain ⟨parts, split, idle⟩ := hypothesis
    have cut : here :: c :: rest ++ path = [here] ++ c :: (rest ++ path) := rfl
    have alone : ∀ part ∈ [here].splitOnP sep, part = [] ∨ part = [here] := by
      rw [List.splitOnP_cons_eq_if_modifyHead]
      split <;> simp
    refine ⟨[here].splitOnP sep ++ parts, ?_, List.forall_mem_append.mpr ⟨alone, idle⟩⟩
    rw [cut, List.splitOnP_append_cons _ _ separates, split, List.append_assoc]

theorem Idle.resolve_append [DecidableEq α] : resolve sep here (lead ++ path) = resolve sep here path := by
  obtain ⟨parts, split, nowhere⟩ := idle.parts_append path
  have dropped : (parts.filter fun part => part ≠ [] ∧ part ≠ [here]) = [] := by
    rw [List.filter_eq_nil_iff]
    intro part member kept
    obtain ⟨nonempty, moves⟩ := of_decide_eq_true kept
    exact (nowhere part member).elim nonempty moves
  rw [resolve, split, List.filter_append, dropped, List.nil_append]
  rfl

omit path

theorem Idle.exists_sep (nonempty : lead ≠ []) : ∃ c ∈ lead, sep c = true := by
  cases idle with
  | nil => exact absurd rfl nonempty
  | empty separates _ => exact ⟨_, List.mem_cons_self, separates⟩
  | here separates _ => exact ⟨_, List.mem_cons_of_mem _ List.mem_cons_self, separates⟩

end Lead

end YbeProxy.Paths
