import Mathlib.Data.List.Basic
import Mathlib.Data.List.TakeWhile

/-!
# Key and value text

Text that holds key and value pairs, every key and every value after a
separator (`sep key sep value sep key sep value ...`). A leading separator may
be missing, and a last key without a value is not a pair. `pairs` reads the
pairs from left to right, `removeFirst` takes the text of one pair out, and
the facts below say what each does to the other.
-/

namespace YbeProxy.KeyValueText

variable {α : Type*} [DecidableEq α] (sep : α)

def upTo (s : List α) : List α := s.takeWhile (· ≠ sep)
def fromSep (s : List α) : List α := s.dropWhile (· ≠ sep)
/-- The text without one leading separator. -/
def skip : List α → List α
  | [] => []
  | c :: t => if c = sep then t else c :: t
/-- The text is empty or starts with the separator: a pair can be put in
    front of it without touching its own first key. -/
def Delimited : List α → Prop
  | [] => True
  | c :: _ => c = sep

instance : DecidablePred (Delimited sep)
  | [] => .isTrue trivial
  | c :: _ => inferInstanceAs (Decidable (c = sep))

theorem upTo_append_fromSep (s : List α) : upTo sep s ++ fromSep sep s = s := List.takeWhile_append_dropWhile
theorem not_mem_upTo (s : List α) : sep ∉ upTo sep s := fun member => by
  simpa using List.mem_takeWhile_imp member
theorem delimited_fromSep (s : List α) : Delimited sep (fromSep sep s) := by
  induction s with
  | nil => trivial
  | cons c t ih =>
    by_cases same : c = sep
    · simp [fromSep, same, Delimited]
    · simpa [fromSep, List.dropWhile_cons, same] using ih
theorem length_fromSep_le (s : List α) : (fromSep sep s).length ≤ s.length := (List.dropWhile_suffix _).length_le
theorem length_skip_le (s : List α) : (skip sep s).length ≤ s.length := by
  cases s with
  | nil => rfl
  | cons c t => simp only [skip]; split <;> simp

variable {sep}

omit [DecidableEq α] in
theorem delimited_iff {s : List α} : Delimited sep s ↔ s = [] ∨ ∃ t, s = sep :: t := by
  cases s with
  | nil => simp [Delimited]
  | cons c t => simp [Delimited]
theorem upTo_append {w s : List α} (word : sep ∉ w) (delimited : Delimited sep s) : upTo sep (w ++ s) = w := by
  have all : ∀ c ∈ w, decide (c ≠ sep) = true := fun c member => by
    simpa using ne_of_mem_of_not_mem member word
  rcases delimited_iff.mp delimited with rfl | ⟨t, rfl⟩
  · simpa [upTo, List.takeWhile_eq_self_iff] using all
  · rw [upTo, List.takeWhile_append_of_pos all]
    simp
theorem fromSep_append {w s : List α} (word : sep ∉ w) (delimited : Delimited sep s) :
    fromSep sep (w ++ s) = s := by
  have whole := upTo_append_fromSep sep (w ++ s)
  rw [upTo_append word delimited] at whole
  exact List.append_cancel_left whole
theorem fromSep_eq_nil_iff {s : List α} : fromSep sep s = [] ↔ sep ∉ s := by
  simp only [fromSep, List.dropWhile_eq_nil_iff, decide_eq_true_eq]
  constructor
  · intro all member
    exact all sep member rfl
  · intro word c member
    exact ne_of_mem_of_not_mem member word
theorem fromSep_cons_tail {s : List α} (more : fromSep sep s ≠ []) :
    fromSep sep s = sep :: (fromSep sep s).tail := by
  rcases delimited_iff.mp (delimited_fromSep sep s) with none | ⟨t, split⟩
  · exact absurd none more
  · simp [split]
theorem length_rest_lt (sep : α) {s : List α} (more : fromSep sep s ≠ []) :
    (fromSep sep (fromSep sep s).tail).length < s.length := by
  have bound := length_fromSep_le sep s
  have bound' := length_fromSep_le sep (fromSep sep s).tail
  have positive := List.length_pos_iff.mpr more
  simp only [List.length_tail] at bound'
  omega
theorem skip_sep (s : List α) : skip sep (sep :: s) = s := by simp [skip]
theorem skip_of_not_delimited {s : List α} (open_ : ¬ Delimited sep s) : skip sep s = s := by
  cases s with
  | nil => rfl
  | cons c t => simp_all [skip, Delimited]

/-! ## Pairs -/

variable (sep)

def pairs (s : List α) : List (List α × List α) :=
  let value := (fromSep sep (skip sep s)).tail
  if fromSep sep (skip sep s) = [] then [] else
  (upTo sep (skip sep s), upTo sep value) :: pairs (fromSep sep value)
termination_by s.length
decreasing_by
  exact (length_rest_lt sep ‹_›).trans_le (length_skip_le sep s)

def entry (key value : List α) : List α := sep :: key ++ sep :: value

variable {sep}

theorem pairs_of_none {s : List α} (none : sep ∉ skip sep s) : pairs sep s = [] := by
  rw [pairs, if_pos (fromSep_eq_nil_iff.mpr none)]

/-- The words of a text that starts with a pair, as they are read one after the other. -/
theorem words_of_split {s key value t : List α} (keyWord : sep ∉ key) (valueWord : sep ∉ value)
    (delimited : Delimited sep t) (split : skip sep s = key ++ sep :: (value ++ t)) :
    upTo sep (skip sep s) = key ∧ fromSep sep (skip sep s) = sep :: (value ++ t) ∧
      upTo sep (value ++ t) = value ∧ fromSep sep (value ++ t) = t := by
  rw [split]
  exact ⟨upTo_append keyWord rfl, fromSep_append keyWord rfl, upTo_append valueWord delimited,
    fromSep_append valueWord delimited⟩

theorem pairs_of_split {s key value t : List α} (keyWord : sep ∉ key) (valueWord : sep ∉ value)
    (delimited : Delimited sep t) (split : skip sep s = key ++ sep :: (value ++ t)) :
    pairs sep s = (key, value) :: pairs sep t := by
  obtain ⟨word, rest, valueIs, afterValue⟩ := words_of_split keyWord valueWord delimited split
  rw [pairs, if_neg (by simp [rest]), word, rest, List.tail_cons, valueIs, afterValue]

theorem split_cases (sep : α) (s : List α) : sep ∉ skip sep s ∨ ∃ key value t, sep ∉ key ∧ sep ∉ value ∧ Delimited sep t ∧
    skip sep s = key ++ sep :: (value ++ t) := by
  by_cases none : fromSep sep (skip sep s) = []
  · exact .inl (fromSep_eq_nil_iff.mp none)
  · refine .inr ⟨upTo sep (skip sep s), upTo sep (fromSep sep (skip sep s)).tail,
      fromSep sep (fromSep sep (skip sep s)).tail, not_mem_upTo _ _, not_mem_upTo _ _, delimited_fromSep _ _, ?_⟩
    rw [upTo_append_fromSep, ← fromSep_cons_tail none, upTo_append_fromSep]

/-- The last key, if it has no value. -/
def unpaired (sep : α) (s : List α) : Option (List α) :=
  if fromSep sep (skip sep s) = [] then (if skip sep s = [] then none else some (skip sep s))
  else unpaired sep (fromSep sep (fromSep sep (skip sep s)).tail)
termination_by s.length
decreasing_by
  exact (length_rest_lt sep ‹_›).trans_le (length_skip_le sep s)

theorem unpaired_of_none {s : List α} (none : sep ∉ skip sep s) :
    unpaired sep s = if skip sep s = [] then Option.none else some (skip sep s) := by
  rw [unpaired, if_pos (fromSep_eq_nil_iff.mpr none)]

theorem unpaired_of_split {s key value t : List α} (keyWord : sep ∉ key) (valueWord : sep ∉ value)
    (delimited : Delimited sep t) (split : skip sep s = key ++ sep :: (value ++ t)) : unpaired sep s = unpaired sep t := by
  obtain ⟨_, rest, _, afterValue⟩ := words_of_split keyWord valueWord delimited split
  rw [unpaired, if_neg (by simp [rest]), rest, List.tail_cons, afterValue]

/-- Induction over the pairs of a text. -/
@[elab_as_elim] theorem pairs_induction (sep : α) {motive : List α → Prop} (s : List α)
    (none : ∀ s, sep ∉ skip sep s → motive s)
    (pair : ∀ s key value t, sep ∉ key → sep ∉ value → Delimited sep t →
      skip sep s = key ++ sep :: (value ++ t) → motive t → motive s) : motive s := by
  induction length : s.length using Nat.strong_induction_on generalizing s with
  | _ n ih =>
    rcases split_cases sep s with empty | ⟨key, value, t, keyWord, valueWord, delimited, split⟩
    · exact none s empty
    · have shorter : t.length < n := by
        have bound := length_skip_le sep s
        rw [split] at bound
        simp only [List.length_append, List.length_cons] at bound
        omega
      exact pair s key value t keyWord valueWord delimited split (ih _ shorter t rfl)

theorem pairs_entry {key value t : List α} (keyWord : sep ∉ key) (valueWord : sep ∉ value)
    (delimited : Delimited sep t) : pairs sep (entry sep key value ++ t) = (key, value) :: pairs sep t :=
  pairs_of_split keyWord valueWord delimited (by simp [entry, skip_sep])

/-- Where the text behind a pair does not start with a separator, its start up
    to the first separator joins the value. -/
theorem pairs_entry_joined {key value : List α} (keyWord : sep ∉ key) (valueWord : sep ∉ value) (t : List α) :
    pairs sep (entry sep key value ++ t) = (key, value ++ upTo sep t) :: pairs sep (fromSep sep t) := by
  have whole : entry sep key value ++ t = entry sep key (value ++ upTo sep t) ++ fromSep sep t := by
    simp [entry, upTo_append_fromSep]
  rw [whole]
  refine pairs_entry keyWord ?_ (delimited_fromSep sep t)
  simp [valueWord, not_mem_upTo]

/-! ## Taking one pair out -/

variable (sep)

/-- The text without its first pair whose key passes `p`, the rest as it is. -/
def removeFirst (p : List α → Bool) (s : List α) : List α :=
  let value := (fromSep sep (skip sep s)).tail
  let rest := fromSep sep value
  if fromSep sep (skip sep s) = [] then s
  else if p (upTo sep (skip sep s)) then rest
  else s.take (s.length - rest.length) ++ removeFirst p rest
termination_by s.length
decreasing_by
  exact (length_rest_lt sep ‹_›).trans_le (length_skip_le sep s)

variable {sep} {p : List α → Bool}

theorem removeFirst_of_none {s : List α} (none : sep ∉ skip sep s) : removeFirst sep p s = s := by
  rw [removeFirst, if_pos (fromSep_eq_nil_iff.mpr none)]

theorem front_of_split {s key value t : List α} (keyWord : sep ∉ key)
    (split : skip sep s = key ++ sep :: (value ++ t)) :
    ∃ front, s = front ++ t ∧ front.length + (skip sep s).length = s.length + key.length + value.length + 1 ∧
      (Delimited sep s → front = entry sep key value) ∧
      ∀ t', skip sep (front ++ t') = key ++ sep :: (value ++ t') := by
  by_cases delimited : Delimited sep s
  · rcases delimited_iff.mp delimited with rfl | ⟨u, rfl⟩
    · simp [skip] at split
    · rw [skip_sep] at split
      subst split
      exact ⟨entry sep key value, by simp [entry], by simp [entry, skip_sep]; omega, fun _ => rfl,
        fun t' => by simp [entry, skip_sep]⟩
  · rw [skip_of_not_delimited delimited] at split
    subst split
    refine ⟨key ++ sep :: value, by simp, ?_, ?_, ?_⟩
    · simp [skip_of_not_delimited delimited]; omega
    · intro starts
      exact absurd starts delimited
    · intro t'
      cases key with
      | nil => exact absurd rfl delimited
      | cons c key =>
        have different : c ≠ sep := delimited
        simp [skip, different]

theorem removeFirst_of_hit {s key value t : List α} (keyWord : sep ∉ key) (valueWord : sep ∉ value)
    (delimited : Delimited sep t) (split : skip sep s = key ++ sep :: (value ++ t)) (hit : p key = true) :
    removeFirst sep p s = t := by
  obtain ⟨word, rest, _, afterValue⟩ := words_of_split keyWord valueWord delimited split
  rw [removeFirst, if_neg (by simp [rest]), word, if_pos hit, rest, List.tail_cons, afterValue]

theorem removeFirst_of_miss {s key value t front : List α} (keyWord : sep ∉ key) (valueWord : sep ∉ value)
    (delimited : Delimited sep t) (split : skip sep s = key ++ sep :: (value ++ t)) (miss : p key = false)
    (whole : s = front ++ t) : removeFirst sep p s = front ++ removeFirst sep p t := by
  obtain ⟨word, rest, _, afterValue⟩ := words_of_split keyWord valueWord delimited split
  rw [removeFirst, if_neg (by simp [rest]), word, if_neg (by simp [miss]), rest, List.tail_cons, afterValue]
  simp [whole]

theorem delimited_removeFirst {s : List α} (delimited : Delimited sep s) :
    Delimited sep (removeFirst sep p s) := by
  rcases split_cases sep s with empty | ⟨key, value, t, keyWord, valueWord, rest, split⟩
  · rwa [removeFirst_of_none empty]
  · cases hit : p key with
    | true => rwa [removeFirst_of_hit keyWord valueWord rest split hit]
    | false =>
      obtain ⟨front, whole, _, spelled, _⟩ := front_of_split keyWord split
      rw [removeFirst_of_miss keyWord valueWord rest split hit whole, spelled delimited]
      rfl

theorem pairs_removeFirst (s : List α) : pairs sep (removeFirst sep p s) = (pairs sep s).eraseP (fun e => p e.1) := by
  induction s using pairs_induction sep with
  | none s empty => simp [removeFirst_of_none empty, pairs_of_none empty]
  | pair s key value t keyWord valueWord delimited split ih =>
    rw [pairs_of_split keyWord valueWord delimited split]
    cases hit : p key with
    | true => simp [removeFirst_of_hit keyWord valueWord delimited split hit, hit]
    | false =>
      obtain ⟨front, whole, _, _, again⟩ := front_of_split keyWord split
      rw [removeFirst_of_miss keyWord valueWord delimited split hit whole,
        pairs_of_split keyWord valueWord (delimited_removeFirst delimited) (again _), ih]
      simp [hit]

theorem length_removeFirst_le (s : List α) : (removeFirst sep p s).length ≤ s.length := by
  induction s using pairs_induction sep with
  | none s empty => simp [removeFirst_of_none empty]
  | pair s key value t keyWord valueWord delimited split ih =>
    obtain ⟨front, whole, _, _, _⟩ := front_of_split keyWord split
    cases hit : p key with
    | true =>
      rw [removeFirst_of_hit keyWord valueWord delimited split hit, whole]
      simp
    | false =>
      rw [removeFirst_of_miss keyWord valueWord delimited split hit whole, whole]
      simpa using ih

/-! ## Texts that are nothing but pairs -/

variable (sep)

def render (entries : List (List α × List α)) : List α := entries.flatMap fun e => entry sep e.1 e.2

def Worded (entries : List (List α × List α)) : Prop := ∀ e ∈ entries, sep ∉ e.1 ∧ sep ∉ e.2

variable {sep}

omit [DecidableEq α] in
theorem render_cons (e : List α × List α) (entries : List (List α × List α)) :
    render sep (e :: entries) = entry sep e.1 e.2 ++ render sep entries := List.flatMap_cons

omit [DecidableEq α] in
theorem delimited_render (entries : List (List α × List α)) : Delimited sep (render sep entries) := by
  cases entries with
  | nil => trivial
  | cons e entries => rfl

theorem pairs_render {entries : List (List α × List α)} (worded : Worded sep entries) :
    pairs sep (render sep entries) = entries := by
  induction entries with
  | nil => exact pairs_of_none (by simp [render, skip])
  | cons e entries ih =>
    obtain ⟨keyWord, valueWord⟩ := worded e List.mem_cons_self
    rw [render_cons, pairs_entry keyWord valueWord (delimited_render entries),
      ih fun other member => worded other (List.mem_cons_of_mem e member)]

omit [DecidableEq α] in
theorem Worded.eraseP {entries : List (List α × List α)} (worded : Worded sep entries) (test : List α × List α → Bool) :
    Worded sep (entries.eraseP test) := fun e member => worded e (List.mem_of_mem_eraseP member)

theorem worded_pairs (s : List α) : Worded sep (pairs sep s) := by
  induction s using pairs_induction sep with
  | none s empty =>
    rw [pairs_of_none empty]
    exact nofun
  | pair s key value t keyWord valueWord delimited split ih =>
    rw [pairs_of_split keyWord valueWord delimited split]
    exact List.forall_mem_cons.mpr ⟨⟨keyWord, valueWord⟩, ih⟩

theorem count_entry {key value : List α} (keyWord : sep ∉ key) (valueWord : sep ∉ value) :
    (entry sep key value).count sep = 2 := by
  simp [entry, List.count_eq_zero.mpr keyWord, List.count_eq_zero.mpr valueWord]

/-- A text that starts with a separator and has an even number of them is its pairs, written out. -/
theorem render_pairs {s : List α} (delimited : Delimited sep s) (even : s.count sep % 2 = 0) :
    render sep (pairs sep s) = s := by
  induction s using pairs_induction sep with
  | none s empty =>
    rw [pairs_of_none empty]
    rcases delimited_iff.mp delimited with rfl | ⟨t, rfl⟩
    · rfl
    · rw [skip_sep] at empty
      simp [List.count_eq_zero.mpr empty] at even
  | pair s key value t keyWord valueWord rest split ih =>
    obtain ⟨front, whole, _, spelled, _⟩ := front_of_split keyWord split
    rw [pairs_of_split keyWord valueWord rest split, render_cons, whole, spelled delimited]
    rw [whole, spelled delimited, List.count_append, count_entry keyWord valueWord] at even
    rw [ih rest (by omega)]

theorem removeFirst_render {entries : List (List α × List α)} (worded : Worded sep entries) :
    removeFirst sep p (render sep entries) = render sep (entries.eraseP fun e => p e.1) := by
  induction entries with
  | nil => exact removeFirst_of_none (by simp [render, skip])
  | cons e entries ih =>
    obtain ⟨keyWord, valueWord⟩ := worded e List.mem_cons_self
    have split : skip sep (render sep (e :: entries)) = e.1 ++ sep :: (e.2 ++ render sep entries) := by
      simp [render_cons, entry, skip_sep]
    cases hit : p e.1 with
    | true =>
      rw [removeFirst_of_hit keyWord valueWord (delimited_render entries) split hit,
        List.eraseP_cons_of_pos (by simpa using hit)]
    | false =>
      rw [removeFirst_of_miss keyWord valueWord (delimited_render entries) split hit (render_cons e entries),
        ih fun other member => worded other (List.mem_cons_of_mem e member), List.eraseP_cons_of_neg (by simp [hit]),
        render_cons]

theorem count_render {entries : List (List α × List α)} (worded : Worded sep entries) :
    (render sep entries).count sep = 2 * entries.length := by
  induction entries with
  | nil => rfl
  | cons e entries ih =>
    obtain ⟨keyWord, valueWord⟩ := worded e List.mem_cons_self
    rw [render_cons, List.count_append, count_entry keyWord valueWord,
      ih fun other member => worded other (List.mem_cons_of_mem e member), List.length_cons]
    omega

omit [DecidableEq α] in
/-- Taking a pair out takes its own length away. -/
theorem length_render_eraseP {entries : List (List α × List α)} {test : List α × List α → Bool} {e : List α × List α}
    (found : entries.find? test = some e) :
    (render sep entries).length = (entry sep e.1 e.2).length + (render sep (entries.eraseP test)).length := by
  induction entries with
  | nil => cases found
  | cons first entries ih =>
    cases hit : test first with
    | true =>
      rw [List.find?_cons_of_pos hit, Option.some.injEq] at found
      rw [List.eraseP_cons_of_pos hit, render_cons, List.length_append, found]
    | false =>
      rw [List.find?_cons_of_neg (by simp [hit])] at found
      rw [List.eraseP_cons_of_neg (by simp [hit]), render_cons, render_cons, List.length_append, List.length_append,
        ih found]
      omega

omit [DecidableEq α] in
/-- The last character is a separator when the last value is empty. -/
theorem getLast?_render_append (entries : List (List α × List α)) {key value : List α} (valueWord : sep ∉ value) :
    (render sep (entries ++ [(key, value)])).getLast? = some sep ↔ value = [] := by
  have last : (entry sep key value).getLast? = (sep :: value).getLast? := by simp [entry, List.getLast?_cons]
  rw [render, List.flatMap_append, List.flatMap_singleton, List.getLast?_append, last]
  cases value with
  | nil => simp
  | cons c value =>
    refine ⟨?_, fun empty => by cases empty⟩
    intro same
    have value : (c :: value).getLast? = some sep := by simpa [List.getLast?_cons] using same
    exact absurd (List.mem_of_getLast? value) valueWord

end YbeProxy.KeyValueText
