import Mathlib.Algebra.Ring.Int.Defs
import Mathlib.Algebra.Ring.Nat
import Mathlib.Data.List.Basic
import Mathlib.Data.List.TakeWhile

/-!
# C strings

The string functions of `sdk/qcommon/q_string.cpp` and the C library functions
they rest on. A string is the list of its characters before the terminating
NUL, and a character is a byte: its code is the byte read as unsigned. Where a
function takes the size of its buffer, so does its definition here.
-/

namespace YbeProxy.Strings

abbrev CString := List Char

-- A test of the characters of a text looks at these. Batteries would try all the characters there are.
instance (p : Char → Prop) [DecidablePred p] (s : CString) : Decidable (∀ c ∈ s, p c) := List.decidableBAll p s
instance (p : Char → Prop) [DecidablePred p] (s : CString) : Decidable (∃ c ∈ s, p c) := List.decidableBEx p s

/-- The byte as the `char` of the compilers of the proxy, which is signed. -/
def signedChar (c : Char) : Int := if c.toNat < 128 then c.toNat else c.toNat - 256

/-! ## Comparison -/

/-- What `Q_stricmpn` and `Q_strncmp` return at two characters that differ. -/
def order (c1 c2 : Char) : Int := if signedChar c1 < signedChar c2 then -1 else 1

def qStricmpn : CString → CString → Nat → Int
  | _, _, 0 => 0
  | [], [], _ + 1 => 0
  | [], c2 :: _, _ + 1 => order '\x00' c2.toUpper
  | c1 :: _, [], _ + 1 => order c1.toUpper '\x00'
  | c1 :: s1, c2 :: s2, n + 1 =>
    if c1 ≠ c2 ∧ c1.toUpper ≠ c2.toUpper then order c1.toUpper c2.toUpper else qStricmpn s1 s2 n

def qStricmp (s1 s2 : CString) : Int := qStricmpn s1 s2 99999

def qStrncmp : CString → CString → Nat → Int
  | _, _, 0 => 0
  | [], [], _ + 1 => 0
  | [], c2 :: _, _ + 1 => order '\x00' c2
  | c1 :: _, [], _ + 1 => order c1 '\x00'
  | c1 :: s1, c2 :: s2, n + 1 => if c1 ≠ c2 then order c1 c2 else qStrncmp s1 s2 n

def EqNoCase (a b : CString) : Prop := a.map Char.toUpper = b.map Char.toUpper

instance (a b : CString) : Decidable (EqNoCase a b) := inferInstanceAs (Decidable (_ = _))

theorem EqNoCase.refl (a : CString) : EqNoCase a a := rfl
theorem EqNoCase.symm {a b : CString} (same : EqNoCase a b) : EqNoCase b a := Eq.symm same
theorem EqNoCase.trans {a b c : CString} (first : EqNoCase a b) (second : EqNoCase b c) : EqNoCase a c :=
  Eq.trans first second
theorem EqNoCase.length_eq {a b : CString} (same : EqNoCase a b) : a.length = b.length := by
  simpa using congrArg List.length same

theorem order_ne_zero (c1 c2 : Char) : order c1 c2 ≠ 0 := by
  unfold order; split <;> decide

theorem qStricmpn_eq_zero_iff (s1 s2 : CString) (n : Nat) :
    qStricmpn s1 s2 n = 0 ↔ EqNoCase (s1.take n) (s2.take n) := by
  induction s1, s2, n using qStricmpn.induct with
  | case1 s1 s2 => simp [qStricmpn, EqNoCase]
  | case2 n => simp [qStricmpn, EqNoCase]
  | case3 c2 s2 n => simp [qStricmpn, EqNoCase, order_ne_zero]
  | case4 c1 s1 n => simp [qStricmpn, EqNoCase, order_ne_zero]
  | case5 c1 s1 c2 s2 n different => simp [qStricmpn, EqNoCase, order_ne_zero, different.1, different.2]
  | case6 c1 s1 c2 s2 n same ih =>
    have upper : c1.toUpper = c2.toUpper := by
      by_contra h
      exact same ⟨fun equal => h (congrArg _ equal), h⟩
    simp only [qStricmpn, if_neg same, ih]
    simp [EqNoCase, upper]

/-- A cut that one of the two texts keeps within changes nothing in the comparison. -/
theorem eqNoCase_take_iff {s1 s2 : CString} {n : Nat} (short : s1.length < n ∨ s2.length < n) :
    EqNoCase (s1.take n) (s2.take n) ↔ EqNoCase s1 s2 := by
  have whole (same : s1.length = s2.length) : s1.take n = s1 ∧ s2.take n = s2 :=
    ⟨List.take_of_length_le (by omega), List.take_of_length_le (by omega)⟩
  constructor
  · intro same
    have bound := same.length_eq
    rw [List.length_take, List.length_take] at bound
    obtain ⟨first, second⟩ := whole (by omega)
    rwa [first, second] at same
  · intro same
    obtain ⟨first, second⟩ := whole same.length_eq
    rwa [first, second]

/-- A short text is compared whole. -/
theorem qStricmp_eq_zero_iff {s1 : CString} (short : s1.length < 99999) (s2 : CString) :
    qStricmp s1 s2 = 0 ↔ EqNoCase s1 s2 :=
  (qStricmpn_eq_zero_iff s1 s2 99999).trans (eqNoCase_take_iff (Or.inl short))

theorem head_of_qStricmp {s1 s2 : CString} (same : qStricmp s1 s2 = 0) :
    s1.head?.map Char.toUpper = s2.head?.map Char.toUpper := by
  rw [qStricmp, qStricmpn_eq_zero_iff] at same
  cases s1 with
  | nil =>
    cases s2 with
    | nil => rfl
    | cons d t => simp [EqNoCase] at same
  | cons c s =>
    cases s2 with
    | nil => simp [EqNoCase] at same
    | cons d t =>
      simp only [EqNoCase, List.take_succ_cons, List.map_cons, List.cons.injEq] at same
      simp [same.1]

theorem eqNoCase_of_qStricmp {s a b : CString} (shortA : a.length < 99999) (shortB : b.length < 99999)
    (first : qStricmp s a = 0) (second : qStricmp s b = 0) : EqNoCase a b := by
  rw [qStricmp, qStricmpn_eq_zero_iff] at first second
  rw [List.take_of_length_le (by omega : a.length ≤ 99999)] at first
  rw [List.take_of_length_le (by omega : b.length ≤ 99999)] at second
  exact first.symm.trans second

theorem qStrncmp_eq_zero_iff (s1 s2 : CString) (n : Nat) : qStrncmp s1 s2 n = 0 ↔ s1.take n = s2.take n := by
  induction s1, s2, n using qStrncmp.induct with
  | case1 s1 s2 => simp [qStrncmp]
  | case2 n => simp [qStrncmp]
  | case3 c2 s2 n => simp [qStrncmp, order_ne_zero]
  | case4 c1 s1 n => simp [qStrncmp, order_ne_zero]
  | case5 c1 s1 c2 s2 n different => simp [qStrncmp, order_ne_zero, different]
  | case6 c1 s1 c2 s2 n same ih => simp [qStrncmp, ih, not_not.mp same]

/-! ## Search -/

/-- The rest of the string from the first character that is in `search` on. -/
def qStrchrs : CString → CString → Option CString
  | [], _ => none
  | c :: s, search => if c ∈ search then some (c :: s) else qStrchrs s search

theorem qStrchrs_eq_none_iff {s search : CString} : qStrchrs s search = none ↔ ∀ c ∈ s, c ∉ search := by
  induction s with
  | nil => simp [qStrchrs]
  | cons c s ih =>
    by_cases found : c ∈ search
    · simp [qStrchrs, found]
    · simp [qStrchrs, found, ih]

/-- A text up to the first character that passes a test. -/
theorem exists_run (p : Char → Bool) (s : CString) :
    ∃ run, (∀ c ∈ run, p c = false) ∧ (s = run ∨ ∃ c rest, s = run ++ c :: rest ∧ p c = true) := by
  induction s with
  | nil => exact ⟨[], List.forall_mem_nil _, Or.inl rfl⟩
  | cons c s hypothesis =>
    by_cases stop : p c = true
    · exact ⟨[], List.forall_mem_nil _, Or.inr ⟨c, s, rfl, stop⟩⟩
    · obtain ⟨run, whole, rest⟩ := hypothesis
      have more : ∀ d ∈ c :: run, p d = false := List.forall_mem_cons.mpr ⟨by simpa using stop, whole⟩
      refine ⟨c :: run, more, ?_⟩
      rcases rest with rfl | ⟨d, rest, rfl, found⟩
      · exact Or.inl rfl
      · exact Or.inr ⟨d, rest, rfl, found⟩

/-- Induction over the runs of a text. -/
theorem runs_induction (p : Char → Bool) {motive : CString → Prop}
    (last : ∀ run, (∀ c ∈ run, p c = false) → motive run)
    (more : ∀ run c rest, (∀ d ∈ run, p d = false) → p c = true → motive rest → motive (run ++ c :: rest))
    (s : CString) : motive s := by
  obtain ⟨n, bound⟩ : ∃ n, s.length ≤ n := ⟨_, Nat.le_refl _⟩
  induction n generalizing s with
  | zero =>
    obtain rfl := List.length_eq_zero_iff.mp (Nat.le_zero.mp bound)
    exact last [] (List.forall_mem_nil _)
  | succ n hypothesis =>
    obtain ⟨run, whole, rfl | ⟨c, rest, rfl, split⟩⟩ := exists_run p s
    · exact last _ whole
    · rw [List.length_append, List.length_cons] at bound
      exact more run c rest whole split (hypothesis rest (by omega))

def strrchr : CString → Char → Option Nat
  | [], _ => none
  | a :: s, c =>
    match strrchr s c with
    | some i => some (i + 1)
    | none => if a = c then some 0 else none

theorem strrchr_eq_none_iff {s : CString} {c : Char} : strrchr s c = none ↔ c ∉ s := by
  induction s with
  | nil => simp [strrchr]
  | cons a s ih =>
    cases found : strrchr s c with
    | some i => simp [strrchr, found, not_imp_comm.mp ih.mpr (by simp [found])]
    | none =>
      have absent := ih.mp found
      by_cases same : a = c
      · simp [strrchr, found, same]
      · simp [strrchr, found, same, absent, Ne.symm same]

theorem strrchr_append {w s : CString} {c : Char} (last : c ∉ s) : strrchr (w ++ c :: s) c = some w.length := by
  induction w with
  | nil => simp [strrchr, strrchr_eq_none_iff.mpr last]
  | cons a w ih => simp [strrchr, ih]

theorem strrchr_eq_some {s : CString} {c : Char} {i : Nat} (found : strrchr s c = some i) :
    ∃ w t, s = w ++ c :: t ∧ c ∉ t ∧ i = w.length := by
  induction s generalizing i with
  | nil => cases found
  | cons a s hypothesis =>
    rw [strrchr] at found
    cases later : strrchr s c with
    | some j =>
      obtain ⟨w, t, split, last, rfl⟩ := hypothesis later
      rw [later] at found
      obtain rfl := Option.some.inj found
      exact ⟨a :: w, t, by rw [split, List.cons_append], last, rfl⟩
    | none =>
      rw [later] at found
      dsimp only at found
      split at found
      · rename_i same
        obtain rfl := Option.some.inj found
        exact ⟨[], s, by rw [same, List.nil_append], strrchr_eq_none_iff.mp later, rfl⟩
      · cases found

/-! ## Copies in a buffer -/

def qStrncpyz (src : CString) (destsize : Nat) : CString := src.take (destsize - 1)

def qStrcat (dest : CString) (size : Nat) (src : CString) : CString :=
  if dest.length ≥ size then dest
  else if src.length + 1 > size - dest.length then dest
  else dest ++ qStrncpyz src (size - dest.length)

/-- `Com_sprintf` and `Q_vsnprintf`: the formatted text, cut to the buffer. -/
def comSprintf (size : Nat) (text : CString) : CString := text.take (size - 1)

theorem length_qStrncpyz_lt (src : CString) {destsize : Nat} (room : 0 < destsize) :
    (qStrncpyz src destsize).length < destsize := by
  rw [qStrncpyz, List.length_take]; omega
theorem qStrncpyz_of_fits {src : CString} {destsize : Nat} (fits : src.length < destsize) :
    qStrncpyz src destsize = src := List.take_of_length_le (by omega)

theorem qStrcat_of_fits {dest src : CString} {size : Nat} (fits : dest.length + src.length < size) :
    qStrcat dest size src = dest ++ src := by
  rw [qStrcat, if_neg (by omega), if_neg (by omega), qStrncpyz_of_fits (by omega)]
theorem qStrcat_of_full {dest src : CString} {size : Nat} (full : size ≤ dest.length + src.length) :
    qStrcat dest size src = dest := by
  rw [qStrcat]
  split
  · rfl
  · rw [if_pos (by omega)]
theorem length_qStrcat_lt {dest : CString} {size : Nat} (src : CString) (fits : dest.length < size) :
    (qStrcat dest size src).length < size := by
  by_cases room : dest.length + src.length < size
  · rw [qStrcat_of_fits room, List.length_append]; exact room
  · rwa [qStrcat_of_full (not_lt.mp room)]

/-! ## Characters and numbers -/

def qIsValidAsciiStr (s : CString) : Bool := s.all fun c => !(signedChar c < 0x20 || signedChar c > 0x7E)

def isDigit (c : Char) : Bool := '0' ≤ c && c ≤ '9'

/-- One pass of `Q_StripColor`: whether a color code was found, and the text without the codes met. -/
def stripColorPass : CString → Bool × CString
  | [] => (false, [])
  | [c] => (false, [c])
  | c :: d :: s =>
    if c = '^' && isDigit d then (true, (stripColorPass s).2)
    else ((stripColorPass (d :: s)).1, c :: (stripColorPass (d :: s)).2)

theorem length_stripColorPass (s : CString) : (stripColorPass s).2.length ≤ s.length ∧
    ((stripColorPass s).1 = true → (stripColorPass s).2.length < s.length) := by
  induction s using stripColorPass.induct with
  | case1 => simp [stripColorPass]
  | case2 c => simp [stripColorPass]
  | case3 c d s code ih => simp [stripColorPass, code]; omega
  | case4 c d s plain ih => simp [stripColorPass, plain] at *; omega

def qStripColor (text : CString) : CString :=
  if (stripColorPass text).1 then qStripColor (stripColorPass text).2 else (stripColorPass text).2
termination_by text.length
decreasing_by exact (length_stripColorPass text).2 ‹_›

/-- The digits of a number as `%i` and `%u` print it. -/
def decimal (n : Nat) : CString := Nat.toDigits 10 n

/-- `%i` of a signed number. -/
def decimalInt (n : Int) : CString := if n < 0 then '-' :: decimal n.natAbs else decimal n.natAbs

def digitValue (c : Char) : Nat := c.toNat - '0'.toNat

/-- `atoi`: blanks, a sign, digits. Where the number does not fit an `int`, the nearest one
    (the behaviour of `strtol` with the 32-bit `long` of the platforms of the proxy). -/
def atoi (s : CString) : Int :=
  let t := s.dropWhile fun c => c = ' ' || (9 ≤ c.toNat && c.toNat ≤ 13)
  let digits := fun u : CString => ((u.takeWhile isDigit).foldl (fun n c => n * 10 + digitValue c) 0 : Nat)
  match t with
  | '-' :: u => max (-2147483648) (-(digits u : Int))
  | '+' :: u => min 2147483647 (digits u : Int)
  | u => min 2147483647 (digits u : Int)

end YbeProxy.Strings
