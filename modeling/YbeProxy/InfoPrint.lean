import YbeProxy.Cmd
import YbeProxy.Infostrings
import YbeProxy.Numerals

/-!
# Printing an info string

`Proxy_Info_Print` of `Engine/Hooks/qcommon/common.cpp`, which `serverinfo`, `systeminfo` and `dumpuser` print with, and
`Proxy_SV_DumpUser_f` of `Engine/Hooks/server/sv_ccmds.cpp`. A character that would be written behind a buffer has no result.
-/

namespace YbeProxy.InfoPrint
open YbeProxy.Strings YbeProxy.KeyValueText YbeProxy.Infostrings
open YbeProxy.Cmd (cmdArgv)
open YbeProxy.Numerals (numeral numeral_lt)

/-- `BIG_INFO_KEY` and `BIG_INFO_VALUE`. -/
def bigInfo : Nat := 8192

/-- The loop `*o++ = *s++`, up to a separator: what is written, and what is left. -/
def copyWord (size : Nat) : CString → CString → Option (CString × CString)
  | written, [] => some (written, [])
  | written, c :: rest =>
    if c = '\\' then some (written, c :: rest)
    else if written.length < size then copyWord size (written ++ [c]) rest
    else none

/-- The `'\0'` is written there. -/
def terminated (size index : Nat) (text : CString) : Option CString := if index < size then some text else none

def keyText (size : Nat) (key : CString) : Option CString :=
  if key.length < 20 then terminated size 20 (key ++ List.replicate (20 - key.length) ' ')
  else terminated size key.length key

theorem copyWord_eq {size : Nat} {written : CString} (fits : written.length ≤ size) (s : CString) :
    copyWord size written s =
      if written.length + (upTo '\\' s).length ≤ size then some (written ++ upTo '\\' s, fromSep '\\' s) else none := by
  induction s generalizing written with
  | nil => simp [copyWord, upTo, fromSep, fits]
  | cons c rest hypothesis =>
    rw [copyWord]
    by_cases same : c = '\\'
    · simp [upTo, fromSep, same, fits]
    · have word : upTo '\\' (c :: rest) = c :: upTo '\\' rest := by simp [upTo, same]
      have after : fromSep '\\' (c :: rest) = fromSep '\\' rest := by simp [fromSep, same]
      rw [if_neg same, word, after, List.length_cons]
      by_cases room : written.length < size
      · have next := @hypothesis (written ++ [c]) (by simpa using Nat.succ_le_of_lt room)
        rw [if_pos room, next]
        simp only [List.length_append, List.length_singleton, List.append_assoc, List.singleton_append]
        congr 2
        rw [Nat.add_assoc, Nat.add_comm 1]
      · rw [if_neg room, if_neg (by omega)]

theorem length_copyWord {size : Nat} {s word rest : CString} (copied : copyWord size [] s = some (word, rest)) :
    rest.length ≤ s.length := by
  rw [copyWord_eq (Nat.zero_le size)] at copied
  split at copied
  · obtain ⟨_, rfl⟩ := Prod.mk.inj (Option.some.inj copied)
    exact length_fromSep_le '\\' s
  · cases copied

def missingValue : CString := "MISSING VALUE\n".toList

def printPairs (size : Nat) (s : CString) : Option (List CString) :=
  if s = [] then some []
  else match _ : copyWord size [] s with
    | none => none
    | some (word, []) => (keyText size word).map fun shown => [shown, missingValue]
    | some (word, _ :: behind) =>
      match _ : copyWord size [] behind with
      | none => none
      | some (text, rest) =>
        (keyText size word).bind fun shown => (terminated size text.length text).bind fun text =>
          (printPairs size rest.tail).map fun printed => shown :: (text ++ ['\n']) :: printed
termination_by s.length
decreasing_by
  have first := length_copyWord ‹copyWord size [] s = _›
  have second := length_copyWord ‹copyWord size [] behind = _›
  rw [List.length_cons] at first
  rw [List.length_tail]
  omega

/-- `Proxy_Info_Print` with buffers of a size: the texts given to `Com_Printf`. -/
def proxyInfoPrint (size : Nat) (s : CString) : Option (List CString) := printPairs size (skip '\\' s)

/-! ## What is printed -/

/-- The key in its column. -/
def column (key : CString) : CString := key ++ List.replicate (20 - key.length) ' '

def texts (s : CString) : List CString :=
  ((pairs '\\' s).flatMap fun pair => [column pair.1, pair.2 ++ ['\n']]) ++
    ((unpaired '\\' s).elim [] fun key => [column key, missingValue])

/-- The keys and the values. -/
def words (s : CString) : List CString :=
  ((pairs '\\' s).flatMap fun pair => [pair.1, pair.2]) ++ (unpaired '\\' s).toList

/-- A turn of the loop. -/
theorem printPairs_turn (size : Nat) {s : CString} (more : s ≠ []) :
    printPairs size s = (copyWord size [] s).bind fun (word, rest) =>
      match rest with
      | [] => (keyText size word).map fun shown => [shown, missingValue]
      | _ :: behind => (copyWord size [] behind).bind fun (value, rest) =>
          (keyText size word).bind fun shown => (terminated size value.length value).bind fun text =>
            (printPairs size rest.tail).map fun printed => shown :: (text ++ ['\n']) :: printed := by
  rw [printPairs, if_neg more]
  split
  · rename_i lost
    rw [lost]
    rfl
  · rename_i found
    rw [found]
    rfl
  · rename_i word c behind found
    rw [found]
    dsimp only [Option.bind_some]
    split
    · rename_i lost
      rw [lost]
      rfl
    · rename_i found
      rw [found]
      rfl

section Large

variable {size : Nat} (large : 20 < size)

include large

theorem keyText_eq (key : CString) : keyText size key = if key.length < size then some (column key) else none := by
  rw [keyText]
  by_cases short : key.length < 20
  · rw [if_pos short, terminated, if_pos large, if_pos (by omega)]
    rfl
  · have whole : column key = key := by simp [column, Nat.sub_eq_zero_of_le (Nat.le_of_not_lt short)]
    rw [if_neg short, terminated, whole]

theorem printPairs_key {key : CString} (nonempty : key ≠ []) (keyWord : '\\' ∉ key) :
    printPairs size key = if key.length < size then some [column key, missingValue] else none := by
  have alone : Delimited '\\' ([] : CString) := trivial
  have whole : upTo '\\' key = key := by simpa using upTo_append keyWord alone
  rw [printPairs_turn size nonempty, copyWord_eq (Nat.zero_le size), whole, fromSep_eq_nil_iff.mpr keyWord,
    List.length_nil, Nat.zero_add, List.nil_append]
  by_cases fits : key.length ≤ size
  · rw [if_pos fits, Option.bind_some]
    dsimp only
    rw [keyText_eq large]
    split <;> rfl
  · rw [if_neg fits, if_neg (by omega)]
    rfl

theorem printPairs_pair {key value t : CString} (keyWord : '\\' ∉ key) (valueWord : '\\' ∉ value)
    (delimited : Delimited '\\' t) :
    printPairs size (key ++ '\\' :: (value ++ t)) =
      if key.length < size ∧ value.length < size then
        (printPairs size t.tail).map fun printed => column key :: (value ++ ['\n']) :: printed
      else none := by
  have starts : Delimited '\\' ('\\' :: (value ++ t)) := delimited_iff.mpr (.inr ⟨_, rfl⟩)
  rw [printPairs_turn size (by simp), copyWord_eq (Nat.zero_le size), upTo_append keyWord starts,
    fromSep_append keyWord starts, List.length_nil, Nat.zero_add, List.nil_append]
  by_cases keyFits : key.length ≤ size
  · rw [if_pos keyFits, Option.bind_some]
    dsimp only
    rw [copyWord_eq (Nat.zero_le size), upTo_append valueWord delimited, fromSep_append valueWord delimited,
      List.length_nil, Nat.zero_add, List.nil_append]
    by_cases valueFits : value.length ≤ size
    · rw [if_pos valueFits, Option.bind_some]
      dsimp only
      rw [keyText_eq large, terminated]
      by_cases keyRoom : key.length < size
      · by_cases valueRoom : value.length < size
        · rw [if_pos keyRoom, if_pos valueRoom, if_pos ⟨keyRoom, valueRoom⟩]
          rfl
        · have full : ¬ (key.length < size ∧ value.length < size) := fun both => valueRoom both.2
          rw [if_pos keyRoom, if_neg valueRoom, if_neg full]
          rfl
      · have full : ¬ (key.length < size ∧ value.length < size) := fun both => keyRoom both.1
        rw [if_neg keyRoom, if_neg full]
        rfl
    · rw [if_neg valueFits, if_neg (by omega)]
      rfl
  · rw [if_neg keyFits, if_neg (by omega)]
    rfl

/-- With a text whose words fit in the buffers, every pair is printed, and a key without a value is told; with any other
text a buffer overflows. -/
theorem proxyInfoPrint_eq (s : CString) :
    proxyInfoPrint size s = if ∀ word ∈ words s, word.length < size then some (texts s) else none := by
  rw [proxyInfoPrint]
  induction s using pairs_induction '\\' with
  | none s nothing =>
    rw [words, texts, pairs_of_none nothing, unpaired_of_none nothing]
    by_cases empty : skip '\\' s = []
    · rw [empty, printPairs]
      simp
    · rw [printPairs_key large empty nothing]
      simp [empty]
  | pair s key value t keyWord valueWord delimited split hypothesis =>
    have behind : t.tail = skip '\\' t := by
      rcases delimited_iff.mp delimited with rfl | ⟨rest, rfl⟩
      · rfl
      · rw [skip_sep, List.tail_cons]
    rw [split, printPairs_pair large keyWord valueWord delimited, behind, hypothesis, words, texts, words, texts,
      pairs_of_split keyWord valueWord delimited split, unpaired_of_split keyWord valueWord delimited split]
    simp only [List.flatMap_cons, List.cons_append, List.nil_append, List.forall_mem_cons]
    by_cases fits : key.length < size ∧ value.length < size
    · rw [if_pos fits]
      simp only [fits.1, fits.2, true_and]
      split <;> rfl
    · rw [if_neg fits, if_neg (fun all => fits ⟨all.1, all.2.1⟩)]

end Large

/-! ## The dumpuser command -/

structure Server where
  comSvRunning : Bool
  svMaxclients : Nat
  /-- The userinfo of a slot that is not free. -/
  clients : Nat → Option Infostring

inductive Dump
  /-- The original command looks for a player of that name. -/
  | original
  | printed (texts : List CString)
  deriving DecidableEq

def heading : List CString := ["userinfo\n".toList, "--------\n".toList]

/-- `Proxy_SV_DumpUser_f`. -/
def proxySvDumpUserF (server : Server) (tokens : List CString) : Option Dump :=
  if server.comSvRunning && tokens.length = 2 then
    let arg := cmdArgv tokens 1
    let behind := arg.dropWhile isDigit
    if behind.length ≠ arg.length ∧ behind = [] ∧ arg.length ≤ 4 ∧ atoi arg < server.svMaxclients then
      match server.clients (atoi arg).toNat with
      | some userinfo => (proxyInfoPrint bigInfo userinfo.text).map fun texts => .printed (heading ++ texts)
      | none => some .original
    else some .original
  else some .original

/-- The command gives the number of a slot that is not free, in at most four digits. -/
structure Handle (server : Server) (tokens : List CString) (n : Nat) (userinfo : Infostring) : Prop where
  running : server.comSvRunning = true
  arguments : tokens.length = 2
  digits : cmdArgv tokens 1 ≠ [] ∧ ∀ c ∈ cmdArgv tokens 1, isDigit c = true
  short : (cmdArgv tokens 1).length ≤ 4
  value : numeral 10 digitValue (cmdArgv tokens 1) = n
  inside : n < server.svMaxclients
  used : server.clients n = some userinfo

theorem atoi_digits {s : CString} (nonempty : s ≠ []) (digits : ∀ c ∈ s, isDigit c = true) (short : s.length ≤ 4) :
    atoi s = numeral 10 digitValue s := by
  have bounds {c : Char} (digit : isDigit c = true) : 48 ≤ c.toNat ∧ c.toNat ≤ 57 := by
    simp only [isDigit, Bool.and_eq_true, decide_eq_true_eq, Char.le_def, UInt32.le_iff_toNat_le] at digit
    exact digit
  have small : numeral 10 digitValue s < 10 ^ s.length := by
    refine numeral_lt fun c member => ?_
    have between := bounds (digits c member)
    have zero : '0'.toNat = 48 := rfl
    rw [digitValue]
    omega
  have size : 10 ^ s.length ≤ 10 ^ 4 := Nat.pow_le_pow_right (by decide) short
  have whole : s.takeWhile isDigit = s := List.takeWhile_eq_self_iff.mpr digits
  obtain ⟨c, rest, rfl⟩ := List.exists_cons_of_ne_nil nonempty
  have first := bounds (digits c List.mem_cons_self)
  have visible : (decide (c = ' ') || decide (9 ≤ c.toNat) && decide (c.toNat ≤ 13)) = false := by
    have blank : c ≠ ' ' := by
      rintro rfl
      exact absurd first.1 (by decide)
    have control : ¬ c.toNat ≤ 13 := by omega
    simp [blank, control]
  have unsigned : c ≠ '-' ∧ c ≠ '+' := by
    constructor <;> (rintro rfl; exact absurd first.1 (by decide))
  rw [atoi, List.dropWhile_cons_of_neg (by rw [visible]; exact Bool.false_ne_true)]
  split
  · rename_i same
    exact absurd (List.cons.inj same).1 unsigned.1
  · rename_i same
    exact absurd (List.cons.inj same).1 unsigned.2
  · simp only [whole]
    change min 2147483647 ((numeral 10 digitValue (c :: rest) : Nat) : Int) = _
    omega

theorem length_word_le {s word : CString} (member : word ∈ words s) : word.length ≤ s.length := by
  induction s using pairs_induction '\\' with
  | none s nothing =>
    rw [words, pairs_of_none nothing, unpaired_of_none nothing] at member
    split at member
    · cases member
    · obtain rfl := List.mem_singleton.mp member
      exact length_skip_le '\\' s
  | pair s key value t keyWord valueWord delimited split hypothesis =>
    have skipped := length_skip_le '\\' s
    rw [split, List.length_append, List.length_cons, List.length_append] at skipped
    rw [words, pairs_of_split keyWord valueWord delimited split, unpaired_of_split keyWord valueWord delimited split,
      List.flatMap_cons, List.append_assoc] at member
    rcases List.mem_append.mp member with here | later
    · simp only [List.mem_cons, List.not_mem_nil, or_false] at here
      rcases here with rfl | rfl <;> omega
    · have shorter := hypothesis later
      omega

theorem proxyInfoPrint_userinfo (userinfo : Infostring) :
    proxyInfoPrint bigInfo userinfo.text = some (texts userinfo.text) := by
  have size : maxInfoString = 1024 ∧ bigInfo = 8192 := ⟨rfl, rfl⟩
  have fits := userinfo.fits
  rw [proxyInfoPrint_eq (by decide), if_pos]
  intro word member
  have short := length_word_le member
  omega

/-- `dumpuser` prints every pair of the userinfo of the slot it is given, inside its buffers; anything but the number of a
slot in use is left to the original command. -/
theorem dumpuser_handles (server : Server) (tokens : List CString) :
    (∀ n userinfo, Handle server tokens n userinfo →
      proxySvDumpUserF server tokens = some (.printed (heading ++ texts userinfo.text))) ∧
    ((∀ n userinfo, ¬ Handle server tokens n userinfo) → proxySvDumpUserF server tokens = some .original) := by
  constructor
  · rintro n userinfo ⟨running, arguments, ⟨nonempty, digits⟩, short, value, inside, used⟩
    have behind : (cmdArgv tokens 1).dropWhile isDigit = [] := List.dropWhile_eq_nil_iff.mpr digits
    have number : atoi (cmdArgv tokens 1) = n := by rw [atoi_digits nonempty digits short, value]
    have moved : ([] : CString).length ≠ (cmdArgv tokens 1).length := fun same =>
      nonempty (List.length_eq_zero_iff.mp same.symm)
    simp only [proxySvDumpUserF]
    rw [if_pos (by simp [running, arguments]), behind, number, if_pos ⟨moved, rfl, short, Int.ofNat_lt.mpr inside⟩,
      Int.toNat_natCast, used]
    simp only [proxyInfoPrint_userinfo, Option.map_some]
  · intro other
    simp only [proxySvDumpUserF]
    split
    · rename_i asked
      simp only [Bool.and_eq_true, decide_eq_true_eq] at asked
      split
      · rename_i numbered
        obtain ⟨moved, behind, short, inside⟩ := numbered
        have digits : ∀ c ∈ cmdArgv tokens 1, isDigit c = true := List.dropWhile_eq_nil_iff.mp behind
        have nonempty : cmdArgv tokens 1 ≠ [] := by
          intro empty
          rw [behind, empty] at moved
          exact moved rfl
        have number := atoi_digits nonempty digits short
        split
        · rename_i userinfo used
          rw [number, Int.toNat_natCast] at used
          rw [number] at inside
          exact absurd ⟨asked.1, asked.2, ⟨nonempty, digits⟩, short, rfl, Int.ofNat_lt.mp inside, used⟩ (other _ userinfo)
        · rfl
      · rfl
    · rfl

def loneInfo : Infostring := .copy "\\name\\Padawan\\rate".toList
def loneClient : Server := ⟨true, 8, fun n => if n = 3 then some loneInfo else none⟩

theorem dumpuser_handles_sample :
    proxySvDumpUserF loneClient ["dumpuser".toList, "03".toList] = some (.printed (heading ++ texts loneInfo.text)) :=
  (dumpuser_handles loneClient ["dumpuser".toList, "03".toList]).1 3 loneInfo
    ⟨rfl, rfl, by decide, by decide, by decide, by decide, rfl⟩

example : (proxyInfoPrint 32 loneInfo.text).map List.flatten =
    some "name                Padawan\nrate                MISSING VALUE\n".toList := by decide +kernel

end YbeProxy.InfoPrint
