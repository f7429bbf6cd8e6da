import YbeProxy.Strings
import YbeProxy.KeyValueText

/-!
# Info strings

The info functions of `sdk/qcommon/q_shared.cpp`: the userinfo of a client is
text `\key\value\key\value...`. `Info_ValueForKey` reads a key without case,
`Info_RemoveKey` removes only a key with the same case, and
`Info_SetValueForKey` adds nothing when the result would not fit. Each is
connected to the pairs that `KeyValueText.pairs` reads.
-/

namespace YbeProxy.Infostrings
open YbeProxy.Strings YbeProxy.KeyValueText

/-- `MAX_INFO_STRING`, also the size of `MAX_INFO_KEY` and `MAX_INFO_VALUE`. -/
def maxInfoString : Nat := 1024

/-- The loop of `Info_ValueForKey`, behind the leading backslash. -/
def infoValueForKeyFrom (s key : CString) : CString :=
  let pkey := s.takeWhile (· ≠ '\\')
  let afterKey := s.dropWhile (· ≠ '\\')
  if afterKey = [] then []
  else
    let value := afterKey.tail.takeWhile (· ≠ '\\')
    let afterValue := afterKey.tail.dropWhile (· ≠ '\\')
    if qStricmp key pkey = 0 then value
    else if afterValue = [] then []
    else infoValueForKeyFrom afterValue.tail key
termination_by s.length
decreasing_by
  rename_i more _ _
  have shorter := length_rest_lt '\\' more
  exact (List.tail_sublist _).length_le.trans_lt shorter

def infoValueForKey (s key : CString) : CString :=
  infoValueForKeyFrom (if s.head? = some '\\' then s.tail else s) key

/-- The loop of `Info_RemoveKey`; `s` is the text from `start` on. -/
def infoRemoveKeyFrom (s key : CString) : CString :=
  let t := if s.head? = some '\\' then s.tail else s
  let pkey := t.takeWhile (· ≠ '\\')
  let afterKey := t.dropWhile (· ≠ '\\')
  if afterKey = [] then s
  else
    let afterValue := afterKey.tail.dropWhile (· ≠ '\\')
    if key = pkey then afterValue
    else if afterValue = [] then s
    else s.take (s.length - afterValue.length) ++ infoRemoveKeyFrom afterValue key
termination_by s.length
decreasing_by
  rename_i more _ _
  have shorter := length_rest_lt '\\' more
  have bound : t.length ≤ s.length := by simp only [t]; split <;> simp
  exact shorter.trans_le bound

def infoRemoveKey (s key : CString) : CString := if '\\' ∈ key then s else infoRemoveKeyFrom s key

/-- What `Info_NextPair` leaves: its result, the key, the value and the new head. -/
structure NextPair where
  result : Bool
  key : CString
  value : CString
  head : CString

def infoNextPair (head : CString) : NextPair :=
  let s := if head.head? = some '\\' then head.tail else head
  let key := s.takeWhile (· ≠ '\\')
  let afterKey := s.dropWhile (· ≠ '\\')
  if afterKey = [] then ⟨true, [], [], []⟩
  -- An empty key is invalid, and then `*head` is not moved.
  else if key = [] then ⟨false, [], [], head⟩
  else ⟨true, key, afterKey.tail.takeWhile (· ≠ '\\'), afterKey.tail.dropWhile (· ≠ '\\')⟩

/-- `Info_SetValueForKey`: whether it changed the pair, and the text it leaves. -/
def infoSetValueForKey (s key value : CString) : Bool × CString :=
  if ∃ c ∈ ['\\', ';', '"'], c ∈ key ∨ c ∈ value then (false, s)
  else
    let s := infoRemoveKey s key
    if value = [] then (true, s)
    else
      let newi := comSprintf maxInfoString ('\\' :: key ++ '\\' :: value)
      if newi.length + s.length ≥ maxInfoString then (false, s) else (true, newi ++ s)

/-! ## The pairs of an info string -/

/-- The value of the first pair whose key is the given one without case, or the empty text. -/
def lookup (entries : List (CString × CString)) (key : CString) : CString :=
  ((entries.find? fun e => qStricmp key e.1 = 0).map Prod.snd).getD []

theorem skip_eq (s : CString) : (if s.head? = some '\\' then s.tail else s) = skip '\\' s := by
  cases s with
  | nil => rfl
  | cons c t => by_cases same : c = '\\' <;> simp [skip, same]

theorem words_of_pair {s pkey value t : CString} (keyWord : '\\' ∉ pkey) (valueWord : '\\' ∉ value)
    (delimited : Delimited '\\' t) (split : skip '\\' s = pkey ++ '\\' :: (value ++ t)) :
    (skip '\\' s).takeWhile (· ≠ '\\') = pkey ∧ (skip '\\' s).dropWhile (· ≠ '\\') = '\\' :: (value ++ t) ∧
      (value ++ t).takeWhile (· ≠ '\\') = value ∧ (value ++ t).dropWhile (· ≠ '\\') = t :=
  words_of_split keyWord valueWord delimited split

theorem infoValueForKeyFrom_skip (s key : CString) :
    infoValueForKeyFrom (skip '\\' s) key = lookup (pairs '\\' s) key := by
  induction s using pairs_induction '\\' with
  | none s empty =>
    have none : (skip '\\' s).dropWhile (· ≠ '\\') = [] := fromSep_eq_nil_iff.mpr empty
    rw [infoValueForKeyFrom, pairs_of_none empty]
    simp only [none, ↓reduceIte]
    rfl
  | pair s pkey value t keyWord valueWord delimited split ih =>
    obtain ⟨word, afterKey, valueIs, afterValue⟩ := words_of_pair keyWord valueWord delimited split
    rw [infoValueForKeyFrom, pairs_of_split keyWord valueWord delimited split]
    simp only [afterKey, word, List.tail_cons, afterValue, valueIs, reduceCtorEq, ↓reduceIte]
    by_cases hit : qStricmp key pkey = 0
    · simp [lookup, hit]
    · rw [if_neg hit]
      have rest : lookup ((pkey, value) :: pairs '\\' t) key = lookup (pairs '\\' t) key := by simp [lookup, hit]
      rw [rest]
      rcases delimited_iff.mp delimited with rfl | ⟨u, rfl⟩
      · simp [pairs_of_none, skip, lookup]
      · rw [if_neg (by simp), ← ih, skip_sep, List.tail_cons]

theorem infoValueForKey_eq (s key : CString) : infoValueForKey s key = lookup (pairs '\\' s) key := by
  rw [infoValueForKey, skip_eq, infoValueForKeyFrom_skip]

theorem infoRemoveKeyFrom_eq (s key : CString) :
    infoRemoveKeyFrom s key = removeFirst '\\' (fun pkey => key = pkey) s := by
  induction s using pairs_induction '\\' with
  | none s empty =>
    have none : (skip '\\' s).dropWhile (· ≠ '\\') = [] := fromSep_eq_nil_iff.mpr empty
    rw [infoRemoveKeyFrom, removeFirst_of_none empty]
    simp only [skip_eq, none, ↓reduceIte]
  | pair s pkey value t keyWord valueWord delimited split ih =>
    obtain ⟨word, afterKey, _, afterValue⟩ := words_of_pair keyWord valueWord delimited split
    rw [infoRemoveKeyFrom]
    simp only [skip_eq, afterKey, word, List.tail_cons, afterValue, reduceCtorEq, ↓reduceIte]
    by_cases hit : key = pkey
    · rw [if_pos hit, removeFirst_of_hit keyWord valueWord delimited split (by simpa using hit)]
    · obtain ⟨front, whole, _, _, _⟩ := front_of_split keyWord split
      rw [if_neg hit, removeFirst_of_miss keyWord valueWord delimited split (by simpa using hit) whole, ← ih]
      by_cases last : t = []
      · rw [if_pos last, whole, last, infoRemoveKeyFrom]
        simp
      · rw [if_neg last, whole]
        simp

theorem infoRemoveKey_eq {key : CString} (plain : '\\' ∉ key) (s : CString) :
    infoRemoveKey s key = removeFirst '\\' (fun pkey => key = pkey) s := by
  rw [infoRemoveKey, if_neg plain, infoRemoveKeyFrom_eq]

/-- A pair taken out does not matter to another search. -/
theorem find?_eraseP {α : Type*} {p q : α → Bool} (apart : ∀ e, p e = true → q e = false) (l : List α) :
    (l.eraseP p).find? q = l.find? q := by
  induction l with
  | nil => rfl
  | cons e l ih =>
    cases hit : p e with
    | true => simp [hit, apart e hit]
    | false => simp [hit, List.find?_cons, ih]

/-! ## Reading back -/

/-- Room for the pair in the buffer, once the old one is out. -/
def Room (s key value : CString) : Prop :=
  key.length + value.length + 2 + (infoRemoveKey s key).length < maxInfoString

instance (s key value : CString) : Decidable (Room s key value) := inferInstanceAs (Decidable (_ < _))

/-- Text that `Info_SetValueForKey` accepts as a key or a value. -/
def Plain (w : CString) : Prop := ∀ c ∈ w, c ≠ '\\' ∧ c ≠ ';' ∧ c ≠ '"'

instance (w : CString) : Decidable (Plain w) := inferInstanceAs (Decidable (∀ c ∈ w, _))

theorem Plain.not_mem {w : CString} (plain : Plain w) : '\\' ∉ w := fun member => (plain _ member).1 rfl
theorem not_blacklisted {key value : CString} (keyPlain : Plain key) (valuePlain : Plain value) :
    ¬ ∃ c ∈ ['\\', ';', '"'], c ∈ key ∨ c ∈ value := by
  rintro ⟨c, listed, used⟩
  have plain : c ≠ '\\' ∧ c ≠ ';' ∧ c ≠ '"' := used.elim (keyPlain c) (valuePlain c)
  simp_all

theorem infoSetValueForKey_of_room {s key value : CString} (keyPlain : Plain key) (valuePlain : Plain value)
    (present : value ≠ []) (room : Room s key value) :
    infoSetValueForKey s key value = (true, entry '\\' key value ++ infoRemoveKey s key) := by
  unfold Room at room
  have whole : comSprintf maxInfoString ('\\' :: key ++ '\\' :: value) = entry '\\' key value := by
    refine List.take_of_length_le ?_
    simp only [List.cons_append, List.length_cons, List.length_append]
    omega
  have fits : ¬ (entry '\\' key value).length + (infoRemoveKey s key).length ≥ maxInfoString := by
    simp only [entry, List.cons_append, List.length_cons, List.length_append]
    omega
  rw [infoSetValueForKey, if_neg (not_blacklisted keyPlain valuePlain)]
  simp only [present, whole, fits, ↓reduceIte]

/-- Without room the old pair is gone and nothing is added. -/
theorem infoSetValueForKey_of_full {s key value : CString} (keyPlain : Plain key) (valuePlain : Plain value)
    (present : value ≠ []) (short : key.length + value.length + 2 < maxInfoString) (full : ¬ Room s key value) :
    infoSetValueForKey s key value = (false, infoRemoveKey s key) := by
  unfold Room at full
  have whole : comSprintf maxInfoString ('\\' :: key ++ '\\' :: value) = entry '\\' key value := by
    refine List.take_of_length_le ?_
    simp only [List.cons_append, List.length_cons, List.length_append]
    omega
  have long : (entry '\\' key value).length + (infoRemoveKey s key).length ≥ maxInfoString := by
    simp only [entry, List.cons_append, List.length_cons, List.length_append]
    omega
  rw [infoSetValueForKey, if_neg (not_blacklisted keyPlain valuePlain)]
  simp only [present, whole, long, ↓reduceIte]

theorem length_infoRemoveKey_le (s key : CString) : (infoRemoveKey s key).length ≤ s.length := by
  by_cases slash : '\\' ∈ key
  · rw [infoRemoveKey, if_pos slash]
  · rw [infoRemoveKey_eq slash]; exact length_removeFirst_le s

theorem length_infoSetValueForKey_lt {s : CString} (fits : s.length < maxInfoString) (key value : CString) :
    (infoSetValueForKey s key value).2.length < maxInfoString := by
  have shorter := length_infoRemoveKey_le s key
  unfold infoSetValueForKey
  split
  · exact fits
  · dsimp only
    split
    · exact shorter.trans_lt fits
    · split
      · exact shorter.trans_lt fits
      · rename_i room
        simpa using room

theorem delimited_infoRemoveKey {s : CString} (delimited : Delimited '\\' s) (key : CString) :
    Delimited '\\' (infoRemoveKey s key) := by
  by_cases slash : '\\' ∈ key
  · rwa [infoRemoveKey, if_pos slash]
  · rw [infoRemoveKey_eq slash]; exact delimited_removeFirst delimited

theorem lookup_cons (e : CString × CString) (entries : List (CString × CString)) (key : CString) :
    lookup (e :: entries) key = if qStricmp key e.1 = 0 then e.2 else lookup entries key := by
  by_cases hit : qStricmp key e.1 = 0 <;> simp [lookup, hit]

theorem infoValueForKey_entry {key value t : CString} (keyPlain : Plain key) (valuePlain : Plain value)
    (delimited : Delimited '\\' t) (asked : CString) :
    infoValueForKey (entry '\\' key value ++ t) asked =
      if qStricmp asked key = 0 then value else infoValueForKey t asked := by
  rw [infoValueForKey_eq, pairs_entry keyPlain.not_mem valuePlain.not_mem delimited, lookup_cons,
    infoValueForKey_eq]

/-- Reading a text with a pair put in front of any other: where that one does
    not start with a backslash, its first characters join the value. -/
theorem infoValueForKey_entry_joined {key value : CString} (keyPlain : Plain key) (valuePlain : Plain value)
    (t asked : CString) :
    infoValueForKey (entry '\\' key value ++ t) asked =
      if qStricmp asked key = 0 then value ++ upTo '\\' t else infoValueForKey (fromSep '\\' t) asked := by
  rw [infoValueForKey_eq, pairs_entry_joined keyPlain.not_mem valuePlain.not_mem, lookup_cons, infoValueForKey_eq]

/-- Removing a key leaves the value of every key that differs from it without case. -/
theorem infoValueForKey_infoRemoveKey {key asked : CString} (plain : '\\' ∉ key)
    (apart : qStricmp asked key ≠ 0) (s : CString) :
    infoValueForKey (infoRemoveKey s key) asked = infoValueForKey s asked := by
  rw [infoValueForKey_eq, infoValueForKey_eq, infoRemoveKey_eq plain, pairs_removeFirst, lookup, lookup,
    find?_eraseP]
  intro e hit
  have same : key = e.1 := by simpa using hit
  simp [← same, apart]

theorem infoSetValueForKey_cases (s : CString) {key value : CString} (keyPlain : Plain key)
    (short : key.length + value.length + 2 < maxInfoString) :
    (infoSetValueForKey s key value = (false, s) ∧ ¬ Plain value) ∨
    (infoSetValueForKey s key value = (true, infoRemoveKey s key) ∧ value = []) ∨
    (infoSetValueForKey s key value = (true, entry '\\' key value ++ infoRemoveKey s key) ∧
      Plain value ∧ value ≠ []) ∨
    (infoSetValueForKey s key value = (false, infoRemoveKey s key) ∧ ¬ Room s key value) := by
  by_cases valuePlain : Plain value
  · by_cases present : value = []
    · refine .inr (.inl ⟨?_, present⟩)
      rw [infoSetValueForKey, if_neg (not_blacklisted keyPlain valuePlain)]
      simp [present]
    · by_cases room : Room s key value
      · exact .inr (.inr (.inl ⟨infoSetValueForKey_of_room keyPlain valuePlain present room, valuePlain, present⟩))
      · exact .inr (.inr (.inr ⟨infoSetValueForKey_of_full keyPlain valuePlain present short room, room⟩))
  · refine .inl ⟨?_, valuePlain⟩
    simp only [Plain, not_forall] at valuePlain
    obtain ⟨c, member, bad⟩ := valuePlain
    rw [infoSetValueForKey, if_pos ⟨c, by simp only [List.mem_cons, List.mem_nil_iff]; tauto, .inr member⟩]

theorem delimited_infoSetValueForKey {s : CString} (delimited : Delimited '\\' s) {key value : CString}
    (keyPlain : Plain key) (short : key.length + value.length + 2 < maxInfoString) :
    Delimited '\\' (infoSetValueForKey s key value).2 := by
  have removed := delimited_infoRemoveKey delimited key
  rcases infoSetValueForKey_cases s keyPlain short with ⟨same, _⟩ | ⟨same, _⟩ | ⟨same, _⟩ | ⟨same, _⟩
  · rwa [same]
  · rwa [same]
  · rw [same]; rfl
  · rwa [same]

theorem infoValueForKey_infoSetValueForKey {s : CString} (delimited : Delimited '\\' s) {key value : CString}
    (keyPlain : Plain key) (short : key.length + value.length + 2 < maxInfoString) {asked : CString}
    (apart : qStricmp asked key ≠ 0) :
    infoValueForKey (infoSetValueForKey s key value).2 asked = infoValueForKey s asked := by
  have removed := infoValueForKey_infoRemoveKey keyPlain.not_mem apart s
  rcases infoSetValueForKey_cases s keyPlain short with ⟨same, _⟩ | ⟨same, _⟩ | ⟨same, plain, _⟩ | ⟨same, _⟩
  · rw [same]
  · rw [same, removed]
  · rw [same, infoValueForKey_entry keyPlain plain (delimited_infoRemoveKey delimited key), if_neg apart, removed]
  · rw [same, removed]

theorem qStricmp_key_iff {key : CString} (short : key.length < 99999) (asked : CString) :
    qStricmp asked key = 0 ↔ EqNoCase asked key :=
  (qStricmpn_eq_zero_iff asked key 99999).trans (eqNoCase_take_iff (Or.inr short))

/-- What a write does to the values that are read, for keys in any case. -/
structure SetLaw (s key value : CString) (result : Bool × CString) : Prop where
  written : result.1 = true → result.2.length < maxInfoString ∧ Delimited '\\' result.2 ∧
    ∀ asked, EqNoCase asked key → infoValueForKey result.2 asked = value
  others : ∀ asked, ¬ EqNoCase asked key → infoValueForKey result.2 asked = infoValueForKey s asked

theorem infoSetValueForKey_law {s key value : CString} (fits : s.length < maxInfoString) (delimited : Delimited '\\' s)
    (keyPlain : Plain key) (valuePlain : Plain value) (present : value ≠ [])
    (short : key.length + value.length + 2 < maxInfoString) : SetLaw s key value (infoSetValueForKey s key value) := by
  have few : key.length < 99999 := by
    rw [maxInfoString] at short
    omega
  have others (asked : CString) (apart : ¬ EqNoCase asked key) :
      infoValueForKey (infoSetValueForKey s key value).2 asked = infoValueForKey s asked :=
    infoValueForKey_infoSetValueForKey delimited keyPlain short (mt (qStricmp_key_iff few asked).mp apart)
  refine ⟨?_, others⟩
  intro done
  refine ⟨length_infoSetValueForKey_lt fits key value, delimited_infoSetValueForKey delimited keyPlain short, ?_⟩
  intro asked same
  by_cases room : Room s key value
  · rw [infoSetValueForKey_of_room keyPlain valuePlain present room,
      infoValueForKey_entry keyPlain valuePlain (delimited_infoRemoveKey delimited key),
      if_pos ((qStricmp_key_iff few asked).mpr same)]
  · rw [infoSetValueForKey_of_full keyPlain valuePlain present short room] at done
    cases done

/-- Pairs in two cases, an empty key, an empty value and a last key without a value. -/
def mixedPairs : CString := "\\NAME\\Bob\\\\x\\model\\\\name\\Al\\last".toList

theorem infoSetValueForKey_law_sample :
    SetLaw mixedPairs "name".toList "Cid".toList (infoSetValueForKey mixedPairs "name".toList "Cid".toList) :=
  infoSetValueForKey_law (by decide) (by decide) (by decide) (by decide) (by decide) (by decide)

/-! ## Buffers of an info string -/

/-- The content of a buffer of `MAX_INFO_STRING` characters. -/
structure Infostring where
  text : CString
  fits : text.length < maxInfoString

instance : DecidableEq Infostring := fun a b =>
  decidable_of_iff (a.text = b.text) (by cases a; cases b; simp)

def Infostring.copy (src : CString) : Infostring :=
  ⟨qStrncpyz src maxInfoString, length_qStrncpyz_lt src (by decide)⟩

def Infostring.set (s : Infostring) (key value : CString) : Bool × Infostring :=
  ((infoSetValueForKey s.text key value).1, ⟨(infoSetValueForKey s.text key value).2,
    length_infoSetValueForKey_lt s.fits key value⟩)

end YbeProxy.Infostrings
