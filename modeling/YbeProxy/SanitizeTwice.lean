import Mathlib.Data.List.Count
import YbeProxy.CleanNames
import YbeProxy.UserinfoWrites

/-!
# Sanitizing twice

The userinfo of a client is sanitized again at the reconnect of each map change. When the second `Sanitize` accepts
what the first one wrote and changes no value that the game reads.
-/

namespace YbeProxy.SanitizeTwice
open YbeProxy.Strings YbeProxy.KeyValueText YbeProxy.Infostrings YbeProxy.Userinfo YbeProxy.CleanNames
open YbeProxy.UserinfoWrites

abbrev Pairs := List (CString × CString)

/-! ## Validation of the pairs -/

/-- The keys in front of the first empty one. -/
def namedKeys (entries : Pairs) : List CString := (entries.map Prod.fst).takeWhile fun key => key ≠ []

theorem pairKeys_eq (s : CString) : pairKeys s = namedKeys (pairs '\\' s) := by
  induction s using pairs_induction '\\' with
  | none s empty =>
    have none : (skip '\\' s).dropWhile (· ≠ '\\') = [] := fromSep_eq_nil_iff.mpr empty
    rw [pairKeys, pairs_of_none empty, if_pos]
    · rfl
    · simp only [infoNextPair, skip_eq, none, if_true]
  | pair s key value t keyWord valueWord delimited split ih =>
    obtain ⟨word, afterKey, _, afterValue⟩ := words_of_pair keyWord valueWord delimited split
    rw [pairs_of_split keyWord valueWord delimited split, pairKeys]
    by_cases empty : key = []
    · rw [if_pos]
      · simp [namedKeys, empty]
      · simp only [infoNextPair, skip_eq, afterKey, word, empty, reduceCtorEq, if_false, if_true]
    · have next : infoNextPair s = ⟨true, key, (value ++ t).takeWhile (· ≠ '\\'), t⟩ := by
        simp only [infoNextPair, skip_eq, afterKey, word, empty, List.tail_cons, afterValue, reduceCtorEq, if_false]
      rw [next, if_neg empty, ih]
      simp [namedKeys, empty]

theorem fieldReason_eq_none_iff (keys : List CString) (field : UserinfoField) :
    fieldReason keys field = none ↔
      (field.minCount ≠ 0 → fieldCount keys field ≠ 0) ∧ fieldCount keys field ≤ field.maxCount := by
  rw [fieldReason]
  split
  · rename_i missing
    refine iff_of_false nofun ?_
    rintro ⟨found, _⟩
    exact found missing.1 missing.2
  · rename_i found
    split
    · rename_i many
      refine iff_of_false nofun ?_
      rintro ⟨_, few⟩
      omega
    · rename_i few
      refine iff_of_true rfl ⟨fun required missing => found ⟨required, missing⟩, by omega⟩

/-- What `Validate` asks of a text. -/
structure Valid (userinfo : CString) : Prop where
  present : userinfo ≠ []
  short : userinfo.length < maxInfoString
  leading : userinfo.head? = some '\\'
  trailing : userinfo.getLast? ≠ some '\\'
  even : userinfo.count '\\' % 2 = 0
  plain : ∀ c ∈ userinfo, c ∉ "\n\r;\"".toList
  fields : ∀ field ∈ userinfoFields, fieldReason (pairKeys userinfo) field = none

theorem validate_iff (userinfo : CString) : validate userinfo = none ↔ Valid userinfo := by
  rw [validate]
  by_cases present : userinfo.length < 1
  · rw [if_pos present]
    refine iff_of_false (Option.some_ne_none _) fun valid => valid.present (List.length_eq_zero_iff.mp (by omega))
  rw [if_neg present]
  by_cases long : userinfo.length ≥ maxInfoString
  · rw [if_pos long]
    exact iff_of_false (Option.some_ne_none _) fun valid => absurd valid.short (Nat.not_lt.mpr long)
  rw [if_neg long]
  by_cases leading : userinfo.head? ≠ some '\\'
  · rw [if_pos leading]
    exact iff_of_false (Option.some_ne_none _) fun valid => leading valid.leading
  rw [if_neg leading]
  by_cases trailing : userinfo.getLast? = some '\\'
  · rw [if_pos trailing]
    exact iff_of_false (Option.some_ne_none _) fun valid => valid.trailing trailing
  rw [if_neg trailing]
  by_cases odd : userinfo.count '\\' % 2 = 1
  · rw [if_pos odd]
    exact iff_of_false (Option.some_ne_none _) fun valid => by have := valid.even; omega
  rw [if_neg odd]
  cases searched : qStrchrs userinfo "\n\r;\"".toList with
  | some found =>
    simp only [Option.isSome_some, if_true]
    refine iff_of_false (Option.some_ne_none _) fun valid => ?_
    rw [qStrchrs_eq_none_iff.mpr valid.plain] at searched
    cases searched
  | none =>
    simp only [Option.isSome_none, Bool.false_eq_true, if_false, List.findSome?_eq_none_iff]
    refine ⟨?_, fun valid => valid.fields⟩
    intro fields
    refine ⟨?_, Nat.not_le.mp long, not_not.mp leading, trailing, by omega, qStrchrs_eq_none_iff.mp searched, fields⟩
    intro empty
    rw [empty] at present
    exact present (by decide)

/-! ## The pairs written -/

/-- The pairs that stay when each key loses its first pair. -/
def remaining (keys : List CString) (entries : Pairs) : Pairs :=
  keys.foldl (fun entries key => entries.eraseP fun e => key = e.1) entries

theorem worded_remaining {entries : Pairs} (worded : Worded '\\' entries) (keys : List CString) :
    Worded '\\' (remaining keys entries) := by
  induction keys generalizing entries with
  | nil => exact worded
  | cons key keys hypothesis => exact hypothesis (worded.eraseP _)

theorem mem_of_mem_remaining {keys : List CString} {entries : Pairs} {e : CString × CString}
    (member : e ∈ remaining keys entries) : e ∈ entries := by
  induction keys generalizing entries with
  | nil => exact member
  | cons key keys hypothesis => exact List.mem_of_mem_eraseP (hypothesis member)

/-- Pairs in front with other keys stay where they are. -/
theorem remaining_append {keys : List CString} {front : Pairs} (apart : ∀ key ∈ keys, ∀ e ∈ front, key ≠ e.1)
    (entries : Pairs) : remaining keys (front ++ entries) = front ++ remaining keys entries := by
  induction keys generalizing entries with
  | nil => rfl
  | cons key keys hypothesis =>
    obtain ⟨here, others⟩ := List.forall_mem_cons.mp apart
    have skipped : (front ++ entries).eraseP (fun e => decide (key = e.1)) =
        front ++ entries.eraseP fun e => decide (key = e.1) := by
      apply List.eraseP_append_right
      intro e member
      simpa using here e member
    rw [remaining, List.foldl_cons, skipped]
    exact hypothesis others _

/-- The text after one write. -/
theorem put_render {before after : Infostring} {entries : Pairs} {key value : CString} (whole : Whole key value)
    (text : before.text = render '\\' entries) (worded : Worded '\\' entries) (done : put before key value = .ok after) :
    Plain value ∧ after.text = render '\\' ((key, value) :: entries.eraseP fun e => key = e.1) := by
  obtain ⟨plain, written⟩ := put_ok whole done
  refine ⟨plain, ?_⟩
  rw [written, infoRemoveKey_eq whole.1.not_mem, text, removeFirst_render worded, render_cons]

/-- The text after all of them: the writes, the last one first, and the pairs that stay. -/
theorem putAll_render {before after : Infostring} {entries writes : Pairs} (whole : ∀ write ∈ writes, Whole write.1 write.2)
    (apart : (writes.map Prod.fst).Nodup) (text : before.text = render '\\' entries) (worded : Worded '\\' entries)
    (done : putAll before writes = .ok after) :
    (∀ write ∈ writes, Plain write.2) ∧
      after.text = render '\\' (writes.reverse ++ remaining (writes.map Prod.fst) entries) := by
  induction writes generalizing before entries with
  | nil =>
    obtain rfl := Except.ok.inj done
    exact ⟨nofun, text⟩
  | cons write writes hypothesis =>
    obtain ⟨wholeFirst, wholeOthers⟩ := List.forall_mem_cons.mp whole
    obtain ⟨new, apart⟩ := List.nodup_cons.mp apart
    obtain ⟨between, first, done⟩ := putAll_cons_ok done
    obtain ⟨plain, written⟩ := put_render wholeFirst text worded first
    have wordedNext : Worded '\\' ((write.1, write.2) :: entries.eraseP fun e => write.1 = e.1) :=
      List.forall_mem_cons.mpr ⟨⟨wholeFirst.1.not_mem, plain.not_mem⟩, worded.eraseP _⟩
    obtain ⟨plains, last⟩ := hypothesis wholeOthers apart written wordedNext done
    refine ⟨List.forall_mem_cons.mpr ⟨plain, plains⟩, ?_⟩
    have other : ∀ key ∈ writes.map Prod.fst, ∀ e ∈ [write], key ≠ e.1 := by
      intro key member e single same
      rw [List.mem_singleton.mp single] at same
      exact new (same ▸ member)
    rw [last, ← List.singleton_append, remaining_append other, List.reverse_cons, List.append_assoc]
    rfl

/-! ## The keys written -/

theorem namedKeys_cons (e : CString × CString) (entries : Pairs) :
    namedKeys (e :: entries) = if e.1 = [] then [] else e.1 :: namedKeys entries := by
  by_cases empty : e.1 = []
  · simp [namedKeys, empty]
  · simp [namedKeys, empty]

theorem namedKeys_append {front : Pairs} (named : ∀ e ∈ front, e.1 ≠ []) (entries : Pairs) :
    namedKeys (front ++ entries) = front.map Prod.fst ++ namedKeys entries := by
  induction front with
  | nil => rfl
  | cons e front hypothesis =>
    obtain ⟨here, others⟩ := List.forall_mem_cons.mp named
    rw [List.cons_append, namedKeys_cons, if_neg here, hypothesis others]
    rfl

theorem namedKeys_eraseP {key : CString} (named : key ≠ []) (entries : Pairs) :
    namedKeys (entries.eraseP fun e => key = e.1) = (namedKeys entries).erase key := by
  induction entries with
  | nil => rfl
  | cons e entries hypothesis =>
    rw [namedKeys_cons]
    by_cases same : key = e.1
    · rw [List.eraseP_cons_of_pos (by simpa using same), if_neg (same ▸ named), ← same, List.erase_cons_head]
    · rw [List.eraseP_cons_of_neg (by simpa using same), namedKeys_cons]
      by_cases empty : e.1 = []
      · rw [if_pos empty, if_pos empty]
        rfl
      · rw [if_neg empty, if_neg empty, hypothesis, List.erase_cons_tail]
        simpa using Ne.symm same

theorem namedKeys_remaining {keys : List CString} (named : ∀ key ∈ keys, key ≠ []) (entries : Pairs) :
    namedKeys (remaining keys entries) = (namedKeys entries).diff keys := by
  induction keys generalizing entries with
  | nil => rfl
  | cons key keys hypothesis =>
    obtain ⟨here, others⟩ := List.forall_mem_cons.mp named
    rw [List.diff_cons, ← namedKeys_eraseP here]
    exact hypothesis others _

/-- The keys that `Sanitize` writes. -/
def rewrittenKeys (env : Environment) (userinfo : CString) : List CString :=
  "name".toList ::
    ((if badModel env (infoValueForKey userinfo "model".toList) then ["model".toList] else []) ++
      ((if (infoValueForKey userinfo "color1".toList).length > 15 then ["color1".toList] else []) ++
        ((if (infoValueForKey userinfo "color2".toList).length > 15 then ["color2".toList] else []) ++
          ["forcepowers".toList])))

theorem writes_keys (env : Environment) (clientNum : Nat) (userinfo : CString) :
    (writes env clientNum userinfo).map Prod.fst = rewrittenKeys env userinfo := by
  have color (colorKey val : CString) :
      (colorWrite colorKey val).map Prod.fst = if val.length > 15 then [colorKey] else [] := by
    rw [colorWrite]
    split <;> rfl
  have model (val : CString) : (modelWrite env val).map Prod.fst = if badModel env val then ["model".toList] else [] := by
    rw [modelWrite]
    split <;> rfl
  rw [writes, List.map_cons, List.map_append, List.map_append, List.map_append, model, color, color]
  rfl

/-- All of them at most. -/
def fiveKeys : List CString :=
  ["name".toList, "model".toList, "color1".toList, "color2".toList, "forcepowers".toList]

theorem rewrittenKeys_sublist (env : Environment) (userinfo : CString) :
    (rewrittenKeys env userinfo).Sublist fiveKeys := by
  have optional (chosen : Prop) [Decidable chosen] (key : CString) : (if chosen then [key] else []).Sublist [key] := by
    split
    · exact List.Sublist.refl _
    · exact List.nil_sublist _
  exact ((optional _ _).append ((optional _ _).append ((optional _ _).append (List.Sublist.refl _)))).cons_cons _

theorem fiveKeys_apart : ∀ key ∈ fiveKeys, ∀ other ∈ fiveKeys, qStricmp key other = 0 → key = other := by decide

theorem rewrittenKeys_nodup (env : Environment) (userinfo : CString) : (rewrittenKeys env userinfo).Nodup :=
  (rewrittenKeys_sublist env userinfo).nodup (by decide)

theorem rewrittenKeys_named (env : Environment) (userinfo : CString) : ∀ key ∈ rewrittenKeys env userinfo, key ≠ [] := by
  have named : ∀ key ∈ fiveKeys, key ≠ [] := by decide
  exact fun key member => named key ((rewrittenKeys_sublist env userinfo).subset member)

/-! ## The second validation -/

/-- Each key that is written is a field that must be there once. -/
theorem field_of_fiveKeys {key : CString} (member : key ∈ fiveKeys) :
    ∃ field ∈ userinfoFields, field.name = key ∧ field.minCount = 1 ∧ field.maxCount = 1 := by
  revert key
  decide

/-- A key written in another case than the one in the userinfo is there twice. -/
theorem fields_again_iff {keys written : List CString} (fields : ∀ field ∈ userinfoFields, fieldReason keys field = none)
    (five : ∀ key ∈ written, key ∈ fiveKeys) (apart : written.Nodup) :
    (∀ field ∈ userinfoFields, fieldReason (written.reverse ++ keys.diff written) field = none) ↔
      ∀ key ∈ written, key ∈ keys := by
  constructor
  · intro again key member
    by_contra absent
    obtain ⟨field, listed, rfl, least, most⟩ := field_of_fiveKeys (five key member)
    obtain ⟨found, _⟩ := (fieldReason_eq_none_iff keys field).mp (fields field listed)
    have few := ((fieldReason_eq_none_iff _ field).mp (again field listed)).2
    obtain ⟨other, otherMember, same⟩ := List.countP_pos_iff.mp (Nat.pos_of_ne_zero (found (by omega)))
    have otherNew : other ∉ written := by
      intro otherWritten
      have equal := fiveKeys_apart other (five other otherWritten) field.name (five _ member) (by simpa using same)
      exact absent (equal ▸ otherMember)
    have first : 0 < fieldCount written.reverse field :=
      List.countP_pos_iff.mpr ⟨field.name, List.mem_reverse.mpr member, by
        have self : ∀ key ∈ fiveKeys, qStricmp key key = 0 := by decide
        simpa using self field.name (five _ member)⟩
    have second : 0 < fieldCount (keys.diff written) field :=
      List.countP_pos_iff.mpr ⟨other, List.mem_diff_of_mem otherMember otherNew, same⟩
    rw [fieldCount, List.countP_append] at few
    rw [fieldCount] at first second
    omega
  · intro spelled field listed
    have same : (written.reverse ++ keys.diff written).Perm keys :=
      ((List.reverse_perm written).append_right _).trans
        (List.subperm_append_diff_self_of_count_le (List.subperm_ext_iff.mp (List.subperm_of_subset apart spelled)))
    have counts : fieldCount (written.reverse ++ keys.diff written) field = fieldCount keys field := same.countP_eq _
    have fine := fields field listed
    rw [fieldReason_eq_none_iff] at fine ⊢
    rwa [counts]

/-- No character that validation looks for. -/
def Clear (s : CString) : Prop := ∀ c ∈ s, c ∉ "\n\r;\"".toList

instance (s : CString) : Decidable (Clear s) := inferInstanceAs (Decidable (∀ c ∈ s, _))

theorem Clear.take {s : CString} (clear : Clear s) (n : Nat) : Clear (s.take n) :=
  fun c member => clear c (List.mem_of_mem_take member)

theorem clear_render_iff {entries : Pairs} :
    Clear (render '\\' entries) ↔ ∀ e ∈ entries, Clear e.1 ∧ Clear e.2 := by
  constructor
  · intro clear e member
    have inside : ∀ c ∈ entry '\\' e.1 e.2, c ∉ "\n\r;\"".toList := fun c found =>
      clear c (List.mem_flatMap.mpr ⟨e, member, found⟩)
    refine ⟨fun c found => inside c ?_, fun c found => inside c ?_⟩
    · simp [entry, found]
    · simp [entry, found]
  · intro clear c member
    obtain ⟨e, listed, found⟩ := List.mem_flatMap.mp member
    obtain ⟨keyClear, valueClear⟩ := clear e listed
    have parts : c = '\\' ∨ c ∈ e.1 ∨ c ∈ e.2 := by simpa [entry, or_assoc, or_left_comm] using found
    rcases parts with rfl | key | value
    · decide
    · exact keyClear c key
    · exact valueClear c value

theorem Valid.render_eq {userinfo : CString} (valid : Valid userinfo) : render '\\' (pairs '\\' userinfo) = userinfo :=
  render_pairs (delimited_of_validate ((validate_iff userinfo).mpr valid)) valid.even

theorem Valid.clear_pairs {userinfo : CString} (valid : Valid userinfo) :
    ∀ e ∈ pairs '\\' userinfo, Clear e.1 ∧ Clear e.2 := by
  apply clear_render_iff.mp
  rw [valid.render_eq]
  exact valid.plain

theorem Valid.clear_value {userinfo : CString} (valid : Valid userinfo) (key : CString) :
    Clear (infoValueForKey userinfo key) := by
  rw [infoValueForKey_eq, lookup]
  cases found : (pairs '\\' userinfo).find? fun e => qStricmp key e.1 = 0 with
  | none => exact fun c member => absurd member List.not_mem_nil
  | some e => exact (valid.clear_pairs e (List.mem_of_find?_eq_some found)).2

theorem clear_writes {userinfo : CString} (valid : Valid userinfo) {env : Environment} {clientNum : Nat}
    (plain : ∀ write ∈ writes env clientNum userinfo, Plain write.2) :
    ∀ write ∈ writes env clientNum userinfo, Clear write.1 ∧ Clear write.2 := by
  have five : ∀ key ∈ fiveKeys, ∀ c ∈ key, c ∉ "\n\r;\"".toList := by decide
  have key : ∀ write ∈ writes env clientNum userinfo, Clear write.1 := by
    intro write member
    apply five
    apply (rewrittenKeys_sublist env userinfo).subset
    rw [← writes_keys env clientNum]
    exact List.mem_map_of_mem member
  have color (colorKey : CString) : ∀ write ∈ colorWrite colorKey (infoValueForKey userinfo colorKey), Clear write.2 := by
    intro write member
    rw [colorWrite] at member
    split at member
    · rw [List.mem_singleton.mp member]
      exact (valid.clear_value colorKey).take 15
    · cases member
  intro write member
  refine ⟨key write member, ?_⟩
  simp only [writes, List.mem_cons, List.mem_append, List.not_mem_nil, or_false] at member
  rcases member with rfl | model | first | second | rfl
  · intro c inside listed
    have keepable := (cleaned_gameName env clientNum (infoValueForKey userinfo "name".toList)).1.keepable c inside
    have kept := plain (_, cleanName env clientNum userinfo) List.mem_cons_self c inside
    have bad : ∀ c ∈ "\n\r;\"".toList, Keepable c → c = ';' ∨ c = '"' := by decide
    exact (bad c listed keepable).elim kept.2.1 kept.2.2
  · rw [modelWrite] at model
    split at model
    · rw [List.mem_singleton.mp model]
      decide
    · cases model
  · exact color _ write first
  · exact color _ write second
  · change Clear (forcePowers (infoValueForKey userinfo "forcepowers".toList))
    simp only [forcePowers]
    split
    · decide
    · exact (valid.clear_value _).take 29

/-- The pairs of the userinfo that `Sanitize` hands over. -/
def writtenPairs (env : Environment) (clientNum : Nat) (userinfo : CString) : Pairs :=
  (writes env clientNum userinfo).reverse ++ remaining (rewrittenKeys env userinfo) (pairs '\\' userinfo)

theorem written_render {env : Environment} {clientNum : Nat} {before after : Infostring} (valid : Valid before.text)
    (done : putAll before (writes env clientNum before.text) = .ok after) :
    (∀ write ∈ writes env clientNum before.text, Plain write.2) ∧
      after.text = render '\\' (writtenPairs env clientNum before.text) ∧
      Worded '\\' (writtenPairs env clientNum before.text) := by
  have whole := whole_writes env clientNum before.text
  have keys := writes_keys env clientNum before.text
  obtain ⟨plain, text⟩ := putAll_render whole (keys ▸ rewrittenKeys_nodup env before.text) valid.render_eq.symm
    (worded_pairs before.text) done
  rw [keys] at text
  refine ⟨plain, text, ?_⟩
  intro e member
  rw [writtenPairs, List.mem_append, List.mem_reverse] at member
  rcases member with write | stays
  · exact ⟨(whole e write).1.not_mem, (plain e write).not_mem⟩
  · exact worded_remaining (worded_pairs before.text) _ e stays

theorem namedKeys_writtenPairs (env : Environment) (clientNum : Nat) (userinfo : CString) :
    namedKeys (writtenPairs env clientNum userinfo) =
      (rewrittenKeys env userinfo).reverse ++ (pairKeys userinfo).diff (rewrittenKeys env userinfo) := by
  have named := rewrittenKeys_named env userinfo
  have keys := writes_keys env clientNum userinfo
  rw [writtenPairs, namedKeys_append, List.map_reverse, keys, namedKeys_remaining named, pairKeys_eq]
  intro e member
  apply named
  rw [← keys]
  exact List.mem_map_of_mem (List.mem_reverse.mp member)

theorem trailing_writtenPairs {env : Environment} {clientNum : Nat} {userinfo : CString}
    (worded : Worded '\\' (writtenPairs env clientNum userinfo)) :
    (render '\\' (writtenPairs env clientNum userinfo)).getLast? ≠ some '\\' ↔
      ∀ pair ∈ (remaining (rewrittenKeys env userinfo) (pairs '\\' userinfo)).getLast?, pair.2 ≠ [] := by
  obtain none | ⟨others, last, split⟩ :=
    List.eq_nil_or_concat' (remaining (rewrittenKeys env userinfo) (pairs '\\' userinfo))
  · have front : ∃ others, writtenPairs env clientNum userinfo =
        others ++ [("name".toList, cleanName env clientNum userinfo)] := by
      rw [writtenPairs, none, List.append_nil, writes, List.reverse_cons]
      exact ⟨_, rfl⟩
    obtain ⟨others, split⟩ := front
    have word := (worded ("name".toList, cleanName env clientNum userinfo) (by simp [split])).2
    rw [none, split, ne_eq, getLast?_render_append others word]
    refine iff_of_true (cleanName_ne_nil env clientNum userinfo) ?_
    intro pair member
    cases member
  · have word := (worded last (by simp [writtenPairs, split])).2
    rw [writtenPairs, split, ← List.append_assoc, ne_eq, getLast?_render_append _ word]
    simp

/-- When what `Sanitize` wrote passes its validation. -/
theorem valid_again_iff {env : Environment} {clientNum : Nat} {before after : Infostring} (valid : Valid before.text)
    (done : putAll before (writes env clientNum before.text) = .ok after) :
    Valid after.text ↔ (∀ key ∈ rewrittenKeys env before.text, key ∈ pairKeys before.text) ∧
      ∀ pair ∈ (remaining (rewrittenKeys env before.text) (pairs '\\' before.text)).getLast?, pair.2 ≠ [] := by
  obtain ⟨plain, text, worded⟩ := written_render valid done
  have five : ∀ key ∈ rewrittenKeys env before.text, key ∈ fiveKeys := fun key member =>
    (rewrittenKeys_sublist env before.text).subset member
  have fields := fields_again_iff valid.fields five (rewrittenKeys_nodup env before.text)
  have keys : pairKeys after.text = (rewrittenKeys env before.text).reverse ++
      (pairKeys before.text).diff (rewrittenKeys env before.text) := by
    rw [pairKeys_eq, text, pairs_render worded, namedKeys_writtenPairs]
  rw [← keys] at fields
  rw [← fields, ← trailing_writtenPairs worded, ← text]
  refine ⟨fun again => ⟨again.fields, again.trailing⟩, ?_⟩
  rintro ⟨found, trailing⟩
  have head : after.text.head? = some '\\' := by
    have present : writtenPairs env clientNum before.text ≠ [] := by simp [writtenPairs, writes]
    obtain ⟨e, others, split⟩ := List.exists_cons_of_ne_nil present
    rw [text, split, render_cons]
    rfl
  refine ⟨?_, after.fits, head, trailing, ?_, ?_, found⟩
  · intro empty
    rw [empty] at head
    cases head
  · rw [text, count_render worded]
    exact Nat.mul_mod_right 2 _
  · rw [text]
    apply clear_render_iff.mpr
    intro e member
    rw [writtenPairs, List.mem_append, List.mem_reverse] at member
    rcases member with write | stays
    · exact clear_writes valid plain e write
    · exact valid.clear_pairs e (mem_of_mem_remaining stays)

/-! ## Writes that are there already -/

/-- The pair that a key is read from. -/
def firstPair (entries : Pairs) (asked : CString) : Option (CString × CString) :=
  entries.find? fun e => qStricmp asked e.1 = 0

theorem qStricmp_self (s : CString) : qStricmp s s = 0 := (qStricmpn_eq_zero_iff s s _).mpr (EqNoCase.refl _)

/-- A key is read from the same pair in any case. -/
theorem firstPair_of_same {asked key : CString} (same : qStricmp asked key = 0) (entries : Pairs) :
    firstPair entries asked = firstPair entries key := by
  have equal (other : CString) : qStricmp asked other = 0 ↔ qStricmp key other = 0 := by
    simp only [qStricmp, qStricmpn_eq_zero_iff] at same ⊢
    exact ⟨same.symm.trans, same.trans⟩
  simp only [firstPair, equal]

theorem find?_of_narrower {α : Type} {p q : α → Bool} {l : List α} {e : α} (narrower : ∀ e, q e = true → p e = true)
    (found : l.find? p = some e) (hit : q e = true) : l.find? q = some e := by
  obtain ⟨_, front, back, split, missed⟩ := List.find?_eq_some_iff_append.mp found
  refine List.find?_eq_some_iff_append.mpr ⟨hit, front, back, split, ?_⟩
  intro other member
  have miss := missed other member
  cases wide : q other with
  | false => rfl
  | true => simp [narrower other wide] at miss

/-- To write the pair that the key is read from moves it to the front. -/
theorem put_settled {before : Infostring} {entries : Pairs} {key value : CString} (whole : Whole key value)
    (plain : Plain value) (text : before.text = render '\\' entries) (worded : Worded '\\' entries)
    (read : firstPair entries key = some (key, value)) :
    ∃ after others, put before key value = .ok after ∧ after.text = render '\\' others ∧ Worded '\\' others ∧
      ∀ asked, firstPair others asked = firstPair entries asked := by
  have spelled : entries.find? (fun e => decide (key = e.1)) = some (key, value) := by
    refine find?_of_narrower ?_ read (by simp)
    intro e same
    rw [← of_decide_eq_true same]
    simpa using qStricmp_self key
  have removed : infoRemoveKey before.text key = render '\\' (entries.eraseP fun e => decide (key = e.1)) := by
    rw [infoRemoveKey_eq whole.1.not_mem, text, removeFirst_render worded]
  have length : (render '\\' entries).length = _ := length_render_eraseP spelled
  have room : Room before.text key value := by
    have fits := before.fits
    rw [Room, removed]
    rw [text, length] at fits
    simp only [entry, List.cons_append, List.length_cons, List.length_append] at fits
    omega
  have written := infoSetValueForKey_of_room whole.1 plain whole.2.1 room
  refine ⟨(before.set key value).2, (key, value) :: entries.eraseP fun e => decide (key = e.1), ?_, ?_, ?_, ?_⟩
  · have success : (before.set key value).1 = true := congrArg Prod.fst written
    rw [put, if_pos success]
  · rw [render_cons, ← removed]
    exact congrArg Prod.snd written
  · exact List.forall_mem_cons.mpr ⟨⟨whole.1.not_mem, plain.not_mem⟩, worded.eraseP _⟩
  · intro asked
    by_cases same : qStricmp asked key = 0
    · rw [firstPair_of_same same entries, read]
      exact List.find?_cons_of_pos (by simpa using same)
    · rw [firstPair, List.find?_cons_of_neg (by simpa using same), find?_eraseP, firstPair]
      intro e hit
      rw [← of_decide_eq_true hit]
      simpa using same

theorem putAll_settled {writes : Pairs} {before : Infostring} {entries : Pairs}
    (whole : ∀ write ∈ writes, Whole write.1 write.2) (plain : ∀ write ∈ writes, Plain write.2)
    (text : before.text = render '\\' entries) (worded : Worded '\\' entries)
    (read : ∀ write ∈ writes, firstPair entries write.1 = some write) :
    ∃ after others, putAll before writes = .ok after ∧ after.text = render '\\' others ∧ Worded '\\' others ∧
      ∀ asked, firstPair others asked = firstPair entries asked := by
  induction writes generalizing before entries with
  | nil => exact ⟨before, entries, rfl, text, worded, fun asked => rfl⟩
  | cons write writes hypothesis =>
    obtain ⟨wholeFirst, wholeOthers⟩ := List.forall_mem_cons.mp whole
    obtain ⟨plainFirst, plainOthers⟩ := List.forall_mem_cons.mp plain
    obtain ⟨readFirst, readOthers⟩ := List.forall_mem_cons.mp read
    obtain ⟨between, moved, done, text, worded, kept⟩ := put_settled wholeFirst plainFirst text worded readFirst
    obtain ⟨after, others, rest, text, worded, keptRest⟩ := hypothesis wholeOthers plainOthers text worded
      fun write member => (kept write.1).trans (readOthers write member)
    refine ⟨after, others, ?_, text, worded, fun asked => (keptRest asked).trans (kept asked)⟩
    rw [putAll, List.foldlM_cons, done]
    exact rest

theorem infoValueForKey_render {text : CString} {entries : Pairs} (written : text = render '\\' entries)
    (worded : Worded '\\' entries) (asked : CString) :
    infoValueForKey text asked = ((firstPair entries asked).map Prod.snd).getD [] := by
  rw [written, infoValueForKey_eq, pairs_render worded]
  rfl

/-- Each key is read from the pair that was written for it. -/
theorem firstPair_writtenPairs {env : Environment} {clientNum : Nat} {userinfo : CString} {write : CString × CString}
    (member : write ∈ writes env clientNum userinfo) :
    firstPair (writtenPairs env clientNum userinfo) write.1 = some write := by
  have keys := writes_keys env clientNum userinfo
  have five : ∀ write ∈ writes env clientNum userinfo, write.1 ∈ fiveKeys := by
    intro write member
    apply (rewrittenKeys_sublist env userinfo).subset
    rw [← keys]
    exact List.mem_map_of_mem member
  obtain ⟨front, back, split⟩ := List.append_of_mem (List.mem_reverse.mpr member)
  have apart : ((writes env clientNum userinfo).reverse.map Prod.fst).Nodup := by
    rw [List.map_reverse, keys]
    exact (List.reverse_perm _).nodup_iff.mpr (rewrittenKeys_nodup env userinfo)
  refine List.find?_eq_some_iff_append.mpr ⟨by simpa using qStricmp_self write.1, front,
    back ++ remaining (rewrittenKeys env userinfo) (pairs '\\' userinfo), by rw [writtenPairs, split]; simp, ?_⟩
  intro other listed
  rw [split, List.map_append, List.map_cons, List.nodup_append] at apart
  have inside : other ∈ writes env clientNum userinfo := by
    rw [← List.mem_reverse, split]
    exact List.mem_append_left _ listed
  have different : other.1 ≠ write.1 := apart.2.2 other.1 (List.mem_map_of_mem listed) write.1 List.mem_cons_self
  simpa using fun same => different (fiveKeys_apart write.1 (five write member) other.1 (five other inside) same).symm

/-! ## The second pass -/

theorem forcePowers_again (val : CString) : forcePowers (forcePowers val) = forcePowers val := by
  have fallback : forcePowers "7-1-030000000000003332".toList = "7-1-030000000000003332".toList := by decide
  by_cases bad : badForce (qStrncpyz val 30) = true
  · have powers : forcePowers val = "7-1-030000000000003332".toList := by simp only [forcePowers, if_pos bad]
    rw [powers, fallback]
  · have powers : forcePowers val = qStrncpyz val 30 := by simp only [forcePowers, if_neg bad]
    have short : (qStrncpyz val 30).length < 30 := length_qStrncpyz_lt val (by decide)
    rw [powers, forcePowers, qStrncpyz_of_fits short]
    simp only [if_neg bad]

/-- With a name that stays, the second pass writes nothing new. -/
theorem writes_again {env : Environment} {clientNum : Nat} {before after : Infostring}
    (delimited : Delimited '\\' before.text) (done : putAll before (writes env clientNum before.text) = .ok after)
    (name : TidyName env clientNum (infoValueForKey before.text "name".toList)) :
    ∀ write ∈ writes env clientNum after.text, write ∈ writes env clientNum before.text := by
  obtain ⟨nameRead, modelRead, colorRead, powersRead⟩ := reads_written delimited done
  have sameName : cleanName env clientNum after.text = cleanName env clientNum before.text := by
    rw [cleanName_eq, nameRead, cleanName_eq]
    exact (gameName_again_iff env clientNum _).mpr name
  have noColor (colorKey : CString) (listed : colorKey ∈ ["color1".toList, "color2".toList]) :
      colorWrite colorKey (infoValueForKey after.text colorKey) = [] := by
    rw [colorWrite, if_neg]
    rw [colorRead colorKey listed, Nat.not_lt]
    split
    · exact List.length_take_le _ _
    · omega
  intro write member
  rw [writes, noColor _ (by decide), noColor _ (by decide), sameName, powersRead, forcePowers_again] at member
  simp only [writes, List.mem_cons, List.mem_append, List.not_mem_nil, false_or, or_false] at member ⊢
  rcases member with rfl | model | rfl
  · exact Or.inl rfl
  · refine Or.inr (Or.inl ?_)
    rw [modelRead] at model
    by_cases bad : badModel env (infoValueForKey before.text "model".toList) = true
    · rw [if_pos bad, modelWrite] at model
      rw [modelWrite, if_pos bad]
      split at model
      · exact model
      · cases model
    · rwa [if_neg bad] at model
  · tauto

/-- What makes a userinfo one that is the same after a second `Sanitize`. -/
structure Settled (env : Environment) (clientNum : Nat) (userinfo : CString) : Prop where
  name : TidyName env clientNum (infoValueForKey userinfo "name".toList)
  /-- A key is removed only where it is spelled as `Sanitize` spells it. -/
  spelled : ∀ key ∈ rewrittenKeys env userinfo, key ∈ pairKeys userinfo
  /-- The pair that comes last once those keys are out has a value. -/
  last : ∀ pair ∈ (remaining (rewrittenKeys env userinfo) (pairs '\\' userinfo)).getLast?, pair.2 ≠ []

instance (env : Environment) (clientNum : Nat) (userinfo : CString) : Decidable (Settled env clientNum userinfo) :=
  decidable_of_iff (TidyName env clientNum (infoValueForKey userinfo "name".toList) ∧
    (∀ key ∈ rewrittenKeys env userinfo, key ∈ pairKeys userinfo) ∧
    ∀ pair ∈ (remaining (rewrittenKeys env userinfo) (pairs '\\' userinfo)).getLast?, pair.2 ≠ [])
    ⟨fun ⟨name, spelled, last⟩ => ⟨name, spelled, last⟩, fun ⟨name, spelled, last⟩ => ⟨name, spelled, last⟩⟩

/-- Exactly those are accepted again with every value as it was. -/
theorem sanitize_again_iff (env : Environment) (clientNum : Nat) (userinfo : Infostring)
    (accepted : (sanitize env clientNum true userinfo).refusal = none) :
    ((sanitize env clientNum true (sanitize env clientNum true userinfo).userinfo).refusal = none ∧
      ∀ key, infoValueForKey (sanitize env clientNum true (sanitize env clientNum true userinfo).userinfo).userinfo.text key =
        infoValueForKey (sanitize env clientNum true userinfo).userinfo.text key) ↔
      Settled env clientNum userinfo.text := by
  obtain ⟨validated, written, done⟩ := (accepted_iff env clientNum userinfo).mp accepted
  have valid := (validate_iff userinfo.text).mp validated
  have delimited := delimited_of_validate validated
  obtain ⟨honest, all⟩ := (sanitizeText_ok_iff delimited).mp done
  obtain ⟨plain, text, worded⟩ := written_render valid all
  obtain ⟨nameRead, modelRead, _, _⟩ := reads_written delimited all
  have first : (sanitize env clientNum true userinfo).userinfo = written := by rw [(sanitize_accepted validated done).1]
  have validAgain := valid_again_iff valid all
  rw [first, accepted_iff, validate_iff]
  constructor
  · rintro ⟨⟨valid, twice, doneAgain⟩, same⟩
    obtain ⟨spelled, last⟩ := validAgain.mp valid
    refine ⟨?_, spelled, last⟩
    rw [← validate_iff] at valid
    have delimited := delimited_of_validate valid
    obtain ⟨_, allAgain⟩ := (sanitizeText_ok_iff delimited).mp doneAgain
    obtain ⟨nameAgain, _⟩ := reads_written delimited allAgain
    have second : (sanitize env clientNum true written).userinfo = twice := by rw [(sanitize_accepted valid doneAgain).1]
    have kept := same "name".toList
    rw [second, nameAgain, cleanName_eq, nameRead, cleanName_eq] at kept
    exact (gameName_again_iff env clientNum _).mp kept
  · rintro ⟨name, spelled, last⟩
    have valid := validAgain.mpr ⟨spelled, last⟩
    have validated := (validate_iff written.text).mpr valid
    have inside := writes_again delimited all name
    obtain ⟨twice, others, allAgain, textAgain, wordedAgain, kept⟩ := putAll_settled
      (whole_writes env clientNum written.text) (fun write member => plain write (inside write member)) text worded
      fun write member => firstPair_writtenPairs (inside write member)
    have honestAgain : ¬ cheat (infoValueForKey written.text "model".toList) := by
      rw [modelRead]
      split
      · unfold cheat
        decide
      · exact honest
    have doneAgain := (sanitizeText_ok_iff (delimited_of_validate validated)).mpr ⟨honestAgain, allAgain⟩
    refine ⟨⟨valid, twice, doneAgain⟩, ?_⟩
    intro key
    rw [(sanitize_accepted validated doneAgain).1, infoValueForKey_render textAgain wordedAgain,
      infoValueForKey_render text worded, kept]

theorem sanitize_again_sample :
    (sanitize noPlayers 0 true (sanitize noPlayers 0 true (userinfoOf "*Bob".toList)).userinfo).refusal = none ∧
      ∀ key, infoValueForKey
          (sanitize noPlayers 0 true (sanitize noPlayers 0 true (userinfoOf "*Bob".toList)).userinfo).userinfo.text key =
        infoValueForKey (sanitize noPlayers 0 true (userinfoOf "*Bob".toList)).userinfo.text key := by
  -- The text becomes a list first: the kernel takes long to decode a literal.
  refine (sanitize_again_iff noPlayers 0 (userinfoOf "*Bob".toList) ?_).mpr ?_
  · rw [userinfoOf]
    repeat rw [String.toList_ofList]
    decide +kernel
  · rw [userinfoOf]
    repeat rw [String.toList_ofList]
    decide +kernel

/-- The blank behind a leading asterisk comes to stand first, and the second pass takes it off. -/
theorem sanitize_changes_name :
    (sanitize noPlayers 0 true (userinfoOf "* Bob".toList)).refusal = none ∧
      infoValueForKey (sanitize noPlayers 0 true (userinfoOf "* Bob".toList)).userinfo.text "name".toList =
        " Bob".toList ∧
      infoValueForKey
        (sanitize noPlayers 0 true (sanitize noPlayers 0 true (userinfoOf "* Bob".toList)).userinfo).userinfo.text
        "name".toList = "Bob".toList := by
  rw [userinfoOf]
  repeat rw [String.toList_ofList]
  refine ⟨?_, ?_, ?_⟩
  · decide +kernel
  · decide +kernel
  · decide +kernel

end YbeProxy.SanitizeTwice
