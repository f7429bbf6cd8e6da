import YbeProxy.Userinfo

/-!
# What Sanitize writes

`Sanitize` of `Features/Userinfo.cpp` as a list of writes that its input alone decides, and what the game reads in the
userinfo that it hands to `SetUserinfo`.
-/

namespace YbeProxy.UserinfoWrites
open YbeProxy.Strings YbeProxy.KeyValueText YbeProxy.Infostrings YbeProxy.Userinfo

/-- The argument of `SetUserinfo`, where `Sanitize` comes to call it. -/
def setUserinfo (env : Environment) (clientNum : Nat) (validated : Bool) (userinfo : Infostring) : Option Infostring :=
  match if validated then validate userinfo.text else none with
  | some _ => none
  | none =>
    if userinfo.text.length = 0 then none
    else match sanitizeText env clientNum userinfo with
      | .ok sanitized => some sanitized
      | .error _ => none

/-- Either nothing is set and the userinfo stays, or what is set is the new userinfo and there is no refusal. -/
theorem setUserinfo_cases (env : Environment) (clientNum : Nat) (validated : Bool) (userinfo : Infostring) :
    (setUserinfo env clientNum validated userinfo = none ∧ (sanitize env clientNum validated userinfo).userinfo = userinfo) ∨
      ∃ written, setUserinfo env clientNum validated userinfo = some written ∧
        (sanitize env clientNum validated userinfo).userinfo = written ∧
        (sanitize env clientNum validated userinfo).refusal = none := by
  rw [sanitize, setUserinfo]
  generalize (if validated then validate userinfo.text else none) = invalid
  cases invalid with
  | some invalid => exact Or.inl ⟨rfl, rfl⟩
  | none =>
    by_cases text : userinfo.text.length = 0
    · simp only [if_pos text]
      exact Or.inl ⟨trivial, trivial⟩
    · simp only [if_neg text]
      cases sanitizeText env clientNum userinfo with
      | ok written => exact Or.inr ⟨written, rfl, rfl, rfl⟩
      | error refusal => exact Or.inl ⟨rfl, rfl⟩

/-- The engine holds what `SetUserinfo` was given last. -/
theorem sanitize_userinfo (env : Environment) (clientNum : Nat) (validated : Bool) (userinfo : Infostring) :
    (sanitize env clientNum validated userinfo).userinfo = (setUserinfo env clientNum validated userinfo).getD userinfo := by
  rcases setUserinfo_cases env clientNum validated userinfo with ⟨unset, same⟩ | ⟨written, set, same, _⟩
  · rw [unset, same, Option.getD_none]
  · rw [set, same, Option.getD_some]

theorem setUserinfo_of_refused {env : Environment} {clientNum : Nat} {validated : Bool} {userinfo : Infostring}
    (refused : (sanitize env clientNum validated userinfo).refusal ≠ none) :
    setUserinfo env clientNum validated userinfo = none := by
  rcases setUserinfo_cases env clientNum validated userinfo with ⟨unset, _⟩ | ⟨_, _, _, accepted⟩
  · exact unset
  · exact absurd accepted refused

theorem nonempty_of_validate {userinfo : CString} (valid : validate userinfo = none) : ¬ userinfo.length = 0 := by
  intro empty
  rw [List.length_eq_zero_iff.mp empty] at valid
  revert valid
  decide

/-- What it takes to be accepted: a valid text, and every write done. -/
theorem accepted_iff (env : Environment) (clientNum : Nat) (userinfo : Infostring) :
    (sanitize env clientNum true userinfo).refusal = none ↔
      validate userinfo.text = none ∧ ∃ written, sanitizeText env clientNum userinfo = .ok written := by
  rw [sanitize]
  simp only [if_true]
  cases valid : validate userinfo.text with
  | some invalid => simp
  | none =>
    simp only [if_neg (nonempty_of_validate valid)]
    cases sanitizeText env clientNum userinfo with
    | ok written => simp
    | error refusal => simp

theorem sanitize_accepted {env : Environment} {clientNum : Nat} {userinfo written : Infostring}
    (valid : validate userinfo.text = none) (done : sanitizeText env clientNum userinfo = .ok written) :
    sanitize env clientNum true userinfo = ⟨none, some (cleanName env clientNum userinfo.text), written⟩ ∧
      setUserinfo env clientNum true userinfo = some written := by
  rw [sanitize, setUserinfo]
  simp only [if_true, valid, if_neg (nonempty_of_validate valid), done]
  exact ⟨trivial, trivial⟩

/-! ## The writes -/

def putAll (userinfo : Infostring) (writes : List (CString × CString)) : Except Refusal Infostring :=
  writes.foldlM (fun userinfo write => put userinfo write.1 write.2) userinfo

def modelWrite (env : Environment) (val : CString) : List (CString × CString) :=
  if badModel env val then [("model".toList, "kyle".toList)] else []

def colorWrite (colorKey val : CString) : List (CString × CString) :=
  if val.length > 15 then [(colorKey, qStrncpyz val 16)] else []

/-- The pairs that `Sanitize` writes, read off the userinfo that it is given. -/
def writes (env : Environment) (clientNum : Nat) (userinfo : CString) : List (CString × CString) :=
  ("name".toList, cleanName env clientNum userinfo) ::
    (modelWrite env (infoValueForKey userinfo "model".toList) ++
      (colorWrite "color1".toList (infoValueForKey userinfo "color1".toList) ++
        (colorWrite "color2".toList (infoValueForKey userinfo "color2".toList) ++
          [("forcepowers".toList, forcePowers (infoValueForKey userinfo "forcepowers".toList))])))

def cheat (val : CString) : Prop := qStricmpn val "darksidetools".toList 13 = 0

theorem fixModel_eq (env : Environment) (userinfo : Infostring) (honest : ¬ cheat (infoValueForKey userinfo.text "model".toList)) :
    fixModel env userinfo = putAll userinfo (modelWrite env (infoValueForKey userinfo.text "model".toList)) := by
  have other : ¬ qStricmpn (infoValueForKey userinfo.text "model".toList) "darksidetools".toList 13 = 0 := honest
  simp only [fixModel, if_neg other, modelWrite]
  split
  · simp [putAll]
  · rfl

theorem fixColor_eq (colorKey : CString) (userinfo : Infostring) :
    fixColor colorKey userinfo = putAll userinfo (colorWrite colorKey (infoValueForKey userinfo.text colorKey)) := by
  simp only [fixColor, colorWrite]
  split
  · simp [putAll]
  · rfl

theorem putAll_append (userinfo : Infostring) (first second : List (CString × CString)) :
    putAll userinfo (first ++ second) = (putAll userinfo first).bind fun between => putAll between second :=
  List.foldlM_append

/-! ## What is read back -/

/-- The value of the last write of a key, or the value that it had. -/
def lastWritten (writes : List (CString × CString)) (old asked : CString) : CString :=
  ((writes.reverse.find? fun write => qStricmp asked write.1 = 0).map Prod.snd).getD old

/-- A write that cannot be cut or drop its key. -/
def Whole (key value : CString) : Prop := Plain key ∧ value ≠ [] ∧ key.length + value.length + 2 < maxInfoString

instance (key value : CString) : Decidable (Whole key value) := inferInstanceAs (Decidable (_ ∧ _ ∧ _))

theorem put_ok {before after : Infostring} {key value : CString} (whole : Whole key value)
    (done : put before key value = .ok after) :
    Plain value ∧ after.text = entry '\\' key value ++ infoRemoveKey before.text key := by
  obtain ⟨keyPlain, present, short⟩ := whole
  rw [put] at done
  split at done
  · rename_i success
    obtain rfl := Except.ok.inj done
    simp only [Infostring.set] at success ⊢
    obtain ⟨same, _⟩ | ⟨_, empty⟩ | ⟨same, plain, _⟩ | ⟨same, _⟩ := infoSetValueForKey_cases before.text keyPlain short
    · rw [same] at success
      cases success
    · exact absurd empty present
    · rw [same]
      exact ⟨plain, rfl⟩
    · rw [same] at success
      cases success
  · cases done

theorem value_put {before after : Infostring} {key value : CString} (whole : Whole key value)
    (delimited : Delimited '\\' before.text) (done : put before key value = .ok after) (asked : CString) :
    Delimited '\\' after.text ∧ infoValueForKey after.text asked =
      if qStricmp asked key = 0 then value else infoValueForKey before.text asked := by
  obtain ⟨plain, text⟩ := put_ok whole done
  refine ⟨by rw [text]; rfl, ?_⟩
  rw [text, infoValueForKey_entry whole.1 plain (delimited_infoRemoveKey delimited _)]
  by_cases same : qStricmp asked key = 0
  · rw [if_pos same, if_pos same]
  · rw [if_neg same, if_neg same, infoValueForKey_infoRemoveKey whole.1.not_mem same]

theorem putAll_cons_ok {before after : Infostring} {write : CString × CString} {writes : List (CString × CString)}
    (done : putAll before (write :: writes) = .ok after) :
    ∃ between, put before write.1 write.2 = .ok between ∧ putAll between writes = .ok after := by
  rw [putAll, List.foldlM_cons] at done
  cases first : put before write.1 write.2 with
  | error refusal =>
    rw [first] at done
    cases done
  | ok between =>
    rw [first] at done
    exact ⟨between, rfl, done⟩

theorem value_putAll {before after : Infostring} {writes : List (CString × CString)} (whole : ∀ write ∈ writes, Whole write.1 write.2)
    (delimited : Delimited '\\' before.text) (done : putAll before writes = .ok after) :
    Delimited '\\' after.text ∧
      ∀ asked, infoValueForKey after.text asked = lastWritten writes (infoValueForKey before.text asked) asked := by
  induction writes generalizing before with
  | nil =>
    obtain rfl := Except.ok.inj done
    exact ⟨delimited, fun asked => rfl⟩
  | cons write writes hypothesis =>
    obtain ⟨between, first, done⟩ := putAll_cons_ok done
    have value := value_put (whole write List.mem_cons_self) delimited first
    obtain ⟨slash, later⟩ := hypothesis (fun other member => whole other (List.mem_cons_of_mem write member))
      (value []).1 done
    refine ⟨slash, ?_⟩
    intro asked
    rw [later asked, (value asked).2, lastWritten, lastWritten, List.reverse_cons, List.find?_append]
    cases writes.reverse.find? fun write => decide (qStricmp asked write.1 = 0) with
    | some found => rfl
    | none =>
      by_cases same : qStricmp asked write.1 = 0
      · simp [same]
      · simp [same]

/-! ## Sanitizing is these writes -/

theorem proxyClientCleanName_ne_nil (name : CString) : proxyClientCleanName name maxNetname ≠ [] := by
  simp only [proxyClientCleanName]
  split
  · decide
  · rename_i visible
    exact fun empty => visible (Or.inl empty)

theorem candidate_ne_nil (name : CString) (number : Nat) : candidate name number ≠ [] := by
  simp [candidate, comSprintf, maxNetname]

theorem cleanName_ne_nil (env : Environment) (clientNum : Nat) (userinfo : CString) :
    cleanName env clientNum userinfo ≠ [] := by
  rcases cleanName_cases env clientNum userinfo with clean | ⟨name, number, same⟩
  · rw [clean]
    exact proxyClientCleanName_ne_nil _
  · rw [same]
    simp [qStrncpyz, maxNetname, candidate_ne_nil]

theorem forcePowers_ne_nil (val : CString) : forcePowers val ≠ [] := by
  simp only [forcePowers]
  split
  · decide
  · rename_i good
    intro empty
    rw [empty] at good
    exact good (by decide)

theorem whole_writes (env : Environment) (clientNum : Nat) (userinfo : CString) :
    ∀ write ∈ writes env clientNum userinfo, Whole write.1 write.2 := by
  have size : maxInfoString = 1024 := rfl
  have clean := length_cleanName env clientNum userinfo
  have powers := length_forcePowers (infoValueForKey userinfo "forcepowers".toList)
  have color (colorKey val : CString) (keyPlain : Plain colorKey) (short : colorKey.length ≤ 1000) :
      ∀ write ∈ colorWrite colorKey val, Whole write.1 write.2 := by
    intro write member
    rw [colorWrite] at member
    split at member
    · rename_i long
      obtain rfl := List.mem_singleton.mp member
      have cut : (qStrncpyz val 16).length = 15 := by
        rw [qStrncpyz, List.length_take]
        omega
      refine ⟨keyPlain, ?_, by simp only; omega⟩
      intro empty
      rw [show qStrncpyz val 16 = [] from empty] at cut
      cases cut
    · cases member
  have lengths : "name".toList.length = 4 ∧ "forcepowers".toList.length = 11 := by decide
  intro write member
  simp only [writes, List.mem_cons, List.mem_append, List.not_mem_nil, or_false] at member
  rcases member with rfl | model | first | second | rfl
  · change Whole "name".toList (cleanName env clientNum userinfo)
    exact ⟨by decide, cleanName_ne_nil env clientNum userinfo, by omega⟩
  · rw [modelWrite] at model
    split at model
    · obtain rfl := List.mem_singleton.mp model
      decide
    · cases model
  · exact color _ _ (by decide) (by decide) write first
  · exact color _ _ (by decide) (by decide) write second
  · change Whole "forcepowers".toList (forcePowers (infoValueForKey userinfo "forcepowers".toList))
    exact ⟨by decide, forcePowers_ne_nil _, by omega⟩

theorem lastWritten_of_apart {writes : List (CString × CString)} {asked : CString} (old : CString)
    (apart : ∀ write ∈ writes, qStricmp asked write.1 ≠ 0) : lastWritten writes old asked = old := by
  have none : (writes.reverse.find? fun write => qStricmp asked write.1 = 0) = none := by
    apply List.find?_eq_none.mpr
    intro write member
    simpa using apart write (List.mem_reverse.mp member)
  rw [lastWritten, none]
  rfl

theorem modelWrite_key {env : Environment} {val : CString} {write : CString × CString}
    (member : write ∈ modelWrite env val) : write.1 = "model".toList := by
  rw [modelWrite] at member
  split at member
  · rw [List.mem_singleton.mp member]
  · cases member

theorem colorWrite_key {colorKey val : CString} {write : CString × CString} (member : write ∈ colorWrite colorKey val) :
    write.1 = colorKey := by
  rw [colorWrite] at member
  split at member
  · rw [List.mem_singleton.mp member]
  · cases member

/-- Writes of one key leave what is read for another. -/
theorem value_putAll_apart {before after : Infostring} {writes : List (CString × CString)} {key asked : CString}
    (whole : ∀ write ∈ writes, Whole write.1 write.2) (delimited : Delimited '\\' before.text)
    (done : putAll before writes = .ok after) (keys : ∀ write ∈ writes, write.1 = key) (apart : qStricmp asked key ≠ 0) :
    infoValueForKey after.text asked = infoValueForKey before.text asked := by
  rw [(value_putAll whole delimited done).2 asked]
  apply lastWritten_of_apart
  intro write member
  rw [keys write member]
  exact apart

/-- `Sanitize` refuses a cheat, and otherwise makes its writes; what it writes does not depend on the writes before. -/
theorem sanitizeText_ok_iff {env : Environment} {clientNum : Nat} {before after : Infostring}
    (delimited : Delimited '\\' before.text) :
    sanitizeText env clientNum before = .ok after ↔
      ¬ cheat (infoValueForKey before.text "model".toList) ∧ putAll before (writes env clientNum before.text) = .ok after := by
  have whole := whole_writes env clientNum before.text
  simp only [writes, List.forall_mem_cons, List.forall_mem_append] at whole
  obtain ⟨wholeName, wholeModel, wholeColor1, wholeColor2, _⟩ := whole
  rw [sanitizeText, writes, putAll, List.foldlM_cons]
  cases name : put before "name".toList (cleanName env clientNum before.text) with
  | error refusal =>
    constructor
    · intro done
      cases done
    · intro done
      cases done.2
  | ok named =>
    have read := value_put wholeName delimited name
    have slash := (read []).1
    have model := (read "model".toList).2
    rw [if_neg (by decide)] at model
    by_cases honest : cheat (infoValueForKey before.text "model".toList)
    · refine ⟨?_, fun done => absurd honest done.1⟩
      intro done
      have cheating : qStricmpn (infoValueForKey before.text "model".toList) "darksidetools".toList 13 = 0 := honest
      simp only [bind, Except.bind, fixModel, model, if_pos cheating] at done
      cases done
    · simp only [honest, not_false_eq_true, true_and]
      change (fixModel env named >>= fun userinfo => fixColor "color1".toList userinfo >>= fun userinfo =>
        fixColor "color2".toList userinfo >>= fun userinfo => put userinfo "forcepowers".toList
          (forcePowers (infoValueForKey userinfo.text "forcepowers".toList))) = .ok after ↔
        putAll named (_ ++ (_ ++ (_ ++ _))) = .ok after
      rw [fixModel_eq env named (by rw [model]; exact honest), model, putAll_append]
      cases first : putAll named (modelWrite env (infoValueForKey before.text "model".toList)) with
      | error refusal => exact Iff.rfl
      | ok modelled =>
        have kept (asked : CString) (apart : qStricmp asked "name".toList ≠ 0 ∧ qStricmp asked "model".toList ≠ 0) :
            infoValueForKey modelled.text asked = infoValueForKey before.text asked := by
          rw [value_putAll_apart wholeModel slash first (fun write => modelWrite_key) apart.2, (read asked).2,
            if_neg apart.1]
        have slash := (value_putAll wholeModel slash first).1
        change (fixColor "color1".toList modelled >>= _) = _ ↔ putAll modelled _ = _
        rw [fixColor_eq, kept _ (by decide), putAll_append]
        cases second : putAll modelled (colorWrite "color1".toList (infoValueForKey before.text "color1".toList)) with
        | error refusal => exact Iff.rfl
        | ok colored =>
          have kept (asked : CString) (apart : qStricmp asked "name".toList ≠ 0 ∧ qStricmp asked "model".toList ≠ 0)
              (other : qStricmp asked "color1".toList ≠ 0) :
              infoValueForKey colored.text asked = infoValueForKey before.text asked := by
            rw [value_putAll_apart wholeColor1 slash second (fun write => colorWrite_key) other, kept asked apart]
          have slash := (value_putAll wholeColor1 slash second).1
          change (fixColor "color2".toList colored >>= _) = _ ↔ putAll colored _ = _
          rw [fixColor_eq, kept _ (by decide) (by decide), putAll_append]
          cases third : putAll colored (colorWrite "color2".toList (infoValueForKey before.text "color2".toList)) with
          | error refusal => exact Iff.rfl
          | ok both =>
            have powers := value_putAll_apart wholeColor2 slash third (fun write => colorWrite_key)
              (show qStricmp "forcepowers".toList "color2".toList ≠ 0 by decide)
            change put both _ (forcePowers (infoValueForKey both.text "forcepowers".toList)) = _ ↔ putAll both _ = _
            rw [powers, kept _ (by decide) (by decide), putAll, List.foldlM_cons]
            simp

/-! ## What the game reads -/

theorem lastWritten_append (first second : List (CString × CString)) (old asked : CString) :
    lastWritten (first ++ second) old asked = lastWritten second (lastWritten first old asked) asked := by
  rw [lastWritten, lastWritten, List.reverse_append, List.find?_append]
  cases second.reverse.find? fun write => decide (qStricmp asked write.1 = 0) <;> rfl

theorem lastWritten_single (key value old asked : CString) :
    lastWritten [(key, value)] old asked = if qStricmp asked key = 0 then value else old := by
  rw [lastWritten, List.reverse_singleton]
  by_cases same : qStricmp asked key = 0
  · rw [List.find?_cons_of_pos (by simpa using same), if_pos same]
    rfl
  · rw [List.find?_cons_of_neg (by simpa using same), if_neg same]
    rfl

theorem lastWritten_modelWrite (env : Environment) (val old asked : CString) :
    lastWritten (modelWrite env val) old asked =
      if qStricmp asked "model".toList = 0 ∧ badModel env val = true then "kyle".toList else old := by
  rw [modelWrite]
  cases badModel env val with
  | true => simp only [if_true, lastWritten_single, and_true]
  | false => simp [lastWritten]

theorem lastWritten_colorWrite (colorKey val old asked : CString) :
    lastWritten (colorWrite colorKey val) old asked =
      if qStricmp asked colorKey = 0 ∧ val.length > 15 then qStrncpyz val 16 else old := by
  rw [colorWrite]
  by_cases long : val.length > 15
  · rw [if_pos long, lastWritten_single]
    simp only [long, and_true]
  · simp [long, lastWritten]

/-- The values of the five keys behind the writes; every other value stays. -/
theorem lastWritten_writes (env : Environment) (clientNum : Nat) (userinfo asked : CString) :
    lastWritten (writes env clientNum userinfo) (infoValueForKey userinfo asked) asked =
      if qStricmp asked "forcepowers".toList = 0 then forcePowers (infoValueForKey userinfo "forcepowers".toList)
      else if qStricmp asked "color2".toList = 0 ∧ (infoValueForKey userinfo "color2".toList).length > 15 then
        qStrncpyz (infoValueForKey userinfo "color2".toList) 16
      else if qStricmp asked "color1".toList = 0 ∧ (infoValueForKey userinfo "color1".toList).length > 15 then
        qStrncpyz (infoValueForKey userinfo "color1".toList) 16
      else if qStricmp asked "model".toList = 0 ∧ badModel env (infoValueForKey userinfo "model".toList) = true then
        "kyle".toList
      else if qStricmp asked "name".toList = 0 then cleanName env clientNum userinfo
      else infoValueForKey userinfo asked := by
  rw [writes, ← List.singleton_append, lastWritten_append, lastWritten_append, lastWritten_append, lastWritten_append,
    lastWritten_single, lastWritten_modelWrite, lastWritten_colorWrite, lastWritten_colorWrite, lastWritten_single]

/-- What is read back, key by key. -/
theorem reads_written {env : Environment} {clientNum : Nat} {before after : Infostring}
    (delimited : Delimited '\\' before.text) (done : putAll before (writes env clientNum before.text) = .ok after) :
    infoValueForKey after.text "name".toList = cleanName env clientNum before.text ∧
      infoValueForKey after.text "model".toList =
        (if badModel env (infoValueForKey before.text "model".toList) then "kyle".toList
          else infoValueForKey before.text "model".toList) ∧
      (∀ colorKey ∈ ["color1".toList, "color2".toList], infoValueForKey after.text colorKey =
        if (infoValueForKey before.text colorKey).length > 15 then qStrncpyz (infoValueForKey before.text colorKey) 16
        else infoValueForKey before.text colorKey) ∧
      infoValueForKey after.text "forcepowers".toList =
        forcePowers (infoValueForKey before.text "forcepowers".toList) := by
  have reads (asked : CString) := (value_putAll (whole_writes env clientNum before.text) delimited done).2 asked
  simp only [lastWritten_writes] at reads
  have absent {asked key : CString} (other : qStricmp asked key ≠ 0) (chosen : Prop) : ¬ (qStricmp asked key = 0 ∧ chosen) :=
    fun both => other both.1
  refine ⟨?_, ?_, ?_, ?_⟩
  · rw [reads, if_neg (by decide), if_neg (absent (by decide) _), if_neg (absent (by decide) _),
      if_neg (absent (by decide) _), if_pos (by decide)]
  · rw [reads, if_neg (by decide), if_neg (absent (by decide) _), if_neg (absent (by decide) _)]
    refine if_congr (and_iff_right (by decide)) rfl ?_
    rw [if_neg (by decide)]
  · intro colorKey listed
    simp only [List.mem_cons, List.not_mem_nil, or_false] at listed
    rcases listed with rfl | rfl
    · rw [reads, if_neg (by decide), if_neg (absent (by decide) _)]
      refine if_congr (and_iff_right (by decide)) rfl ?_
      rw [if_neg (absent (by decide) _), if_neg (by decide)]
    · rw [reads, if_neg (by decide)]
      refine if_congr (and_iff_right (by decide)) rfl ?_
      rw [if_neg (absent (by decide) _), if_neg (absent (by decide) _), if_neg (by decide)]
  · rw [reads, if_pos (by decide)]

/-- The values of all other keys are what they were. -/
theorem setUserinfo_keeps {env : Environment} {clientNum : Nat} {userinfo written : Infostring}
    (called : setUserinfo env clientNum true userinfo = some written) {asked : CString}
    (other : ∀ key ∈ ["forcepowers", "color2", "color1", "model", "name"], qStricmp asked key.toList ≠ 0) :
    infoValueForKey written.text asked = infoValueForKey userinfo.text asked := by
  have accepted : (sanitize env clientNum true userinfo).refusal = none := by
    by_contra refused
    rw [setUserinfo_of_refused refused] at called
    cases called
  obtain ⟨valid, set, done⟩ := (accepted_iff env clientNum userinfo).mp accepted
  obtain rfl : set = written := Option.some.inj ((sanitize_accepted valid done).2.symm.trans called)
  have delimited := delimited_of_validate valid
  have all := ((sanitizeText_ok_iff delimited).mp done).2
  simp only [List.forall_mem_cons] at other
  obtain ⟨powers, color2, color1, model, name, _⟩ := other
  rw [(value_putAll (whole_writes env clientNum userinfo.text) delimited all).2, lastWritten_writes, if_neg powers,
    if_neg fun both => color2 both.1, if_neg fun both => color1 both.1, if_neg fun both => model both.1, if_neg name]

/-- A model that `Sanitize` lets through. -/
structure SafeModel (limit : Int) (model : CString) : Prop where
  present : model ≠ []
  printable : ∀ c ∈ model, 0x20 ≤ signedChar c ∧ signedChar c ≤ 0x7E
  short : model.length < limit
  notJedi : ¬ EqNoCase model "jedi_".toList
  start : ∀ bad ∈ ["jedi_/", "rancor", "wampa", "darksidetools"], ¬ EqNoCase (model.take bad.toList.length) bad.toList

theorem safeModel_kyle {limit : Int} (room : 4 < limit) : SafeModel limit "kyle".toList := by
  refine ⟨by decide, by decide, ?_, by decide, by decide⟩
  simpa using room

theorem safeModel_of_good {env : Environment} {val : CString} (room : 4 < env.proxySvModelPathLength)
    (honest : ¬ cheat val) (good : badModel env val = false) : SafeModel env.proxySvModelPathLength val := by
  have short (s : CString) (n : Nat) (bad : CString) (size : bad.length = n) (other : qStricmpn s bad n ≠ 0) :
      ¬ EqNoCase (s.take n) bad := by
    intro same
    apply other
    rw [qStricmpn_eq_zero_iff, ← size, List.take_length, size]
    exact same
  simp only [badModel, Bool.or_eq_false_iff, decide_eq_false_iff_not] at good
  obtain ⟨⟨⟨⟨⟨⟨present, jedi⟩, jediPath⟩, rancor⟩, wampa⟩, ascii⟩, path⟩ := good
  refine ⟨present, ?_, ?_, ?_, ?_⟩
  · intro c member
    have visible : qIsValidAsciiStr val = true := by simpa using ascii
    have one := List.all_eq_true.mp visible c member
    simp only [Bool.not_eq_true', Bool.or_eq_false_iff, decide_eq_false_iff_not] at one
    omega
  · omega
  · intro same
    apply jedi
    rw [qStricmp_eq_zero_iff]
    · exact same
    · rw [same.length_eq]
      decide
  · intro bad listed
    simp only [List.mem_cons, List.not_mem_nil, or_false] at listed
    rcases listed with rfl | rfl | rfl | rfl
    · exact short val 6 _ rfl jediPath
    · exact short val 6 _ rfl rancor
    · exact short val 5 _ rfl wampa
    · exact short val 13 _ rfl honest

/-- What the game reads in a userinfo that `Sanitize` accepted is what was checked and rewritten: its name is the cleaned
and unique one. A reason means that nothing was written. -/
theorem game_reads_checked (env : Environment) (clientNum : Nat) (userinfo : Infostring) :
    ((sanitize env clientNum true userinfo).refusal = none → 4 < env.proxySvModelPathLength →
      ∃ written clean, setUserinfo env clientNum true userinfo = some written ∧
        (sanitize env clientNum true userinfo).cleanName = some clean ∧ clean = cleanName env clientNum userinfo.text ∧
        written.text.length < 1024 ∧ infoValueForKey written.text "name".toList = clean ∧
        SafeModel env.proxySvModelPathLength (infoValueForKey written.text "model".toList) ∧
        (infoValueForKey written.text "color1".toList).length ≤ 15 ∧
        (infoValueForKey written.text "color2".toList).length ≤ 15) ∧
    ∀ validated, (sanitize env clientNum validated userinfo).refusal ≠ none →
      setUserinfo env clientNum validated userinfo = none := by
  refine ⟨?_, fun validated => setUserinfo_of_refused⟩
  intro accepted room
  obtain ⟨valid, written, done⟩ := (accepted_iff env clientNum userinfo).mp accepted
  obtain ⟨same, called⟩ := sanitize_accepted valid done
  have delimited := delimited_of_validate valid
  obtain ⟨honest, all⟩ := (sanitizeText_ok_iff delimited).mp done
  obtain ⟨name, model, colors, _⟩ := reads_written delimited all
  have short (colorKey : CString) (listed : colorKey ∈ ["color1".toList, "color2".toList]) :
      (infoValueForKey written.text colorKey).length ≤ 15 := by
    rw [colors colorKey listed]
    split
    · exact List.length_take_le _ _
    · omega
  refine ⟨written, _, called, by rw [same], rfl, written.fits, name, ?_, short _ (by decide), short _ (by decide)⟩
  rw [model]
  by_cases bad : badModel env (infoValueForKey userinfo.text "model".toList) = true
  · rw [if_pos bad]
    exact safeModel_kyle room
  · rw [if_neg bad]
    exact safeModel_of_good room honest (by simpa using bad)

/-- A userinfo with each field that `Validate` asks for. -/
def userinfoOf (name : CString) : Infostring :=
  .copy ("\\name\\".toList ++ name ++ "\\rate\\25000\\snaps\\40\\model\\Rancor_big".toList ++
    "\\forcepowers\\7-1-032330000000001333\\color1\\4\\color2\\4444444444444444\\handicap\\100".toList ++
    "\\cg_predictItems\\1\\saber1\\single_1\\saber2\\none".toList ++
    "\\char_color_red\\255\\char_color_green\\255\\char_color_blue\\255".toList)

/-- An empty server. -/
def noPlayers : Environment := ⟨false, 64, fun _ => []⟩

theorem game_reads_checked_sample : ∃ written clean,
    setUserinfo noPlayers 0 true (userinfoOf "  *Bob".toList) = some written ∧
      (sanitize noPlayers 0 true (userinfoOf "  *Bob".toList)).cleanName = some clean ∧
      clean = cleanName noPlayers 0 (userinfoOf "  *Bob".toList).text ∧ written.text.length < 1024 ∧
      infoValueForKey written.text "name".toList = clean ∧
      SafeModel 64 (infoValueForKey written.text "model".toList) ∧
      (infoValueForKey written.text "color1".toList).length ≤ 15 ∧
      (infoValueForKey written.text "color2".toList).length ≤ 15 := by
  refine (game_reads_checked noPlayers 0 (userinfoOf "  *Bob".toList)).1 ?_ (by decide)
  -- The text becomes a list first: the kernel takes long to decode a literal.
  rw [userinfoOf]
  repeat rw [String.toList_ofList]
  decide +kernel

end YbeProxy.UserinfoWrites
