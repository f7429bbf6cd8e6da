import YbeProxy.Downloads
import YbeProxy.Paths

/-!
# The writeconfig command

`Proxy_Com_WriteConfig_f` of `Engine/Hooks/qcommon/common.cpp`, with `COM_CompareExtension` and `COM_DefaultExtension` of
`sdk/qcommon/q_shared.cpp`: which files it writes, by what their names resolve to.
-/

namespace YbeProxy.WriteConfig
open YbeProxy.Strings YbeProxy.Paths
open YbeProxy.Cmd (cmdArgv cmdTokenizeString2)
open YbeProxy.ServerCommands (fsCheckDirTraversal)
open YbeProxy.Downloads

def comCompareExtension (name ext : CString) : Bool :=
  ext.length ≤ name.length && qStricmp (name.drop (name.length - ext.length)) ext = 0

/-- A dot counts behind the last slash only. -/
def comDefaultExtension (path : CString) (maxSize : ℕ) (extension : CString) : CString :=
  match strrchr path '.' with
  | none => qStrcat path maxSize extension
  | some dot =>
    match strrchr path '/' with
    | none => path
    | some slash => if slash < dot then path else qStrcat path maxSize extension

inductive Call
  | comPrintf (text : CString)
  | comWriteConfigToFile (filename : CString)
  deriving DecidableEq

def proxyComWriteConfigF (tokens : List CString) : List Call :=
  if tokens.length ≠ 2 then [.comPrintf "Usage: writeconfig <filename>\n".toList]
  else
    let filename := comDefaultExtension (qStrncpyz (cmdArgv tokens 1) maxQPath) maxQPath ".cfg".toList
    if !comCompareExtension filename ".cfg".toList then
      [.comPrintf "Com_WriteConfig_f: Only the \".cfg\" extension is supported by this command!\n".toList]
    else if fsCheckDirTraversal filename then
      [.comPrintf ("Com_WriteConfig_f: The filename \"".toList ++ filename ++ "\" must not contain \"..\"!\n".toList)]
    else if !fsFilenameCompare filename "mpdefault.cfg".toList || !fsFilenameCompare filename "default.cfg".toList then
      [.comPrintf ("^3Com_WriteConfig_f: The filename \"".toList ++ filename ++
        "\" is reserved! Please choose another name.\n".toList)]
    else [.comPrintf ("Writing ".toList ++ filename ++ ".\n".toList), .comWriteConfigToFile filename]

/-! ## Where a file may be written -/

def isSeparator (c : Char) : Bool := c = '/' || c = '\\'

/-- The name of a default configuration. -/
def Reserved (name : CString) : Prop := EqNoCase name "mpdefault.cfg".toList ∨ EqNoCase name "default.cfg".toList

/-- A configuration of the directory of the game or of one inside, and no default one. -/
structure Stays (filename : CString) : Prop where
  cfg : ∃ name extension, filename = name ++ extension ∧ EqNoCase extension ".cfg".toList
  inside : "..".toList ∉ resolve isSeparator '.' filename
  free : ∀ name, resolve isSeparator '.' filename = [name] → ¬ Reserved name

/-- No dot comes behind the last slash. -/
def NoExtension (path : CString) : Prop := ∀ before after, path = before ++ '.' :: after → '.' ∉ after → '/' ∈ after

/-- A reserved name behind a beginning that leads nowhere; its extension may be left to the default one. -/
def Disguised (arg : CString) : Prop :=
  ∃ lead name, arg.take 63 = lead ++ name ∧ Idle isSeparator '.' lead ∧ lead ≠ [] ∧
    (Reserved name ∨ Reserved (name ++ ".cfg".toList) ∧ (arg.take 63).length ≤ 59 ∧ NoExtension (arg.take 63))

/-! ## The checks -/

theorem comCompareExtension_iff {name : CString} (short : name.length < 99999) (ext : CString) :
    comCompareExtension name ext = true ↔ ∃ front extension, name = front ++ extension ∧ EqNoCase extension ext := by
  have dropped : (name.drop (name.length - ext.length)).length < 99999 := by
    rw [List.length_drop]
    omega
  rw [comCompareExtension, Bool.and_eq_true, decide_eq_true_eq, decide_eq_true_eq, qStricmp_eq_zero_iff dropped]
  constructor
  · rintro ⟨_, same⟩
    exact ⟨name.take (name.length - ext.length), _, (List.take_append_drop _ _).symm, same⟩
  · rintro ⟨front, extension, rfl, same⟩
    have length := same.length_eq
    rw [List.length_append]
    refine ⟨by omega, ?_⟩
    have place : front.length + extension.length - ext.length = front.length := by omega
    rwa [place, List.drop_left]

theorem comDefaultExtension_of_none {path : CString} (none : NoExtension path) (maxSize : ℕ) (extension : CString) :
    comDefaultExtension path maxSize extension = qStrcat path maxSize extension := by
  unfold comDefaultExtension
  cases dotted : strrchr path '.' with
  | none => rfl
  | some dot =>
    obtain ⟨before, after, rfl, last, rfl⟩ := strrchr_eq_some dotted
    obtain ⟨slash, slashed⟩ := Option.ne_none_iff_exists'.mp (mt strrchr_eq_none_iff.mp (not_not.mpr (none _ _ rfl last)))
    obtain ⟨middle, rest, rfl, lastSlash, -⟩ := strrchr_eq_some slashed
    have split : before ++ '.' :: (middle ++ '/' :: rest) = (before ++ '.' :: middle) ++ '/' :: rest := by simp
    have found := strrchr_append (w := before ++ '.' :: middle) lastSlash
    rw [split, found]
    refine if_neg ?_
    rw [List.length_append]
    omega

theorem comDefaultExtension_of_extension {before after : CString} (last : '.' ∉ after) (plain : '/' ∉ after)
    (maxSize : ℕ) (extension : CString) :
    comDefaultExtension (before ++ '.' :: after) maxSize extension = before ++ '.' :: after := by
  unfold comDefaultExtension
  rw [strrchr_append last]
  cases slashed : strrchr (before ++ '.' :: after) '/' with
  | none => rfl
  | some slash =>
    obtain ⟨front, rest, split, -, rfl⟩ := strrchr_eq_some slashed
    refine if_pos ?_
    by_contra late
    have place : (before ++ '.' :: after)[front.length]? = some '/' := by simp [split]
    rw [List.getElem?_append_right (not_lt.mp late)] at place
    have member := List.mem_of_getElem? place
    simp [plain] at member

theorem sameFile_iff {name : CString} (plain : ∀ d ∈ name.map Char.toUpper, d ≠ '/' ∧ d ≠ '\\' ∧ d ≠ ':') (text : CString) :
    SameFile text name ↔ EqNoCase text name := by
  unfold SameFile EqNoCase
  induction text generalizing name with
  | nil => simp [eq_comm]
  | cons c text hypothesis =>
    cases name with
    | nil => simp
    | cons d name =>
      rw [List.map_cons, List.forall_mem_cons] at plain
      have upper : pathChar d = d.toUpper := (pathChar_eq_iff plain.1).mpr rfl
      simp only [List.map_cons, List.cons.injEq, hypothesis plain.2, upper, pathChar_eq_iff plain.1]

theorem reserved_iff (filename : CString) : Reserved filename ↔
    (!fsFilenameCompare filename "mpdefault.cfg".toList || !fsFilenameCompare filename "default.cfg".toList) = true := by
  rw [Bool.or_eq_true, Bool.not_eq_true', Bool.not_eq_true', fsFilenameCompare_eq_false_iff,
    fsFilenameCompare_eq_false_iff, sameFile_iff (by decide), sameFile_iff (by decide), Reserved]

theorem fsCheckDirTraversal_eq_false_iff {filename : CString} : fsCheckDirTraversal filename = false ↔
    ∀ c, isSeparator c = true → ¬ "..".toList ++ [c] <:+: filename := by
  rw [← Bool.not_eq_true, fsCheckDirTraversal_iff, not_or]
  constructor
  · rintro ⟨slash, backslash⟩ c separates
    have either : c = '/' ∨ c = '\\' := by simpa [isSeparator] using separates
    rcases either with rfl | rfl
    · exact slash
    · exact backslash
  · intro guarded
    exact ⟨guarded '/' rfl, guarded '\\' rfl⟩

/-! ## Reserved names -/

theorem plain_of_eqNoCase {text name : CString} (plain : ∀ d ∈ name.map Char.toUpper, isSeparator d = false)
    (same : EqNoCase text name) : ∀ c ∈ text, isSeparator c = false := by
  intro c member
  have listed : c.toUpper ∈ name.map Char.toUpper := same ▸ List.mem_map_of_mem member
  by_contra separates
  have either : c = '/' ∨ c = '\\' := by simpa [isSeparator, -not_or, or_iff_not_imp_left] using separates
  rcases either with rfl | rfl
  · exact absurd (plain _ listed) (by decide)
  · exact absurd (plain _ listed) (by decide)

theorem cfg_of_eqNoCase {name stem : CString} (same : EqNoCase name (stem ++ ".cfg".toList)) :
    ∃ front extension, name = front ++ extension ∧ EqNoCase extension ".cfg".toList := by
  rw [EqNoCase, List.map_append] at same
  obtain ⟨front, extension, split, _, ends⟩ := List.map_eq_append_iff.mp same
  exact ⟨front, extension, split, ends⟩

namespace Reserved
variable {name : CString} (reserved : Reserved name)
include reserved

theorem plain : ∀ c ∈ name, isSeparator c = false := by
  rcases reserved with same | same
  · exact plain_of_eqNoCase (by decide) same
  · exact plain_of_eqNoCase (by decide) same

theorem cfg : ∃ front extension, name = front ++ extension ∧ EqNoCase extension ".cfg".toList := by
  rcases reserved with same | same
  · exact @cfg_of_eqNoCase name "mpdefault".toList same
  · exact @cfg_of_eqNoCase name "default".toList same

theorem length : 11 ≤ name.length := by
  rcases reserved with same | same
  · exact same.length_eq ▸ by decide
  · exact same.length_eq ▸ by decide

theorem not_up : ¬ "..".toList <:+ name := by
  intro found
  have upper := found.map Char.toUpper
  rcases reserved with same | same
  · rw [same] at upper
    exact absurd upper (by decide)
  · rw [same] at upper
    exact absurd upper (by decide)

theorem not_noExtension (lead : CString) : ¬ NoExtension (lead ++ name) := by
  intro none
  obtain ⟨front, extension, rfl, same⟩ := reserved.cfg
  have upper : extension.map Char.toUpper = '.' :: "CFG".toList := same
  obtain ⟨dot, after, rfl, first, letters⟩ := List.map_eq_cons_iff.mp upper
  obtain rfl := toUpper_eq_dot first
  have absent (c : Char) (other : c.toUpper ∉ "CFG".toList) : c ∉ after := by
    intro member
    rw [← letters] at other
    exact other (List.mem_map_of_mem member)
  have slashed := none (lead ++ front) after (by simp) (absent '.' (by decide))
  exact absent '/' (by decide) slashed

end Reserved

/-! ## The name that is checked -/

/-- The name of an argument, in its buffer. -/
def target (arg : CString) : CString := comDefaultExtension (qStrncpyz arg maxQPath) maxQPath ".cfg".toList

theorem target_cases (arg : CString) :
    ((arg.take 63).length ≤ 59 ∧ NoExtension (arg.take 63) ∧ target arg = arg.take 63 ++ ".cfg".toList) ∨
      ¬((arg.take 63).length ≤ 59 ∧ NoExtension (arg.take 63)) ∧ target arg = arg.take 63 := by
  have copied : qStrncpyz arg maxQPath = arg.take 63 := rfl
  have extension : ".cfg".toList.length = 4 := rfl
  have size : maxQPath = 64 := rfl
  rw [target, copied]
  by_cases none : NoExtension (arg.take 63)
  · rw [comDefaultExtension_of_none none]
    by_cases fits : (arg.take 63).length ≤ 59
    · exact .inl ⟨fits, none, qStrcat_of_fits (by omega)⟩
    · exact .inr ⟨fun both => fits both.1, qStrcat_of_full (by omega)⟩
  · refine .inr ⟨fun both => none both.2, ?_⟩
    simp only [NoExtension, not_forall] at none
    obtain ⟨before, after, split, last, plain⟩ := none
    rw [split, comDefaultExtension_of_extension last plain]

theorem length_target_le (arg : CString) : (target arg).length ≤ 63 := by
  have cut : (arg.take 63).length ≤ 63 := List.length_take_le 63 arg
  rcases target_cases arg with ⟨fits, _, same⟩ | ⟨_, same⟩
  · rw [same, List.length_append]
    exact Nat.add_le_add fits (by decide : ".cfg".toList.length ≤ 4)
  · rw [same]
    exact cut

theorem mem_proxyComWriteConfigF {tokens : List CString} {filename : CString} :
    .comWriteConfigToFile filename ∈ proxyComWriteConfigF tokens ↔ tokens.length = 2 ∧
      filename = target (cmdArgv tokens 1) ∧
      (∃ front extension, filename = front ++ extension ∧ EqNoCase extension ".cfg".toList) ∧
      fsCheckDirTraversal filename = false ∧ ¬ Reserved filename := by
  have short : (target (cmdArgv tokens 1)).length < 99999 := Nat.lt_of_le_of_lt (length_target_le _) (by decide)
  unfold proxyComWriteConfigF
  rw [← target]
  extract_lets named
  have ends := comCompareExtension_iff short ".cfg".toList
  constructor
  · intro member
    split at member
    · simp at member
    rename_i count
    split at member
    · simp at member
    rename_i cfg
    split at member
    · simp at member
    rename_i inside
    split at member
    · simp at member
    rename_i free
    obtain rfl : filename = named := by simpa using member
    exact ⟨not_not.mp count, rfl, ends.mp (by simpa using cfg), by simpa using inside,
      fun reserved => free ((reserved_iff _).mp reserved)⟩
  · rintro ⟨count, rfl, cfg, inside, free⟩
    have named' : comCompareExtension named ".cfg".toList = true := ends.mpr cfg
    have passes : ¬ (!comCompareExtension named ".cfg".toList) = true := by
      rw [named']
      exact Bool.false_ne_true
    have stays : ¬ fsCheckDirTraversal named = true := Bool.eq_false_iff.mp inside
    rw [if_neg (not_not.mpr count), if_neg passes, if_neg stays, if_neg (mt (reserved_iff named).mpr free)]
    simp [named]

/-! ## Names in disguise -/

/-- What is written of a file in the directory of the game that is a default configuration there. -/
def Hidden (filename : CString) : Prop :=
  ∃ lead name, filename = lead ++ name ∧ Idle isSeparator '.' lead ∧ lead ≠ [] ∧ Reserved name

theorem hidden_target_iff (arg : CString) : Hidden (target arg) ↔ Disguised arg := by
  rcases target_cases arg with ⟨fits, none, same⟩ | ⟨other, same⟩
  · rw [same]
    constructor
    · rintro ⟨lead, name, split, idle, nonempty, reserved⟩
      have length := reserved.length
      have ends : ".cfg".toList <:+ name := by
        refine List.suffix_of_suffix_length_le (split ▸ List.suffix_append _ _) (List.suffix_append lead name) ?_
        exact Nat.le_trans (by decide) length
      obtain ⟨stem, rfl⟩ := ends
      rw [← List.append_assoc] at split
      exact ⟨lead, stem, List.append_cancel_right split, idle, nonempty, .inr ⟨reserved, fits, none⟩⟩
    · rintro ⟨lead, name, split, idle, nonempty, reserved | ⟨reserved, _⟩⟩
      · rw [split] at none
        exact absurd none (reserved.not_noExtension lead)
      · exact ⟨lead, name ++ ".cfg".toList, by rw [split, List.append_assoc], idle, nonempty, reserved⟩
  · rw [same]
    constructor
    · rintro ⟨lead, name, split, idle, nonempty, reserved⟩
      exact ⟨lead, name, split, idle, nonempty, .inl reserved⟩
    · rintro ⟨lead, name, split, idle, nonempty, reserved | ⟨_, fits, none⟩⟩
      · exact ⟨lead, name, split, idle, nonempty, reserved⟩
      · exact absurd ⟨fits, none⟩ other

/-- A name in disguise passes every check. -/
theorem Hidden.passes {filename : CString} (hidden : Hidden filename) :
    (∃ front extension, filename = front ++ extension ∧ EqNoCase extension ".cfg".toList) ∧
      fsCheckDirTraversal filename = false ∧ ¬ Reserved filename := by
  obtain ⟨lead, name, rfl, idle, nonempty, reserved⟩ := hidden
  refine ⟨?_, ?_, ?_⟩
  · obtain ⟨front, extension, rfl, same⟩ := reserved.cfg
    exact ⟨lead ++ front, extension, by rw [List.append_assoc], same⟩
  · obtain ⟨parts, split, nowhere⟩ := idle.parts_append name
    rw [List.splitOnP_eq_singleton reserved.plain] at split
    rw [fsCheckDirTraversal_eq_false_iff]
    intro c separates found
    obtain ⟨part, member, ends⟩ := exists_part_of_infix (by decide) separates found
    rw [split, List.mem_append, List.mem_singleton] at member
    rcases member with idle | rfl
    · rcases nowhere part idle with rfl | rfl
      · exact absurd ends (by decide)
      · exact absurd ends (by decide)
    · exact reserved.not_up ends
  · intro whole
    obtain ⟨c, member, separates⟩ := idle.exists_sep nonempty
    rw [whole.plain c (List.mem_append_left name member)] at separates
    cases separates

theorem Hidden.resolves {filename : CString} (hidden : Hidden filename) :
    ∃ name, resolve isSeparator '.' filename = [name] ∧ Reserved name := by
  obtain ⟨lead, name, rfl, idle, _, reserved⟩ := hidden
  have length := reserved.length
  refine ⟨name, ?_, reserved⟩
  rw [idle.resolve_append, resolve_name reserved.plain]
  · rintro rfl
    exact absurd length (by decide)
  · rintro rfl
    exact absurd length (by decide)

section Written
variable {filename : CString}
  (cfg : ∃ front extension, filename = front ++ extension ∧ EqNoCase extension ".cfg".toList)
include cfg

theorem up_not_mem_resolve (checked : fsCheckDirTraversal filename = false) :
    "..".toList ∉ resolve isSeparator '.' filename := by
  obtain ⟨front, extension, rfl, same⟩ := cfg
  intro member
  rw [resolve, List.mem_filter] at member
  refine not_mem_parts (plain_of_eqNoCase (by decide) same) ?_ front ?_ member.1
  · intro ends
    have upper := ends.map Char.toUpper
    rw [same] at upper
    exact absurd upper (by decide)
  · exact fsCheckDirTraversal_eq_false_iff.mp checked

/-- What resolves to a reserved name is one, or is one in disguise. -/
theorem hidden_of_resolve {name : CString} (free : ¬ Reserved filename)
    (resolved : resolve isSeparator '.' filename = [name]) (reserved : Reserved name) : Hidden filename := by
  obtain ⟨front, extension, rfl, same⟩ := cfg
  have long : 2 ≤ extension.length := same.length_eq ▸ by decide
  obtain ⟨init, base, ends, alone⟩ := @resolve_cases _ _ '.' _ (plain_of_eqNoCase (by decide) same) _ long front
  rw [resolved] at ends
  obtain ⟨rfl, last⟩ := List.append_inj' (show [] ++ [name] = init ++ [base] from ends) rfl
  obtain rfl := List.singleton_inj.mp last
  obtain ⟨lead, idle, split⟩ := alone rfl
  by_cases none : lead = []
  · rw [none, List.nil_append] at split
    rw [split] at free
    exact absurd reserved free
  · exact ⟨lead, name, split, idle, none, reserved⟩

theorem stays_iff (checked : fsCheckDirTraversal filename = false) (free : ¬ Reserved filename) :
    Stays filename ↔ ¬ Hidden filename := by
  constructor
  · rintro ⟨_, _, alone⟩ hidden
    obtain ⟨name, resolved, reserved⟩ := hidden.resolves
    exact alone name resolved reserved
  · intro unhidden
    refine ⟨cfg, up_not_mem_resolve cfg checked, ?_⟩
    intro name resolved reserved
    exact unhidden (hidden_of_resolve cfg free resolved reserved)

end Written

/-! ## What writeconfig writes -/

/-- Every file that is written is in its place, unless the argument is a reserved name in disguise. -/
theorem writeConfig_iff (tokens : List CString) :
    (∀ filename, .comWriteConfigToFile filename ∈ proxyComWriteConfigF tokens → Stays filename) ↔
      ¬(tokens.length = 2 ∧ Disguised (cmdArgv tokens 1)) := by
  rw [← hidden_target_iff]
  constructor
  · rintro stays ⟨count, hidden⟩
    obtain ⟨cfg, checked, free⟩ := hidden.passes
    have written := mem_proxyComWriteConfigF.mpr ⟨count, rfl, cfg, checked, free⟩
    exact (stays_iff cfg checked free).mp (stays _ written) hidden
  · intro plain filename written
    obtain ⟨count, rfl, cfg, checked, free⟩ := mem_proxyComWriteConfigF.mp written
    exact (stays_iff cfg checked free).mpr fun hidden => plain ⟨count, hidden⟩

/-- The default configuration is written over. -/
theorem writeConfig_overwrites :
    cmdTokenizeString2 "writeconfig ./mpdefault.cfg".toList false = ["writeconfig".toList, "./mpdefault.cfg".toList] ∧
      .comWriteConfigToFile "./mpdefault.cfg".toList ∈
        proxyComWriteConfigF ["writeconfig".toList, "./mpdefault.cfg".toList] ∧
      resolve isSeparator '.' "./mpdefault.cfg".toList = ["mpdefault.cfg".toList] ∧
      ¬ Stays "./mpdefault.cfg".toList := by
  have resolved : resolve isSeparator '.' "./mpdefault.cfg".toList = ["mpdefault.cfg".toList] := by decide +kernel
  refine ⟨by decide +kernel, by decide +kernel, resolved, ?_⟩
  rintro ⟨_, _, free⟩
  exact free _ resolved (.inl rfl)

end YbeProxy.WriteConfig
