import YbeProxy.ActiveClients
import YbeProxy.Runs
import Mathlib.Data.List.Infix

/-!
# Downloads

`Proxy_SV_WriteDownloadToClient` of `Engine/Hooks/server/sv_client.cpp`, with `FS_FilenameCompare` of
`sdk/qcommon/files.cpp`: which files a client is sent, whatever the order of the commands of its downloads.
-/

namespace YbeProxy.Downloads
open YbeProxy.Strings
open YbeProxy.ClientMessage (contains)
open YbeProxy.Cmd
open YbeProxy.ServerCommands
open YbeProxy.Runs (trace final)

def maxQPath : Nat := 64
def svcDownload : Nat := 6

/-! ## File names -/

/-- A character of a file name without its case; one separator stands for all. -/
def pathChar (c : Char) : Char := if c.toUpper = '\\' ∨ c.toUpper = ':' then '/' else c.toUpper

/-- True where the names differ. -/
def fsFilenameCompare : CString → CString → Bool
  | [], [] => false
  | [], _ :: _ => true
  | _ :: _, [] => true
  | c1 :: s1, c2 :: s2 => if pathChar c1 ≠ pathChar c2 then true else fsFilenameCompare s1 s2

def SameFile (a b : CString) : Prop := a.map pathChar = b.map pathChar

instance (a b : CString) : Decidable (SameFile a b) := inferInstanceAs (Decidable (_ = _))

theorem fsFilenameCompare_eq_false_iff (s1 s2 : CString) : fsFilenameCompare s1 s2 = false ↔ SameFile s1 s2 := by
  unfold SameFile
  induction s1, s2 using fsFilenameCompare.induct with
  | case1 => simp [fsFilenameCompare]
  | case2 c s => simp [fsFilenameCompare]
  | case3 c s => simp [fsFilenameCompare]
  | case4 c1 s1 c2 s2 different => simp [fsFilenameCompare, different]
  | case5 c1 s1 c2 s2 same hypothesis => simp [fsFilenameCompare, not_not.mp same, hypothesis]

theorem contains_iff (text part : CString) : contains text part = true ↔ part <:+: text := by
  simp only [contains, List.any_eq_true, List.mem_tails, List.isPrefixOf_iff_prefix]
  constructor
  · rintro ⟨tail, ⟨before, rfl⟩, after, rfl⟩
    exact ⟨before, after, by simp⟩
  · rintro ⟨before, after, rfl⟩
    exact ⟨part ++ after, ⟨before, by simp⟩, after, rfl⟩

theorem fsCheckDirTraversal_iff (checkdir : CString) :
    fsCheckDirTraversal checkdir = true ↔ "../".toList <:+: checkdir ∨ "..\\".toList <:+: checkdir := by
  rw [fsCheckDirTraversal, Bool.or_eq_true, contains_iff, contains_iff]

/-! ## The list of referenced paks -/

/-- The text lists the names with a space between two. -/
structure Lists (text : CString) (names : List CString) : Prop where
  joined : text = [' '].intercalate names
  short : text.length < bigInfoString
  count : names.length ≤ maxStringTokens
  plain : ∀ name ∈ names, Plain name

/-- What follows a name in the list: the end, or the space before the next name. -/
def Ends (text : CString) : Prop := ∀ c ∈ text.head?, c = ' '

/-- The tokens of a list of names are the names, as far as there is room; an empty one leaves none. -/
theorem tokensFrom_intercalate {names : List CString} (plain : ∀ name ∈ names, Plain name) (room : Nat) :
    tokensFrom true room ([' '].intercalate names) = (names.filter (· ≠ [])).take room := by
  induction names generalizing room with
  | nil => simp [List.intercalate, tokensFrom_nil]
  | cons name rest hypothesis =>
    have later (room : Nat) := hypothesis (fun other member => plain other (List.mem_cons_of_mem name member)) room
    -- What follows the name reads as the names that follow it.
    obtain ⟨after, joined, ends, reads⟩ : ∃ after, [' '].intercalate (name :: rest) = name ++ after ∧ Ends after ∧
        ∀ room, tokensFrom true room after = (rest.filter (· ≠ [])).take room := by
      cases rest with
      | nil =>
        refine ⟨[], by simp [List.intercalate], by simp [Ends], ?_⟩
        intro room
        simpa using tokensFrom_nil true room
      | cons next rest =>
        refine ⟨' ' :: [' '].intercalate (next :: rest), by simp [List.intercalate_cons_cons], by simp [Ends], ?_⟩
        intro room
        rw [tokensFrom_space, later]
    rw [joined]
    cases name with
    | nil => simpa using reads room
    | cons c name =>
      cases room with
      | zero => simp [tokensFrom]
      | succ room =>
        rw [(plain (c :: name) List.mem_cons_self).tokensFrom_append ends (List.cons_ne_nil c name) (.inl rfl), reads]
        simp

theorem Lists.tokens {text : CString} {names : List CString} (lists : Lists text names) :
    cmdTokenizeString2 text true = names.filter (· ≠ []) := by
  have few : (names.filter (· ≠ [])).length ≤ maxStringTokens :=
    (List.length_filter_le _ names).trans lists.count
  rw [cmdTokenizeString2, qStrncpyz_of_fits lists.short, lists.joined, tokensFrom_intercalate lists.plain,
    List.take_of_length_le few]

/-! ## Writing a download -/

inductive WriteCall
  | comPrintf (text : CString)
  | msgWriteByte (value : Nat)
  | msgWriteShort (value : Nat)
  | msgWriteLong (value : Int32)
  | msgWriteString (text : CString)
  | originalSvWriteDownloadToClient (download : Int32) (downloadName : CString)

structure Written where
  cl : ClientT
  calls : List WriteCall

/-- What the server has of files where it writes. What the original writes in the message is left out. -/
structure Files where
  fsReferencedPakNames : CString
  originalSvWriteDownloadToClient : ClientT → ClientT

def referenced (referencedPaks downloadName : CString) : Bool :=
  let pakbuf := comSprintf maxQPath downloadName
  match strrchr pakbuf '.' with
  | none => false
  | some pakptr =>
    qStricmp (pakbuf.drop (pakptr + 1)) "pk3".toList = 0 &&
      (cmdTokenizeString2 referencedPaks true).any fun token => !fsFilenameCompare token (pakbuf.take pakptr)

/-- No file is open here, so there is none to close. -/
def refuseDownload (cl : ClientT) : Written :=
  ⟨{ cl with download := 0, downloadName := [] },
    [.comPrintf ("clientDownload: ".toList ++ decimal cl.num ++ " : \"".toList ++ cl.downloadName ++
        "\" is not referenced and cannot be downloaded.\n".toList),
      .msgWriteByte svcDownload, .msgWriteShort 0, .msgWriteLong (-1),
      .msgWriteString (comSprintf 1024 ("File \"".toList ++ cl.downloadName ++
        "\" is not referenced and cannot be downloaded.".toList))]⟩

def proxySvWriteDownloadToClient (files : Files) (cl : ClientT) : Written :=
  if cl.downloadName = [] then ⟨cl, []⟩
  else if cl.download = 0 ∧ referenced files.fsReferencedPakNames cl.downloadName = false then refuseDownload cl
  else ⟨files.originalSvWriteDownloadToClient cl, [.originalSvWriteDownloadToClient cl.download cl.downloadName]⟩

/-- Beside the separators only the case of a character is lost. -/
theorem pathChar_eq_iff {c d : Char} (plain : d ≠ '/' ∧ d ≠ '\\' ∧ d ≠ ':') : pathChar c = d ↔ c.toUpper = d := by
  unfold pathChar
  split
  · rename_i separator
    constructor
    · rintro rfl
      exact absurd rfl plain.1
    · rintro rfl
      rcases separator with back | colon
      · exact absurd back plain.2.1
      · exact absurd colon plain.2.2
  · rfl

theorem toUpper_eq_dot {c : Char} (dot : c.toUpper = '.') : c = '.' := by
  unfold Char.toUpper at dot
  split at dot
  · rename_i lower
    have code := congrArg Char.toNat dot
    rw [Char.toNat] at code
    change (c.val + ('A'.val - 'a'.val)).toNat = _ at code
    have first := UInt32.le_iff_toNat_le.mp lower.1
    have last := UInt32.le_iff_toNat_le.mp lower.2
    rw [UInt32.toNat_add] at code
    simp at first last code
    omega
  · exact dot

theorem pathChar_eq_dot {c : Char} : pathChar c = '.' ↔ c = '.' := by
  rw [pathChar_eq_iff (by decide)]
  constructor
  · exact toUpper_eq_dot
  · rintro rfl
    rfl

theorem map_pathChar_pk3 (ext : CString) : ext.map pathChar = "PK3".toList ↔ EqNoCase ext "pk3".toList := by
  have letters (c : Char) : (pathChar c = 'P' ↔ c.toUpper = 'P') ∧ (pathChar c = 'K' ↔ c.toUpper = 'K') ∧
      (pathChar c = '3' ↔ c.toUpper = '3') :=
    ⟨pathChar_eq_iff (by decide), pathChar_eq_iff (by decide), pathChar_eq_iff (by decide)⟩
  have upper : "pk3".toList.map Char.toUpper = ['P', 'K', '3'] := by decide
  rw [EqNoCase, upper, show "PK3".toList = ['P', 'K', '3'] from rfl]
  simp only [List.map_eq_cons_iff, List.map_eq_nil_iff, letters]

theorem dot_not_mem_map {ext : CString} (last : '.' ∉ ext) : '.' ∉ ext.map pathChar := by
  intro member
  obtain ⟨c, listed, dot⟩ := List.mem_map.mp member
  exact last (pathChar_eq_dot.mp dot ▸ listed)

/-- The name of a pak with its extension is split at the last dot. -/
theorem sameFile_pk3_iff (pak base : CString) {ext : CString} (last : '.' ∉ ext) :
    SameFile (pak ++ ".pk3".toList) (base ++ '.' :: ext) ↔ SameFile pak base ∧ EqNoCase ext "pk3".toList := by
  have left : (pak ++ ".pk3".toList).map pathChar = pak.map pathChar ++ '.' :: "PK3".toList := by
    rw [List.map_append]; rfl
  have right : (base ++ '.' :: ext).map pathChar = base.map pathChar ++ '.' :: ext.map pathChar := by
    rw [List.map_append, List.map_cons, pathChar_eq_dot.mpr rfl]
  unfold SameFile
  rw [left, right, ← map_pathChar_pk3]
  constructor
  · intro same
    have position := congrArg (fun s => strrchr s '.') same
    rw [strrchr_append (by decide), strrchr_append (dot_not_mem_map last)] at position
    obtain ⟨front, back⟩ := List.append_inj same (Option.some.inj position)
    exact ⟨front, (List.cons.inj back).2.symm⟩
  · rintro ⟨front, back⟩
    rw [front, back]

/-- A name that fits its buffer is served where it is a name of the list with the extension. -/
theorem referenced_iff {text : CString} {names : List CString} (lists : Lists text names) {downloadName : CString}
    (fits : downloadName.length < maxQPath) :
    referenced text downloadName = true ↔ ∃ pak ∈ names, pak ≠ [] ∧ SameFile (pak ++ ".pk3".toList) downloadName := by
  have whole : comSprintf maxQPath downloadName = downloadName := List.take_of_length_le (by omega)
  simp only [referenced, whole]
  cases found : strrchr downloadName '.' with
  | none =>
    have dotless : '.' ∉ downloadName := strrchr_eq_none_iff.mp found
    simp only [Bool.false_eq_true, false_iff]
    rintro ⟨pak, listed, nonempty, same⟩
    have dot : '.' ∈ (pak ++ ".pk3".toList).map pathChar := by
      rw [List.map_append]
      exact List.mem_append_right _ (by decide)
    rw [same] at dot
    exact dot_not_mem_map dotless dot
  | some pakptr =>
    obtain ⟨base, ext, rfl, last, rfl⟩ := strrchr_eq_some found
    have front : (base ++ '.' :: ext).take base.length = base := List.take_left' rfl
    have back : (base ++ '.' :: ext).drop (base.length + 1) = ext := by
      rw [← List.drop_drop, List.drop_left' rfl]; rfl
    have short : ext.length < 99999 := by
      simp only [List.length_append, List.length_cons, maxQPath] at fits
      omega
    simp only [front, back, lists.tokens, Bool.and_eq_true, decide_eq_true_eq, List.any_eq_true, List.mem_filter,
      Bool.not_eq_true', fsFilenameCompare_eq_false_iff, qStricmp_eq_zero_iff short, sameFile_pk3_iff _ base last]
    constructor
    · rintro ⟨extension, pak, ⟨listed, nonempty⟩, same⟩
      exact ⟨pak, listed, nonempty, same, extension⟩
    · rintro ⟨pak, listed, nonempty, same, extension⟩
      exact ⟨extension, pak, ⟨listed, nonempty⟩, same⟩

/-! ## Runs -/

inductive Command
  | download | nextdl | stopdl | donedl

def Command.perform (env : Env) (tokens : List CString) : Command → Work → Work
  | .download => proxySvBeginDownloadF env tokens
  | .nextdl => proxySvNextDownloadF env tokens
  | .stopdl => proxySvStopDownloadF
  | .donedl => proxySvDoneDownloadF env

inductive Event
  | command (env : Env) (tokens : List CString) (name : Command)
  | write (files : Files)

/-- A client takes a command, or a download is written to it. -/
def step (cl : ClientT) : Event → List WriteCall × ClientT
  | .command env tokens name => ([], (name.perform env tokens ⟨cl, []⟩).cl)
  | .write files => ((proxySvWriteDownloadToClient files cl).calls, (proxySvWriteDownloadToClient files cl).cl)

/-- The name is in a buffer of its size. -/
def Fits (cl : ClientT) : Prop := cl.downloadName.length < maxQPath

/-- What is relied on of the engine: a download begins with a copy of the argument, one that is written loses its name
at most, and no other function leaves a name that the buffer does not hold. -/
def Event.Documented : Event → Prop
  | .command env _ _ =>
    (∀ tokens cl, (env.originalSvBeginDownload tokens cl).downloadName =
      qStrncpyz (cmdArgv tokens 1) maxQPath) ∧
    (∀ cl, Fits cl → Fits (env.originalSvDoneDownload cl)) ∧
    ∀ cl reason, Fits cl → Fits (env.svDropClient cl reason)
  | .write files => ∀ cl, (files.originalSvWriteDownloadToClient cl).downloadName = cl.downloadName ∨
      (files.originalSvWriteDownloadToClient cl).downloadName = []

theorem freeBlocks_downloadName (blocks : List Nat) (work : Work) :
    (blocks.foldl freeBlock work).cl.downloadName = work.cl.downloadName := by
  induction blocks generalizing work with
  | nil => rfl
  | cons block rest hypothesis =>
    rw [List.foldl_cons, hypothesis, freeBlock]
    split <;> rfl

theorem fits_of_empty {cl : ClientT} (empty : cl.downloadName = []) : Fits cl := by
  rw [Fits, empty]
  decide

theorem closeDownload_fits (work : Work) : Fits (proxySvCloseDownload work).cl := by
  refine fits_of_empty ?_
  rw [proxySvCloseDownload, freeBlocks_downloadName]

theorem step_fits {event : Event} (documented : event.Documented) {cl : ClientT} (fits : Fits cl) :
    Fits (step cl event).2 := by
  cases event with
  | command env tokens name =>
    obtain ⟨begins, done, drop⟩ := documented
    cases name with
    | download =>
      simp only [step, Command.perform, proxySvBeginDownloadF]
      split
      · exact fits
      split
      · exact fits
      · rw [Fits, begins tokens cl]
        exact length_qStrncpyz_lt _ (by decide)
    | nextdl =>
      simp only [step, Command.perform, proxySvNextDownloadF]
      split
      · exact fits
      split
      · split
        · exact closeDownload_fits _
        · exact fits
      · exact drop cl _ fits
    | stopdl =>
      simp only [step, Command.perform, proxySvStopDownloadF]
      split
      · exact fits
      · exact closeDownload_fits _
    | donedl =>
      simp only [step, Command.perform, proxySvDoneDownloadF]
      split
      · exact fits
      · exact done cl fits
  | write files =>
    simp only [step, proxySvWriteDownloadToClient]
    split
    · exact fits
    split
    · exact fits_of_empty rfl
    · rcases documented cl with same | empty
      · rw [Fits, same]
        exact fits
      · exact fits_of_empty empty

theorem write_of_referenced {files : Files} {cl : ClientT} (nonempty : cl.downloadName ≠ [])
    (allowed : referenced files.fsReferencedPakNames cl.downloadName = true) :
    (proxySvWriteDownloadToClient files cl).calls =
      [.originalSvWriteDownloadToClient cl.download cl.downloadName] := by
  rw [proxySvWriteDownloadToClient, if_neg nonempty, if_neg (by simp [allowed])]

/-- A client with no open file is handed to the original with the name of a referenced pak only. -/
theorem write_referenced {files : Files} {names : List CString} (lists : Lists files.fsReferencedPakNames names)
    {cl : ClientT} (fits : Fits cl) {downloadName : CString}
    (entered : .originalSvWriteDownloadToClient 0 downloadName ∈ (proxySvWriteDownloadToClient files cl).calls) :
    downloadName = cl.downloadName ∧ ∃ pak ∈ names, SameFile (pak ++ ".pk3".toList) downloadName := by
  rw [proxySvWriteDownloadToClient] at entered
  split at entered
  · cases entered
  split at entered
  · simp [refuseDownload] at entered
  · rename_i nonempty opened
    simp only [List.mem_singleton, WriteCall.originalSvWriteDownloadToClient.injEq] at entered
    obtain ⟨closed, rfl⟩ := entered
    have allowed : referenced files.fsReferencedPakNames cl.downloadName = true := by
      cases answer : referenced files.fsReferencedPakNames cl.downloadName with
      | true => rfl
      | false => exact absurd ⟨closed.symm, answer⟩ opened
    obtain ⟨pak, listed, _, same⟩ := (referenced_iff lists fits).mp allowed
    exact ⟨rfl, pak, listed, same⟩

theorem beginDownload_refused {env : Env} {tokens : List CString} {cl : ClientT}
    (refused : cl.state = .csActive ∨ "../".toList <:+: cmdArgv tokens 1 ∨ "..\\".toList <:+: cmdArgv tokens 1) :
    step cl (.command env tokens .download) = ([], cl) := by
  simp only [step, Command.perform, proxySvBeginDownloadF]
  split
  · rfl
  · rename_i inactive
    have traversal := (fsCheckDirTraversal_iff _).mpr (refused.resolve_left inactive)
    rw [if_pos (Or.inr (Or.inl traversal))]

theorem only_referenced_paks_are_served {events : List Event} (documented : ∀ event ∈ events, event.Documented)
    {cl : ClientT} (fits : Fits cl) :
    (∀ files calls, (.write files, calls) ∈ trace step cl events →
      ∀ names, Lists files.fsReferencedPakNames names →
      ∀ downloadName, .originalSvWriteDownloadToClient 0 downloadName ∈ calls →
      ∃ pak ∈ names, SameFile (pak ++ ".pk3".toList) downloadName) ∧
    ∀ before after env tokens, events = before ++ .command env tokens .download :: after →
      (final step cl before).state = .csActive ∨
        "../".toList <:+: cmdArgv tokens 1 ∨ "..\\".toList <:+: cmdArgv tokens 1 →
      final step cl (before ++ [.command env tokens .download]) = final step cl before := by
  constructor
  · intro files calls answered names lists downloadName entered
    obtain ⟨before, after, rfl, answer⟩ := Runs.mem_trace step answered
    have reached : Fits (final step cl before) := by
      refine Runs.final_keeps step Fits ?_ cl fits
      intro event member state
      exact step_fits (documented event (List.mem_append_left _ member))
    dsimp only at answer
    rw [answer] at entered
    exact (write_referenced lists reached entered).2
  · intro before after env tokens _ refused
    rw [Runs.final_append, final, final, beginDownload_refused refused]

def sampleFiles : Files := ⟨"base/assets0 base/mod".toList, fun cl => { cl with download := 1 }⟩

def copyingEnv : Env :=
  { ActiveClients.sampleEnv with
    originalSvBeginDownload := fun tokens cl =>
      { cl with download := 0, downloadName := qStrncpyz (cmdArgv tokens 1) maxQPath } }

def sampleDownloader : ClientT :=
  { ClientMessage.sampleClient, ActiveClients.sampleRest with state := .csPrimed, downloadName := [], download := 0 }

/-- A pak of the list is asked for and written, then one outside the directories of the server. -/
def sampleEvents : List Event :=
  [.command copyingEnv ["download".toList, "Base\\mod.pk3".toList] .download, .write sampleFiles,
    .command copyingEnv ["download".toList, "../mod.pk3".toList] .download]

theorem only_referenced_paks_are_served_sample :
    (.write sampleFiles, [.originalSvWriteDownloadToClient 0 "Base\\mod.pk3".toList]) ∈
        trace step sampleDownloader sampleEvents ∧
      (∃ pak ∈ ["base/assets0".toList, "base/mod".toList], SameFile (pak ++ ".pk3".toList) "Base\\mod.pk3".toList) ∧
      final step sampleDownloader sampleEvents = final step sampleDownloader (sampleEvents.take 2) := by
  have lists : Lists sampleFiles.fsReferencedPakNames ["base/assets0".toList, "base/mod".toList] := by
    refine ⟨by decide, by decide, by decide, ?_⟩
    unfold Plain
    decide
  have begun : (step sampleDownloader (.command copyingEnv ["download".toList, "Base\\mod.pk3".toList] .download)).2 =
      { sampleDownloader with downloadName := "Base\\mod.pk3".toList } := rfl
  have served : (.write sampleFiles, [.originalSvWriteDownloadToClient 0 "Base\\mod.pk3".toList]) ∈
      trace step sampleDownloader sampleEvents := by
    refine List.mem_cons_of_mem _ (List.mem_cons.mpr (Or.inl ?_))
    have allowed : referenced sampleFiles.fsReferencedPakNames "Base\\mod.pk3".toList = true :=
      (referenced_iff lists (by decide)).mpr ⟨_, List.mem_cons_of_mem _ List.mem_cons_self, by decide, by decide⟩
    have written := @write_of_referenced sampleFiles
      { sampleDownloader with downloadName := "Base\\mod.pk3".toList } (List.cons_ne_nil _ _) allowed
    rw [begun]
    exact congrArg (Prod.mk _) written.symm
  have documented : ∀ event ∈ sampleEvents, event.Documented := by
    have commands (tokens : List CString) (name : Command) : (Event.command copyingEnv tokens name).Documented :=
      ⟨fun _ _ => rfl, fun _ fits => fits, fun _ _ fits => fits⟩
    have write : (Event.write sampleFiles).Documented := fun _ => Or.inl rfl
    simp only [sampleEvents, List.forall_mem_cons]
    exact ⟨commands _ _, write, commands _ _, by simp⟩
  obtain ⟨paks, kept⟩ := @only_referenced_paks_are_served _ documented sampleDownloader (fits_of_empty rfl)
  exact ⟨served, paks _ _ served _ lists _ List.mem_cons_self,
    kept (sampleEvents.take 2) [] _ _ rfl (Or.inr (Or.inl ⟨[], _, rfl⟩))⟩

end YbeProxy.Downloads
