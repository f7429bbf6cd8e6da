import YbeProxy.Redirect

/-!
# The console and its log

`Proxy_Com_Printf` of `Engine/Hooks/qcommon/files.cpp` as a whole, with the log file: the first message opens
`qconsole.log`, which prints itself. A call that does not return has no result for any number of nested calls.
-/

namespace YbeProxy.ConsoleOutput
open YbeProxy.Strings YbeProxy.Redirect

structure Console extends Common where
  /-- What was written to `qconsole.log`, once it is open. -/
  logfile : Option (List CString)
  comLogfile : Int
  openingQconsole : Bool

def Console.init (comLogfile : Int) : Console := ⟨⟨none, [], []⟩, none, comLogfile, false⟩

/-- The file system at a call. -/
structure Files where
  initialized : Bool
  /-- `FS_FOpenFileWrite` opens `qconsole.log`. -/
  opens : Bool
  /-- What `FS_FOpenFileWrite` prints meanwhile, with `fs_debug`. -/
  debug : List CString
  asctime : CString

def Files.notice (files : Files) : CString := "logfile opened on ".toList ++ files.asctime ++ "\n".toList
def failure : CString := "Opening qconsole.log failed!\n".toList

/-- `FS_Write` to the log, if there is one. It prints only where it cannot write, and here it can. -/
def fsWrite (files : Files) (msg : CString) (console : Console) : Console :=
  { console with
    openingQconsole := false
    logfile := if files.initialized then console.logfile.map (· ++ [msg]) else console.logfile }

/-- The log is opened by this message. -/
def Console.needsLog (files : Files) (console : Console) : Bool :=
  console.logfile.isNone && files.initialized && !console.openingQconsole

/-- `Proxy_Com_Printf`, with at most so many calls inside each other. -/
def proxyComPrintf (files : Files) : Nat → Console → CString → Option Console
  | 0, _, _ => none
  | fuel + 1, console, formatted =>
    let msg := comSprintf maxPrintMsg formatted
    let printed := { console with toCommon := Redirect.proxyComPrintf console.toCommon formatted }
    if console.redirect.isSome || console.comLogfile = 0 then some printed
    else if printed.needsLog files then
      (files.debug.foldlM (proxyComPrintf files fuel) { printed with openingQconsole := true }).bind fun console =>
        if files.opens then
          (proxyComPrintf files fuel { console with logfile := some [] } files.notice).map (fsWrite files msg)
        else
          (proxyComPrintf files fuel console failure).map fun console => fsWrite files msg { console with comLogfile := 0 }
    else some (fsWrite files msg printed)

/-! ## When a call returns -/

/-- The call has to open the log. -/
structure Opening (files : Files) (console : Console) : Prop where
  direct : console.redirect = none
  logging : console.comLogfile ≠ 0
  needed : console.needsLog files = true

theorem proxyComPrintf_settled (files : Files) (fuel : Nat) {console : Console} (settled : ¬ Opening files console)
    (formatted : CString) : ∃ printed, proxyComPrintf files (fuel + 1) console formatted = some printed := by
  rw [proxyComPrintf]
  dsimp only
  split
  · exact ⟨_, rfl⟩
  · rename_i logged
    simp only [Bool.or_eq_true, decide_eq_true_eq, not_or, Bool.not_eq_true, Option.isSome_eq_false_iff,
      Option.isNone_iff_eq_none] at logged
    split
    · rename_i needed
      exact absurd ⟨logged.1, logged.2, needed⟩ settled
    · exact ⟨_, rfl⟩

def cut (message : CString) : CString := comSprintf maxPrintMsg message

theorem common_direct {common : Common} (direct : common.redirect = none) (formatted : CString) :
    Redirect.proxyComPrintf common formatted = { common with echoed := common.echoed ++ [cut formatted] } := by
  rw [Redirect.proxyComPrintf, direct]
  rfl

/-- A message to the console that opens nothing. -/
theorem proxyComPrintf_direct (files : Files) (fuel : Nat) {console : Console} (direct : console.redirect = none)
    (logging : console.comLogfile ≠ 0) (settled : console.needsLog files = false) (formatted : CString) :
    proxyComPrintf files (fuel + 1) console formatted =
      some (fsWrite files (cut formatted) { console with echoed := console.echoed ++ [cut formatted] }) := by
  have free : ¬ (console.redirect.isSome || decide (console.comLogfile = 0)) = true := by simp [direct, logging]
  rw [proxyComPrintf]
  dsimp only
  rw [if_neg free, common_direct direct, if_neg]
  · rfl
  · rw [Bool.not_eq_true]
    exact settled

theorem proxyComPrintf_opening {files : Files} (fuel : Nat) {console : Console} (opening : Opening files console)
    (formatted : CString) :
    proxyComPrintf files (fuel + 1) console formatted =
      (files.debug.foldlM (proxyComPrintf files fuel)
        { console with echoed := console.echoed ++ [cut formatted], openingQconsole := true }).bind fun console =>
          if files.opens then
            (proxyComPrintf files fuel { console with logfile := some [] } files.notice).map (fsWrite files (cut formatted))
          else
            (proxyComPrintf files fuel console failure).map fun console =>
              fsWrite files (cut formatted) { console with comLogfile := 0 } := by
  have free : ¬ (console.redirect.isSome || decide (console.comLogfile = 0)) = true := by
    simp [opening.direct, opening.logging]
  rw [proxyComPrintf]
  dsimp only
  rw [if_neg free, common_direct opening.direct, if_pos]
  · rfl
  · exact opening.needed

/-- What is printed while the log opens is not in it, and tells the next message to open it. -/
theorem debug_message {files : Files} (fuel : Nat) {console : Console} (opening : Opening files console)
    (message : CString) :
    proxyComPrintf files (fuel + 1) { console with openingQconsole := true } message =
        some { console with echoed := console.echoed ++ [cut message] } ∧
      Opening files { console with echoed := console.echoed ++ [cut message] } := by
  have needed := opening.needed
  simp only [Console.needsLog, Bool.and_eq_true, Option.isNone_iff_eq_none, Bool.not_eq_true'] at needed
  obtain ⟨⟨closed, initialized⟩, idle⟩ := needed
  constructor
  · have settled : Console.needsLog files { console with openingQconsole := true } = false := by simp [Console.needsLog]
    have told := @proxyComPrintf_direct files fuel { console with openingQconsole := true } opening.direct
      opening.logging settled message
    rw [told]
    simp [fsWrite, closed, initialized, idle]
  · exact ⟨opening.direct, opening.logging, by simp [Console.needsLog, closed, initialized, idle]⟩

/-- The file system prints so much that the log is opened again and again. -/
def Files.recurses (files : Files) : Bool :=
  match files.debug with
  | [] => false
  | [_] => !files.opens
  | _ :: _ :: _ => true

theorem never_returns {files : Files} (recurses : files.recurses = true) (fuel : Nat) {console : Console}
    (opening : Opening files console) (formatted : CString) : proxyComPrintf files fuel console formatted = none := by
  induction fuel generalizing console formatted with
  | zero => rfl
  | succ fuel hypothesis =>
    rw [proxyComPrintf_opening fuel opening]
    have later : Opening files { console with echoed := console.echoed ++ [cut formatted] } :=
      ⟨opening.direct, opening.logging, opening.needed⟩
    rw [Files.recurses] at recurses
    cases fuel with
    | zero =>
      split at recurses
      · cases recurses
      · rename_i message printed
        rw [printed]
        rfl
      · rename_i message second rest printed
        rw [printed]
        rfl
    | succ fuel =>
      split at recurses
      · cases recurses
      · rename_i message printed
        obtain ⟨told, again⟩ := debug_message fuel later message
        rw [printed, List.foldlM_cons, told]
        rw [Bool.not_eq_true'] at recurses
        simp only [Option.bind_eq_bind, Option.bind_some, List.foldlM_nil, Option.pure_def, recurses, Bool.false_eq_true,
          if_false]
        rw [hypothesis again]
        rfl
      · rename_i message second rest printed
        obtain ⟨told, again⟩ := debug_message fuel later message
        rw [printed, List.foldlM_cons, told]
        simp only [Option.bind_eq_bind, Option.bind_some, List.foldlM_cons]
        rw [hypothesis again]
        rfl

/-- One message at most while the log opens: then nothing more is asked of the file system. -/
theorem debug_messages {files : Files} (fuel : Nat) {console : Console} (opening : Opening files console)
    (few : files.debug.length ≤ 1) :
    ∃ recursing, files.debug.foldlM (proxyComPrintf files (fuel + 1)) { console with openingQconsole := true } =
      some { console with
        echoed := console.echoed ++ files.debug.map cut
        openingQconsole := recursing } := by
  rcases printed : files.debug with _ | ⟨message, rest⟩
  · exact ⟨true, by simp⟩
  · rw [printed, List.length_cons] at few
    have alone : rest = [] := List.length_eq_zero_iff.mp (by omega)
    subst alone
    refine ⟨console.openingQconsole, ?_⟩
    rw [List.foldlM_cons, (debug_message fuel opening message).1]
    rfl

theorem opening_opens {files : Files} (fuel : Nat) {console : Console} (opening : Opening files console)
    (few : files.debug.length ≤ 1) (opens : files.opens = true) (formatted : CString) :
    proxyComPrintf files (fuel + 2) console formatted =
      some { console with
        echoed := console.echoed ++ cut formatted :: (files.debug.map cut ++ [cut files.notice])
        logfile := some [cut files.notice, cut formatted]
        openingQconsole := false } := by
  have later : Opening files { console with echoed := console.echoed ++ [cut formatted] } :=
    ⟨opening.direct, opening.logging, opening.needed⟩
  have needed := opening.needed
  simp only [Console.needsLog, Bool.and_eq_true] at needed
  obtain ⟨recursing, told⟩ := debug_messages fuel later few
  rw [proxyComPrintf_opening (fuel + 1) opening, told, Option.bind_some, if_pos opens]
  rw [proxyComPrintf_direct]
  · simp [fsWrite, needed.1.2]
  · exact opening.direct
  · exact opening.logging
  · rfl

theorem opening_fails {files : Files} (fuel : Nat) {console : Console} (opening : Opening files console)
    (silent : files.debug = []) (fails : files.opens = false) (formatted : CString) :
    proxyComPrintf files (fuel + 2) console formatted =
      some { console with
        echoed := console.echoed ++ [cut formatted, cut failure]
        comLogfile := 0 } := by
  have needed := opening.needed
  simp only [Console.needsLog, Bool.and_eq_true, Option.isNone_iff_eq_none, Bool.not_eq_true'] at needed
  obtain ⟨⟨closed, _⟩, idle⟩ := needed
  rw [proxyComPrintf_opening (fuel + 1) opening, silent, List.foldlM_nil, Option.pure_def, Option.bind_some,
    if_neg (by simp [fails]), proxyComPrintf_direct]
  · simp [fsWrite, closed, idle]
  · exact opening.direct
  · exact opening.logging
  · simp [Console.needsLog]

/-- `opening_qconsole` is cleared by the nested call, so with `fs_debug` it does not keep the log from being opened
again: when `qconsole.log` cannot be opened, the call never returns. -/
theorem printf_returns_iff (files : Files) (console : Console) (formatted : CString) :
    (∃ fuel printed, proxyComPrintf files fuel console formatted = some printed) ↔
      ¬ (Opening files console ∧ files.recurses = true) := by
  constructor
  · rintro ⟨fuel, printed, returned⟩ ⟨opening, recurses⟩
    rw [never_returns recurses fuel opening] at returned
    cases returned
  · intro returns
    by_cases opening : Opening files console
    · have ends : files.recurses ≠ true := fun recurses => returns ⟨opening, recurses⟩
      rw [Files.recurses] at ends
      split at ends
      · rename_i silent
        cases opens : files.opens with
        | true => exact ⟨2, _, opening_opens 0 opening (by simp [silent]) opens formatted⟩
        | false => exact ⟨2, _, opening_fails 0 opening silent opens formatted⟩
      · rename_i message printed
        have opens : files.opens = true := by simpa using ends
        exact ⟨2, _, opening_opens 0 opening (by simp [printed]) opens formatted⟩
      · exact absurd rfl ends
    · obtain ⟨printed, returned⟩ := proxyComPrintf_settled files 0 opening formatted
      exact ⟨1, printed, returned⟩

/-! ## Remote commands among other messages -/

inductive Event
  | printf (formatted : CString)
  | beginRedirect (size : Nat) (room : 0 < size)
  | endRedirect

def step (files : Files) (fuel : Nat) (console : Console) : Event → Option Console
  | .printf formatted => proxyComPrintf files fuel console formatted
  | .beginRedirect size room => some { console with redirect := some (.opened size room) }
  | .endRedirect => some { console with toCommon := comEndRedirect console.toCommon }

/-- What a run has told: to whom it is talking, what went to the console, and what went to the senders of remote
commands. -/
structure Told where
  redirect : Option Nat
  direct : List CString
  remote : List CString
deriving DecidableEq

/-- A remote command does not run another: no redirect begins in a redirect. -/
def Told.after (told : Told) : Event → Option Told
  | .printf formatted =>
    match told.redirect with
    | none => some { told with direct := told.direct ++ [cut formatted] }
    | some size =>
      some { told with remote := if Holds size (cut formatted) then told.remote ++ [cut formatted] else told.remote }
  | .beginRedirect size _ => if told.redirect.isNone then some { told with redirect := some size } else none
  | .endRedirect => some { told with redirect := none }

def Console.pending (console : Console) : CString :=
  match console.redirect with
  | some buffer => buffer.text
  | none => []

/-- The log begins with its own opening, which the console shows after the message that opened it. -/
def Logged (files : Files) (echoed : List CString) (logfile : Option (List CString)) : List CString → Prop
  | [] => echoed = [] ∧ logfile = none
  | first :: rest =>
    echoed = first :: (files.debug.map cut ++ cut files.notice :: rest) ∧
      logfile = some (cut files.notice :: first :: rest)

structure Agrees (files : Files) (told : Told) (console : Console) : Prop where
  redirect : console.redirect.map Buffer.size = told.redirect
  remote : console.flushed.flatten ++ console.pending = told.remote.flatten
  direct : Logged files console.echoed console.logfile told.direct
  idle : console.openingQconsole = false

theorem remote_printf {common : Common} {buffer : Buffer} (active : common.redirect = some buffer) (message : CString) :
    ∃ next, (Redirect.proxyComPrintf common message).redirect = some next ∧ next.size = buffer.size ∧
      (Redirect.proxyComPrintf common message).echoed = common.echoed ∧
      (Redirect.proxyComPrintf common message).flushed.flatten ++ next.text =
        common.flushed.flatten ++ buffer.text ++ if Holds buffer.size (cut message) then cut message else [] := by
  have held := buffer.fits
  rw [Redirect.proxyComPrintf, active, ← cut]
  dsimp only
  by_cases full : (cut message).length + buffer.text.length > buffer.size - 1
  · rw [if_pos full]
    refine ⟨_, rfl, rfl, rfl, ?_⟩
    by_cases fits : Holds buffer.size (cut message)
    · have alone : (cut message).length ≤ buffer.size - 1 := fits
      rw [append_text (by simpa [Buffer.emptied, Buffer.opened] using alone)]
      simp [Buffer.emptied, Buffer.opened, fits]
    · have long : ¬ Holds buffer.emptied.size (cut message) := fits
      rw [append_text_of_long long]
      simp [Buffer.emptied, Buffer.opened, fits]
  · rw [if_neg full]
    have fits : Holds buffer.size (cut message) := by
      rw [Holds]
      omega
    refine ⟨_, rfl, rfl, rfl, ?_⟩
    rw [append_text (by omega), if_pos fits, List.append_assoc]

theorem endRedirect_echoed (common : Common) : (comEndRedirect common).echoed = common.echoed := by
  rw [comEndRedirect]
  split <;> rfl

section Run

variable {files : Files} (initialized : files.initialized = true) (opens : files.opens = true)
  (few : files.debug.length ≤ 1) (fuel : Nat)

include initialized opens few

/-- One message keeps the console and the log together. -/
theorem agrees_printf {told later : Told} {console : Console} (logging : console.comLogfile ≠ 0)
    (agrees : Agrees files told console) {formatted : CString} (history : told.after (.printf formatted) = some later) :
    ∃ printed, proxyComPrintf files (fuel + 2) console formatted = some printed ∧ Agrees files later printed ∧
      printed.comLogfile = console.comLogfile := by
  obtain ⟨redirect, remote, direct, idle⟩ := agrees
  rcases active : console.redirect with _ | buffer
  · have talking : told.redirect = none := by rw [← redirect, active]; rfl
    rw [Told.after, talking] at history
    cases history
    rw [Console.pending, active] at remote
    rcases before : told.direct with _ | ⟨first, rest⟩
    · rw [before] at direct
      obtain ⟨silent, closed⟩ := direct
      have opening : Opening files console := ⟨active, logging, by simp [Console.needsLog, closed, initialized, idle]⟩
      refine ⟨_, opening_opens fuel opening few opens formatted, ⟨?_, ?_, ?_, rfl⟩, rfl⟩
      · simp [active]
      · simpa [Console.pending, active] using remote
      · simp [Logged, silent]
    · rw [before] at direct
      obtain ⟨echoed, logged⟩ := direct
      have settled : console.needsLog files = false := by simp [Console.needsLog, logged]
      refine ⟨_, proxyComPrintf_direct files (fuel + 1) active logging settled formatted, ⟨?_, ?_, ?_, rfl⟩, rfl⟩
      · simp [fsWrite, active]
      · simpa [Console.pending, fsWrite, active] using remote
      · simp [Logged, fsWrite, echoed, logged, initialized]
  · have talking : told.redirect = some buffer.size := by rw [← redirect, active]; rfl
    rw [Told.after, talking] at history
    cases history
    obtain ⟨next, nowActive, same, quiet, kept⟩ := remote_printf active formatted
    have returned : proxyComPrintf files (fuel + 2) console formatted =
        some { console with toCommon := Redirect.proxyComPrintf console.toCommon formatted } := by
      rw [proxyComPrintf]
      dsimp only
      rw [if_pos (by simp [active])]
    refine ⟨_, returned, ⟨?_, ?_, ?_, idle⟩, rfl⟩
    · simp only [nowActive, Option.map_some, same]
    · rw [Console.pending, active] at remote
      simp only [Console.pending, nowActive, kept, remote]
      split <;> simp
    · simp only [quiet]
      exact direct

theorem agrees_step {told later : Told} {console : Console} {event : Event} (logging : console.comLogfile ≠ 0)
    (agrees : Agrees files told console) (history : told.after event = some later) :
    ∃ next, step files (fuel + 2) console event = some next ∧ Agrees files later next ∧
      next.comLogfile = console.comLogfile := by
  cases event with
  | printf formatted => exact agrees_printf initialized opens few fuel logging agrees history
  | beginRedirect size room =>
    obtain ⟨redirect, remote, direct, idle⟩ := agrees
    rw [Told.after] at history
    split at history
    · rename_i talking
      cases history
      have quiet : console.redirect = none := by
        rw [← redirect, Option.isNone_map, Option.isNone_iff_eq_none] at talking
        exact talking
      rw [Console.pending, quiet] at remote
      exact ⟨_, rfl, ⟨rfl, remote, direct, idle⟩, rfl⟩
    · cases history
  | endRedirect =>
    obtain ⟨redirect, remote, direct, idle⟩ := agrees
    rw [Told.after] at history
    cases history
    refine ⟨_, rfl, ⟨?_, ?_, ?_, idle⟩, rfl⟩
    · rw [comEndRedirect]
      split
      · rfl
      · rename_i quiet
        simp [quiet]
    · rw [Console.pending] at remote
      rw [Console.pending, comEndRedirect]
      split at remote
      · rename_i buffer active
        simpa [active] using remote
      · rename_i quiet
        simpa [quiet] using remote
    · rw [← endRedirect_echoed] at direct
      exact direct

/-- With a log that can be opened, every message outside a redirect reaches the console and the log, in order, and what
is printed in a redirect goes to its sender alone. -/
theorem console_and_log (comLogfile : Int) (logging : comLogfile ≠ 0) (events : List Event) (told : Told)
    (history : events.foldlM Told.after ⟨none, [], []⟩ = some told) :
    ∃ console, events.foldlM (step files (fuel + 2)) (Console.init comLogfile) = some console ∧
      console.flushed.flatten ++ console.pending = told.remote.flatten ∧
      Logged files console.echoed console.logfile told.direct := by
  suffices run : ∀ start console, Agrees files start console → console.comLogfile ≠ 0 →
      events.foldlM Told.after start = some told →
      ∃ last, events.foldlM (step files (fuel + 2)) console = some last ∧ Agrees files told last by
    have fresh : Agrees files ⟨none, [], []⟩ (Console.init comLogfile) := ⟨rfl, rfl, ⟨rfl, rfl⟩, rfl⟩
    obtain ⟨console, returned, agrees⟩ := run _ _ fresh logging history
    exact ⟨console, returned, agrees.remote, agrees.direct⟩
  clear history
  induction events with
  | nil =>
    intro start console agrees _ history
    cases history
    exact ⟨console, rfl, agrees⟩
  | cons event rest hypothesis =>
    intro start console agrees logging history
    rw [List.foldlM_cons] at history
    obtain ⟨later, first, others⟩ := Option.bind_eq_some_iff.mp history
    obtain ⟨next, returned, together, same⟩ := agrees_step initialized opens few fuel logging agrees first
    obtain ⟨last, all, ends⟩ := hypothesis later next together (by rw [same]; exact logging) others
    refine ⟨last, ?_, ends⟩
    rw [List.foldlM_cons, returned]
    exact all

end Run

def loggingFiles : Files := ⟨true, true, ["FS_FOpenFileWrite: base/qconsole.log\n".toList], "Sun Jan  7 12:00:00 2024\n".toList⟩

def rconStatus : List Event :=
  [.printf "--- Common Initialization Complete ---\n".toList, .beginRedirect 1008 (Nat.succ_pos 1007),
    .printf "map: mp/ffa3\n".toList, .printf "num score ping\n".toList, .endRedirect, .printf "ClientBegin: 0\n".toList]

theorem console_and_log_sample :
    ∃ console, rconStatus.foldlM (step loggingFiles 2) (Console.init 1) = some console ∧
      console.flushed.flatten ++ console.pending = "map: mp/ffa3\nnum score ping\n".toList ∧
      Logged loggingFiles console.echoed console.logfile
        ["--- Common Initialization Complete ---\n".toList, "ClientBegin: 0\n".toList] :=
  @console_and_log loggingFiles rfl rfl (Nat.le_refl 1) 0 1 (by decide) rconStatus
    ⟨none, ["--- Common Initialization Complete ---\n".toList, "ClientBegin: 0\n".toList],
      ["map: mp/ffa3\n".toList, "num score ping\n".toList]⟩ (by decide +kernel)

end YbeProxy.ConsoleOutput
