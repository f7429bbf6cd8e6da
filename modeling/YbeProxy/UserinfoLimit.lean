import YbeProxy.CommandSteps
import YbeProxy.FixedWindow
import YbeProxy.ActiveClients

/-!
# The limit on userinfo changes

`Proxy_SV_UpdateUserinfo_f` takes over three userinfos of a client in six seconds, counted from the first of them. Its
two fields are a fixed window, and over every run of client commands the userinfos that are taken over are those that
the window accepts.
-/

namespace YbeProxy.UserinfoLimit
open YbeProxy.Strings
open YbeProxy.ServerCommands
open YbeProxy.CommandSteps
open YbeProxy.FixedWindow (Window serve offer most)
open YbeProxy.Runs (trace final AtEach)
open YbeProxy.Cmd (cmdArgv cmdTokenizeString2)

/-- A command of a client, the server then, and what has become of the client since the command before. -/
structure Command where
  env : Env
  meanwhile : ClientT → ClientT
  s : CString
  clientOk : Bool

abbrev Command.tokens (command : Command) : List CString := cmdTokenizeString2 command.s false

def Command.time (command : Command) : ℕ := command.env.time.toInt.toNat

/-- The command brings a userinfo. -/
def asks (command : Command) : Bool := cmdArgv command.tokens 0 = "userinfo".toList && cmdArgv command.tokens 1 ≠ []

/-- The game is told of a userinfo once it is taken over. -/
def isTaken : Call → Bool
  | .gameClientUserinfoChanged => true
  | _ => false

/-- Whether the command has a userinfo taken over, and the client after it. -/
def execute (cl : ClientT) (command : Command) : Bool × ClientT :=
  let work := proxySvExecuteClientCommand command.env (command.meanwhile cl) command.s command.clientOk
  (work.calls.any isTaken, work.cl)

def SameTimes (cl next : ClientT) : Prop :=
  next.lastUserInfoChange = cl.lastUserInfoChange ∧ next.lastUserInfoCount = cl.lastUserInfoCount

theorem SameTimes.trans {first second third : ClientT} (start : SameTimes first second) (next : SameTimes second third) :
    SameTimes first third :=
  ⟨next.1.trans start.1, next.2.trans start.2⟩

/-- What is relied on while a command is executed: a release build, the clock of the server short of its wrap, and that
the engine and the game leave the times of the limit alone. -/
structure Documented (command : Command) : Prop where
  release : command.env.finalBuild = true
  begun : 0 ≤ command.env.time.toInt
  early : command.env.time.toInt ≤ 0x70000000
  meanwhile : ∀ cl, SameTimes cl (command.meanwhile cl)
  drop : ∀ cl reason, SameTimes cl (command.env.svDropClient cl reason)
  snapshot : ∀ cl, SameTimes cl (command.env.svSendClientSnapshot cl)
  beginDownload : ∀ tokens cl, SameTimes cl (command.env.originalSvBeginDownload tokens cl)
  doneDownload : ∀ cl, SameTimes cl (command.env.originalSvDoneDownload cl)
  userinfo : ∀ cl, SameTimes cl (command.env.gameClientUserinfoChanged cl)
  game : ∀ tokens cl, SameTimes cl (command.env.gameClientCommand tokens cl)

/-! ## A command -/

/-- The times are those of the client before, and no userinfo has been taken over. -/
def Untouched (cl : ClientT) (work : Work) : Prop := SameTimes cl work.cl ∧ work.calls.any isTaken = false

theorem Untouched.call {cl : ClientT} {work : Work} (untouched : Untouched cl work) {call : Call}
    (other : isTaken call = false) {next : ClientT} (same : SameTimes work.cl next) :
    Untouched cl { work.log call with cl := next } := by
  refine ⟨untouched.1.trans same, ?_⟩
  simp [Work.log, untouched.2, other]

theorem Act.untouched {command : Command} (documented : Documented command) {tokens : List CString} (cl : ClientT)
    (work next : Work) (act : Act command.env tokens work next) (untouched : Untouched cl work) : Untouched cl next := by
  cases act with
  | @quiet call quiet =>
    have other : isTaken call = false := by cases call <;> first | rfl | cases quiet
    exact untouched.call other ⟨rfl, rfl⟩
  | drop reason => exact untouched.call rfl (documented.drop work.cl reason)
  | download => exact ⟨untouched.1.trans ⟨rfl, rfl⟩, untouched.2⟩
  | pure => exact ⟨untouched.1.trans ⟨rfl, rfl⟩, untouched.2⟩
  | snapshot => exact untouched.call rfl (documented.snapshot work.cl)
  | beginDownload => exact untouched.call rfl (documented.beginDownload tokens work.cl)
  | doneDownload => exact untouched.call rfl (documented.doneDownload work.cl)

theorem takeUserinfo_taken {command : Command} (documented : Documented command) (arg : CString) (work : Work) :
    SameTimes work.cl (takeUserinfo command.env arg work).cl ∧ (takeUserinfo command.env arg work).calls.any isTaken = true := by
  have changed : ∀ work : Work, SameTimes work.cl (svUserinfoChanged command.env work).cl := by
    intro work
    rw [svUserinfoChanged]
    split
    · exact documented.drop _ _
    · exact ⟨rfl, rfl⟩
  refine ⟨?_, by simp [takeUserinfo, Work.log, isTaken]⟩
  exact (changed { work with cl := { work.cl with info := { work.cl.info with userinfo := .copy arg } } }).trans
    (documented.userinfo _)

/-- The times of the limit show a window. -/
def Shows (cl : ClientT) (window : Window) : Prop :=
  cl.lastUserInfoChange.toInt = window.closes ∧ cl.lastUserInfoCount.toInt = window.count

theorem Shows.same {cl next : ClientT} {window : Window} (shows : Shows cl window) (same : SameTimes cl next) :
    Shows next window := by
  rw [Shows, same.1, same.2]
  exact shows

theorem toInt_later {time : Int32} (early : time.toInt ≤ 0x70000000) (begun : 0 ≤ time.toInt) :
    (time + infoChangeMinInterval).toInt = time.toInt + 6000 := by
  rw [Int32.toInt_add, show infoChangeMinInterval.toInt = 6000 from rfl]
  exact Int.bmod_eq_of_le (by omega) (by omega)

theorem toInt_counted {count : Int32} {counted : ℕ} (same : count.toInt = counted) (few : counted < 2147483647) :
    (count + 1).toInt = (counted + 1 : ℕ) := by
  rw [Int32.toInt_add, show (1 : Int32).toInt = 1 from rfl, same]
  exact Int.bmod_eq_of_le (by omega) (by omega)

/-- `userinfo` with an argument is a request to the window. -/
theorem updateUserinfo_offer {command : Command} (documented : Documented command) {tokens : List CString}
    (brings : cmdArgv tokens 1 ≠ []) {cl : ClientT} {window : Window} (shows : Shows cl window)
    (few : window.count < 2147483647) :
    let work := proxySvUpdateUserinfoF command.env tokens ⟨cl, []⟩
    work.calls.any isTaken = (offer 3 6000 window command.time).1 ∧ Shows work.cl (offer 3 6000 window command.time).2 := by
  have time : (command.time : Int) = command.env.time.toInt := Int.toNat_of_nonneg documented.begun
  simp only [proxySvUpdateUserinfoF, if_neg brings]
  by_cases inside : command.time < window.closes
  · have early : command.env.finalBuild = true ∧ command.env.time < cl.lastUserInfoChange := by
      refine ⟨documented.release, Int32.lt_iff_toInt_lt.mpr ?_⟩
      rw [shows.1]
      omega
    have counted := toInt_counted shows.2 few
    rw [if_pos early, FixedWindow.offer_open 3 6000 inside]
    by_cases full : infoChangeMaxCount ≤ cl.lastUserInfoCount + 1
    · have refused : ¬ window.count + 1 < 3 := by
        rw [Int32.le_iff_toInt_le, counted, show infoChangeMaxCount.toInt = 3 from rfl] at full
        omega
      rw [if_pos full, decide_eq_false refused]
      exact ⟨rfl, shows.1, counted⟩
    · have taken : window.count + 1 < 3 := by
        rw [Int32.le_iff_toInt_le, counted, show infoChangeMaxCount.toInt = 3 from rfl] at full
        omega
      obtain ⟨same, told⟩ := takeUserinfo_taken documented (cmdArgv tokens 1)
        ⟨{ cl with lastUserInfoCount := cl.lastUserInfoCount + 1 }, []⟩
      have more : Shows { cl with lastUserInfoCount := cl.lastUserInfoCount + 1 } ⟨window.closes, window.count + 1⟩ :=
        ⟨shows.1, counted⟩
      rw [if_neg full, decide_eq_true taken]
      exact ⟨told, more.same same⟩
  · have late : ¬ (command.env.finalBuild = true ∧ command.env.time < cl.lastUserInfoChange) := by
      rw [Int32.lt_iff_toInt_lt, shows.1]
      omega
    obtain ⟨same, told⟩ := takeUserinfo_taken documented (cmdArgv tokens 1)
      ⟨{ cl with lastUserInfoCount := 0, lastUserInfoChange := command.env.time + infoChangeMinInterval }, []⟩
    have opened : (command.env.time + infoChangeMinInterval).toInt = (command.time + 6000 : ℕ) := by
      rw [toInt_later documented.early documented.begun]
      omega
    have anew : Shows { cl with
        lastUserInfoCount := 0, lastUserInfoChange := command.env.time + infoChangeMinInterval } ⟨command.time + 6000, 0⟩ :=
      ⟨opened, rfl⟩
    rw [if_neg late, FixedWindow.offer_closed 3 6000 (Nat.le_of_not_lt inside)]
    exact ⟨told, anew.same same⟩

theorem asks_of_other {command : Command} (other : cmdArgv command.tokens 0 ≠ "userinfo".toList) :
    asks command = false := by
  rw [asks, decide_eq_false other]
  rfl

/-- A command does to the limit what it does to the window. -/
theorem execute_serve {command : Command} (documented : Documented command) {cl : ClientT} {window : Window}
    (shows : Shows cl window) (few : window.count < 2147483647) :
    (execute cl command).1 = (serve asks Command.time 3 6000 window command).1 ∧
      Shows (execute cl command).2 (serve asks Command.time 3 6000 window command).2 := by
  have now := shows.same (documented.meanwhile cl)
  have initially : Untouched (command.meanwhile cl) ⟨command.meanwhile cl, []⟩ := ⟨⟨rfl, rfl⟩, rfl⟩
  rw [execute]
  rcases executeClientCommand_cases command.env (command.meanwhile cl) command.s command.clientOk with
    ⟨named, result⟩ | ⟨other, acts | ⟨_, result⟩⟩
  · rw [result]
    by_cases brings : cmdArgv command.tokens 1 = []
    · have quiet : asks command = false := by simp [asks, brings]
      have unchanged : proxySvUpdateUserinfoF command.env command.tokens ⟨command.meanwhile cl, []⟩ =
          ⟨command.meanwhile cl, []⟩ := if_pos brings
      rw [FixedWindow.serve_other quiet, unchanged]
      exact ⟨rfl, now⟩
    · have asked : asks command = true := by
        rw [asks, decide_eq_true named, decide_eq_true brings]
        rfl
      rw [FixedWindow.serve_asked asked]
      exact updateUserinfo_offer documented brings now few
  · have quiet := asks_of_other other
    obtain ⟨same, untaken⟩ := acts.keeps (Act.untouched documented (command.meanwhile cl)) initially
    rw [FixedWindow.serve_other quiet]
    exact ⟨untaken, now.same same⟩
  · have quiet := asks_of_other other
    rw [FixedWindow.serve_other quiet, result]
    exact ⟨rfl, now.same (documented.game _ _)⟩

/-! ## Runs of commands -/

/-- What a command is relied on for, and a window that can count it. -/
def Ready (_ : ClientT) (window : Window) (command : Command) : Prop := Documented command ∧ window.count < 2147483647

/-- In the run of the code and in that of the window the same userinfos are taken over. -/
theorem trace_window {commands : List Command} (documented : ∀ command ∈ commands, Documented command)
    (few : commands.length ≤ 2147483647) {cl : ClientT} (fresh : Shows cl ⟨0, 0⟩) :
    trace execute cl commands = trace (serve asks Command.time 3 6000) ⟨0, 0⟩ commands := by
  have ready : AtEach execute (serve asks Command.time 3 6000) Ready cl ⟨0, 0⟩ commands := by
    intro before command after split
    have counted : (final (serve asks Command.time 3 6000) ⟨0, 0⟩ before).count ≤ 0 + before.length :=
      FixedWindow.final_count_le ⟨0, 0⟩ before
    refine ⟨documented command (split ▸ List.mem_append_right before List.mem_cons_self), ?_⟩
    rw [split, List.length_append, List.length_cons] at few
    omega
  exact Runs.trace_eq_of_simulates execute (serve asks Command.time 3 6000) Shows
    (fun _ _ _ shows ready => execute_serve ready.1 shows ready.2) commands fresh ready

/-- Over every run of commands of a client from its connection on, at most `3 * (width / 6000 + 1) + 2` userinfos are
taken over in a span of `width` milliseconds, and one is refused only where three others came in the six seconds
before it. -/
theorem changes_limited {commands : List Command} (documented : ∀ command ∈ commands, Documented command)
    (ordered : commands.Pairwise fun a b => a.time ≤ b.time) (few : commands.length ≤ 2147483647) {cl : ClientT}
    (fresh : cl.lastUserInfoChange = 0 ∧ cl.lastUserInfoCount = 0) :
    (∀ start width, (trace execute cl commands).countP
        (fun entry => entry.2 && (start ≤ entry.1.time && entry.1.time ≤ start + width)) ≤ 3 * (width / 6000 + 1) + 2) ∧
      ∀ before command after, commands = before ++ command :: after → asks command = true →
        (execute (final execute cl before) command).1 = false →
        3 ≤ before.countP fun other => decide (command.time < other.time + 6000) && asks other := by
  have shows : Shows cl ⟨0, 0⟩ := by
    rw [Shows, fresh.1, fresh.2]
    exact ⟨rfl, rfl⟩
  constructor
  · intro start width
    rw [trace_window documented few shows]
    have future : ∀ command ∈ commands, 0 ≤ command.time := fun command _ => Nat.zero_le command.time
    exact FixedWindow.accepted_le (by omega) (by omega) ordered future (Nat.zero_le _) start width
  · intro before command after split asked refused
    have part : before ++ [command] <+: commands := ⟨after, by rw [split, List.append_assoc, List.singleton_append]⟩
    have known : ∀ earlier ∈ before ++ [command], Documented earlier :=
      fun earlier member => documented earlier (part.subset member)
    have traces := trace_window known (Nat.le_trans part.length_le few) shows
    rw [Runs.trace_concat, Runs.trace_concat] at traces
    obtain ⟨_, last⟩ := List.append_inj' traces rfl
    have answer : (execute (final execute cl before) command).1 =
        (serve asks Command.time 3 6000 (final (serve asks Command.time 3 6000) ⟨0, 0⟩ before) command).1 := by
      simpa using last
    rw [answer] at refused
    have sorted : before.Pairwise fun a b => a.time ≤ b.time := by
      rw [split] at ordered
      exact (List.pairwise_append.mp ordered).1
    have future : ∀ earlier ∈ before, 0 ≤ earlier.time := fun earlier _ => Nat.zero_le earlier.time
    exact FixedWindow.refused_crowded sorted future (Nat.zero_le _) (Nat.zero_le _) asked refused

/-- Four userinfos in a third of a second, and one more when the six seconds are over. -/
def sampleCommands : List Command :=
  [5000, 5100, 5200, 5300, 11000].map fun time =>
    ⟨{ ActiveClients.sampleEnv with time }, id, "userinfo \"\\name\\Kyle\"".toList, true⟩

def sampleClient : ClientT := ⟨ClientMessage.sampleClient, ActiveClients.sampleRest⟩

theorem sampleCommands_documented : ∀ command ∈ sampleCommands, Documented command := by
  have start : (0 : Int32).toInt = 0 := rfl
  have late : (11000 : Int32).toInt = 11000 := rfl
  have at_time (time : Int32) (begun : 0 ≤ time) (early : time ≤ 11000) :
      Documented ⟨{ ActiveClients.sampleEnv with time }, id, "userinfo \"\\name\\Kyle\"".toList, true⟩ := by
    rw [Int32.le_iff_toInt_le] at begun early
    exact ⟨rfl, by simp only; omega, by simp only; omega, fun _ => ⟨rfl, rfl⟩, fun _ _ => ⟨rfl, rfl⟩, fun _ => ⟨rfl, rfl⟩,
      fun _ _ => ⟨rfl, rfl⟩, fun _ => ⟨rfl, rfl⟩, fun _ => ⟨rfl, rfl⟩, fun _ _ => ⟨rfl, rfl⟩⟩
  intro command member
  obtain ⟨time, listed, rfl⟩ := List.mem_map.mp member
  have times : ∀ time ∈ ([5000, 5100, 5200, 5300, 11000] : List Int32), 0 ≤ time ∧ time ≤ 11000 := by
    simp only [List.forall_mem_cons, List.not_mem_nil, false_implies, implies_true, and_true]
    decide
  exact at_time time (times time listed).1 (times time listed).2

theorem sampleCommands_few : sampleCommands.length ≤ 2147483647 := by
  rw [sampleCommands, List.length_map]
  simp only [List.length_cons, List.length_nil]
  omega

theorem changes_limited_sample :
    (trace execute sampleClient sampleCommands).map Prod.snd = [true, true, true, false, true] ∧
      (∀ start width, (trace execute sampleClient sampleCommands).countP
        (fun entry => entry.2 && (start ≤ entry.1.time && entry.1.time ≤ start + width)) ≤ 3 * (width / 6000 + 1) + 2) ∧
      ∀ before command after, sampleCommands = before ++ command :: after → asks command = true →
        (execute (final execute sampleClient before) command).1 = false →
        3 ≤ before.countP fun other => decide (command.time < other.time + 6000) && asks other := by
  refine ⟨?_, changes_limited sampleCommands_documented (by decide) sampleCommands_few ⟨rfl, rfl⟩⟩
  rw [trace_window sampleCommands_documented sampleCommands_few ⟨rfl, rfl⟩]
  decide +kernel

end YbeProxy.UserinfoLimit
