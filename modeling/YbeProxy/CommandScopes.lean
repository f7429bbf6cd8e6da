import YbeProxy.ModuleRuns

/-!
# The scope of a client command

The chat of a spectator and the replaced arguments are variables of the whole module, set before the game runs a client
command and cleared after it. Here each command under way has its own, which the game sees while it runs the command,
with the calls that come back in the meantime. The module does the same, as long as the engine runs no command of a
client inside another.
-/

namespace YbeProxy.CommandScopes
open YbeProxy.Strings YbeProxy.Userinfo YbeProxy.ClientCommands YbeProxy.Connection YbeProxy.VmMain YbeProxy.Runs
open YbeProxy.Sessions YbeProxy.ModuleRuns

/-! ## Commands with a scope of their own -/

structure Scope where
  spectatorChat : Bool
  gameArgv : GameArgv

def Scope.none : Scope := ⟨false, .none⟩

/-- The module with what a command has set. -/
def within (proxy : Proxy) (scope : Scope) : Proxy :=
  { proxy with spectatorChat := scope.spectatorChat, gameArgv := scope.gameArgv }

structure Scoped where
  /-- With nothing of a command in it. -/
  proxy : Proxy
  calls : List (Call × Scope)

def Scoped.init (isOriginalEngine : Bool) (bans : BanFile.Server) : Scoped := ⟨.init isOriginalEngine bans, []⟩

def isCommand : Call → Bool
  | .clientCommand _ => true
  | _ => false

/-- The scope of the innermost command. -/
def scopeOf (calls : List (Call × Scope)) : Scope := ((calls.find? fun call => isCommand call.1).map Prod.snd).getD .none

def scopedStep (state : Scoped) : Event → Answer × Scoped
  | .enter call engine =>
    let entered := vmMain engine state.proxy call
    (entered.1, ⟨within entered.2 .none, if entered.1.result = .game then
      (call, ⟨entered.2.spectatorChat, entered.2.gameArgv⟩) :: state.calls else state.calls⟩)
  | .syscall call engine =>
    let passed := VmMain.syscall engine (within state.proxy (scopeOf state.calls)) call
    (passed.1, ⟨within passed.2 .none, state.calls⟩)
  | .leave refused engine =>
    match state.calls with
    | [] => (⟨[], .left none⟩, state)
    | (call, _) :: calls => (⟨[], .left (some call)⟩, ⟨within (vmMainDone engine state.proxy refused call) .none, calls⟩)

/-! ## Calls that are no commands -/

theorem within_within (proxy : Proxy) (first second : Scope) : within (within proxy first) second = within proxy second := rfl

theorem clientConnect_within (engine : Engine) (proxy : Proxy) (scope : Scope) (n : Slot) (firstTime isBot : Bool) :
    VmMain.clientConnect engine (within proxy scope) n firstTime isBot =
      ((VmMain.clientConnect engine proxy n firstTime isBot).1,
        within (VmMain.clientConnect engine proxy n firstTime isBot).2 scope) := by
  have same : (within proxy scope).connection = proxy.connection ∧ (within proxy scope).bans = proxy.bans := ⟨rfl, rfl⟩
  simp only [VmMain.clientConnect, same.1, same.2]
  split <;> rfl

theorem clientUserinfoChanged_within (engine : Engine) (proxy : Proxy) (scope : Scope) (n : Slot) :
    clientUserinfoChanged engine (within proxy scope) n =
      ((clientUserinfoChanged engine proxy n).1, within (clientUserinfoChanged engine proxy n).2 scope) := by
  simp only [clientUserinfoChanged]
  split <;> rfl

theorem consoleCommand_within (engine : Engine) (proxy : Proxy) (scope : Scope) :
    consoleCommand engine (within proxy scope) = ((consoleCommand engine proxy).1, (consoleCommand engine proxy).2.1,
      within (consoleCommand engine proxy).2.2 scope) := by
  have same : console engine (within proxy scope) = console engine proxy ∧ (within proxy scope).bans = proxy.bans :=
    ⟨rfl, rfl⟩
  have command (cmd : CString) (mute : Bool) : muteCommand engine (within proxy scope) cmd mute =
      ((muteCommand engine proxy cmd mute).1, within (muteCommand engine proxy cmd mute).2 scope) := by
    simp only [muteCommand, same.1]
    split <;> rfl
  have teams (team : CString) : forceTeamEveryone engine (within proxy scope) team = forceTeamEveryone engine proxy team :=
    rfl
  simp only [consoleCommand, same.1, same.2, command, teams]
  split
  · rfl
  split
  · rfl
  split
  · split <;> rfl
  split
  · rfl
  split <;> rfl

theorem vmMain_within (engine : Engine) (proxy : Proxy) (scope : Scope) {call : Call} (other : isCommand call = false) :
    vmMain engine (within proxy scope) call = ((vmMain engine proxy call).1, within (vmMain engine proxy call).2 scope) := by
  cases call with
  | clientCommand n => cases other
  | clientConnect n firstTime isBot => exact clientConnect_within ..
  | consoleCommand =>
    simp only [vmMain, consoleCommand_within]
  | clientUserinfoChanged n => exact clientUserinfoChanged_within ..
  | runFrame levelTime => rfl
  | clientDisconnect n => rfl
  | clientBegin n => rfl
  | other => rfl

theorem vmMainDone_within (engine : Engine) (proxy : Proxy) (scope : Scope) (refused : Bool) {call : Call}
    (other : isCommand call = false) :
    vmMainDone engine (within proxy scope) refused call = within (vmMainDone engine proxy refused call) scope := by
  cases call with
  | clientCommand n => cases other
  | clientConnect n firstTime isBot =>
    simp only [vmMainDone]
    split <;> rfl
  | runFrame levelTime => rfl
  | clientDisconnect n => rfl
  | clientBegin n => rfl
  | consoleCommand => rfl
  | clientUserinfoChanged n => rfl
  | other => rfl

theorem syscall_within (engine : Engine) (proxy : Proxy) (scope : Scope) (call : Syscall) :
    (VmMain.syscall engine (within proxy scope) call).2 = within (VmMain.syscall engine (within proxy scope) call).2 scope := by
  cases call with
  | setConfigstring num string =>
    simp only [VmMain.syscall, configstringSet]
    split <;> rfl
  | argv n bufferLength => rfl
  | sendServerCommand clientNum text => rfl
  | sendConsoleCommand exec text => rfl
  | other => rfl

/-! ## The two machines -/

def runsCommand : Event → Bool
  | .enter (.clientCommand _) _ => true
  | _ => false

/-- A command of a client that the engine runs is the only one under way. -/
def Alone (module : Module) (_ : Scoped) (event : Event) : Prop :=
  runsCommand event = true → module.calls.any isCommand = false

instance (module : Module) (state : Scoped) (event : Event) : Decidable (Alone module state event) :=
  inferInstanceAs (Decidable (_ → _))

structure Related (module : Module) (state : Scoped) : Prop where
  calls : module.calls = state.calls.map Prod.fst
  proxy : module.proxy = within state.proxy (scopeOf state.calls)
  clear : state.proxy = within state.proxy .none
  alone : (state.calls.countP fun call => isCommand call.1) ≤ 1

theorem scopeOf_none {calls : List (Call × Scope)} (none : (calls.countP fun call => isCommand call.1) = 0) :
    scopeOf calls = .none := by
  rw [List.countP_eq_zero] at none
  rw [scopeOf, List.find?_eq_none.mpr none]
  rfl

theorem scopeOf_command (n : Slot) (scope : Scope) (calls : List (Call × Scope)) :
    scopeOf ((.clientCommand n, scope) :: calls) = scope := rfl

theorem scopeOf_other {call : Call} (other : isCommand call = false) (scope : Scope) (calls : List (Call × Scope)) :
    scopeOf ((call, scope) :: calls) = scopeOf calls := by
  rw [scopeOf, List.find?_cons_of_neg (by simp [other]), scopeOf]

theorem within_own (proxy : Proxy) : within (within proxy .none) ⟨proxy.spectatorChat, proxy.gameArgv⟩ = proxy := rfl

/-- A command that the proxy answers itself sets no scope. -/
theorem clear_of_shares {before after : Proxy} (clear : before = within before .none) (shares : Shares before after) :
    after = within after .none := by
  have chat : after.spectatorChat = false := shares.spectatorChat.trans (congrArg Proxy.spectatorChat clear)
  have arguments : after.gameArgv = .none := shares.gameArgv.trans (congrArg Proxy.gameArgv clear)
  rw [within, Scope.none, ← chat, ← arguments]

theorem simulates_command {module : Module} {state : Scoped} (related : Related module state) (n : Slot) (engine : Engine)
    (alone : module.calls.any isCommand = false) :
    (step module (.enter (.clientCommand n) engine)).1 = (scopedStep state (.enter (.clientCommand n) engine)).1 ∧
      Related (step module (.enter (.clientCommand n) engine)).2 (scopedStep state (.enter (.clientCommand n) engine)).2 := by
  obtain ⟨calls, proxy, clear, few⟩ := related
  have nothing : (state.calls.countP fun call => isCommand call.1) = 0 := by
    rw [calls, List.any_map, List.any_eq_false] at alone
    exact List.countP_eq_zero.mpr alone
  rw [scopeOf_none nothing, ← clear] at proxy
  rw [step, scopedStep, proxy]
  refine ⟨rfl, ?_⟩
  dsimp only
  by_cases forwarded : (vmMain engine state.proxy (.clientCommand n)).1.result = .game
  · rw [if_pos forwarded, if_pos forwarded]
    refine ⟨by rw [calls]; rfl, ?_, rfl, ?_⟩
    · rw [scopeOf_command]
      exact (within_own _).symm
    · rw [List.countP_cons, nothing]
      exact le_rfl
  · rw [if_neg forwarded, if_neg forwarded]
    refine ⟨calls, ?_, rfl, few⟩
    rw [scopeOf_none nothing, within_within]
    rcases clientCommand_cases engine state.proxy n with ⟨_, times⟩ | ⟨_, entered⟩
    · exact clear_of_shares clear (shares_onlyTimes times)
    · exact absurd (congrArg (fun entered => entered.1.result) entered) forwarded

theorem simulates_other {module : Module} {state : Scoped} (related : Related module state) {call : Call} (engine : Engine)
    (other : isCommand call = false) :
    (step module (.enter call engine)).1 = (scopedStep state (.enter call engine)).1 ∧
      Related (step module (.enter call engine)).2 (scopedStep state (.enter call engine)).2 := by
  obtain ⟨calls, proxy, clear, few⟩ := related
  have entered := vmMain_within engine state.proxy (scopeOf state.calls) other
  rw [step, scopedStep, proxy, entered]
  refine ⟨rfl, ?_⟩
  dsimp only
  by_cases forwarded : (vmMain engine state.proxy call).1.result = .game
  · rw [if_pos forwarded, if_pos forwarded]
    refine ⟨by rw [calls]; rfl, ?_, rfl, ?_⟩
    · rw [scopeOf_other other, within_within]
    · rw [List.countP_cons_of_neg (by simp [other])]
      exact few
  · rw [if_neg forwarded, if_neg forwarded]
    exact ⟨calls, by rw [within_within], rfl, few⟩

theorem simulates_leave {module : Module} {state : Scoped} (related : Related module state) (refused : Bool)
    (engine : Engine) :
    (step module (.leave refused engine)).1 = (scopedStep state (.leave refused engine)).1 ∧
      Related (step module (.leave refused engine)).2 (scopedStep state (.leave refused engine)).2 := by
  obtain ⟨calls, proxy, clear, few⟩ := related
  rw [step, scopedStep, calls]
  cases under : state.calls with
  | nil => exact ⟨rfl, calls, proxy, clear, few⟩
  | cons frame rest =>
    obtain ⟨call, scope⟩ := frame
    rw [under] at proxy few
    refine ⟨rfl, rfl, ?_, rfl, ?_⟩
    · change vmMainDone engine module.proxy refused call = _
      rw [within_within, proxy]
      cases command : isCommand call with
      | true =>
        rw [List.countP_cons_of_pos (by exact command)] at few
        rw [scopeOf_none (Nat.le_zero.mp (Nat.le_of_succ_le_succ few))]
        cases call with
        | clientCommand n => rfl
        | _ => cases command
      | false => rw [scopeOf_other command, vmMainDone_within engine state.proxy _ refused command]
    · rw [List.countP_cons] at few
      exact (Nat.le_add_right _ _).trans few

theorem simulates {module : Module} {state : Scoped} (event : Event) (related : Related module state)
    (alone : Alone module state event) :
    (step module event).1 = (scopedStep state event).1 ∧ Related (step module event).2 (scopedStep state event).2 := by
  cases event with
  | enter call engine =>
    cases command : isCommand call with
    | true =>
      cases call with
      | clientCommand n => exact simulates_command related n engine (alone rfl)
      | _ => cases command
    | false => exact simulates_other related engine command
  | syscall call engine =>
    obtain ⟨calls, proxy, clear, few⟩ := related
    rw [step, scopedStep, proxy]
    exact ⟨rfl, calls, syscall_within .., rfl, few⟩
  | leave refused engine => exact simulates_leave related refused engine

/-- As long as no command of a client runs inside another, the game and the engine see what they would with a chat and
arguments that belong to each command. -/
theorem commands_keep_to_themselves (isOriginalEngine : Bool) (bans : BanFile.Server) (events : List Event)
    (alone : AtEach step scopedStep Alone (.init isOriginalEngine bans) (.init isOriginalEngine bans) events) :
    trace step (.init isOriginalEngine bans) events = trace scopedStep (.init isOriginalEngine bans) events :=
  trace_eq_of_simulates step scopedStep Related (fun _ _ event => simulates event) events
    ⟨rfl, rfl, rfl, Nat.zero_le _⟩ alone

/-- A spectator talks, and a client leaves while the game sends the chat. -/
def spectatorEvents : List Event :=
  let spectators : Engine := { typing "say_team hi" with players := fun _ => "n\\Bob\\t\\3".toList }
  [.enter (.clientBegin slotZero) quiet, .leave false quiet, .enter (.clientCommand slotZero) spectators,
    .syscall (.sendServerCommand 0 "chat \"hi\"".toList) spectators, .enter (.clientDisconnect slotOne) quiet,
    .syscall (.argv 1 1024) spectators, .leave false quiet, .leave false quiet]

theorem commands_keep_to_themselves_sample :
    trace step (.init true noBans) spectatorEvents = trace scopedStep (.init true noBans) spectatorEvents :=
  commands_keep_to_themselves true noBans spectatorEvents (by decide +kernel)

end YbeProxy.CommandScopes
