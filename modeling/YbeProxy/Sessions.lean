import YbeProxy.VmMain

/-!
# Sessions

A session is what the trace of a run of the module tells of the client of a slot, over any number of calls, in any
order and one inside another. What the proxy keeps of a client is exactly that.
-/

namespace YbeProxy.Sessions
open YbeProxy.Strings YbeProxy.Infostrings YbeProxy.Userinfo YbeProxy.ClientCommands YbeProxy.SpectatorChat
open YbeProxy.Connection (Slot getBaseAddress keyIp addressSize slotZero)
open YbeProxy.VmMain YbeProxy.Runs

/-! ## Sessions -/

/-- A client, from the calls about its slot. -/
structure Session where
  begun : Bool
  /-- The welcome message is due. -/
  welcome : Bool
  muted : Bool
  address : CString

def Session.empty : Session := ⟨false, false, false, []⟩

/-- What happens to a client, as an observer of the calls about its slot sees it. -/
inductive Observation
  /-- The proxy lets it connect. -/
  | connecting (welcome : Bool)
  /-- The game has accepted it. -/
  | connected (address : CString)
  | begun
  | muted (on : Bool)
  | left

def Session.after (session : Session) : Observation → Session
  | .connecting welcome => { session with welcome }
  | .connected address => { session with address }
  | .begun => { session with begun := true, welcome := false }
  | .muted on => { session with muted := on }
  | .left => .empty

/-- What an entry of a trace tells of the client of a slot. -/
def observed (clientNum : Slot) : Event × Answer → Option Observation
  | (.enter (.clientConnect other firstTime isBot) _, answer) =>
    if other = clientNum ∧ answer.result = .game then some (.connecting (firstTime && !isBot)) else none
  | (.enter (.clientDisconnect other) _, _) => if other = clientNum then some .left else none
  | (.enter (.clientBegin other) _, _) => if other = clientNum then some .begun else none
  | (.enter .consoleCommand _, answer) =>
    if .sendServerCommand clientNum mutedText ∈ answer.requests then some (.muted true)
    else if .sendServerCommand clientNum unmutedText ∈ answer.requests then some (.muted false)
    else none
  | (.leave refused engine, answer) =>
    match answer.result with
    | .left (some (.clientConnect other _ isBot)) =>
      if other = clientNum ∧ refused = false ∧ isBot = false then
        some (.connected (getBaseAddress (infoValueForKey (engine.userinfo clientNum).text keyIp) addressSize))
      else none
    | _ => none
  | _ => none

/-- The session of a client by what is observed of it. -/
def Session.ofTrace (clientNum : Slot) (past : List (Event × Answer)) : Session :=
  (past.filterMap (observed clientNum)).foldl Session.after .empty

def Session.afterEntry (clientNum : Slot) (session : Session) (entry : Event × Answer) : Session :=
  match observed clientNum entry with
  | some observation => session.after observation
  | none => session

/-- What the proxy keeps of it. -/
def session (proxy : Proxy) (clientNum : Slot) : Session :=
  let data := proxy.clientData clientNum
  ⟨data.isConnected, data.sendWelcomeMessage, data.muted, data.address⟩

theorem Session.foldl_observed (clientNum : Slot) (session : Session) (past : List (Event × Answer)) :
    (past.filterMap (observed clientNum)).foldl Session.after session = past.foldl (Session.afterEntry clientNum) session := by
  induction past generalizing session with
  | nil => rfl
  | cons entry past hypothesis =>
    rw [List.foldl_cons, ← hypothesis, Session.afterEntry, List.filterMap_cons]
    cases observed clientNum entry with
    | none => rfl
    | some observation => rfl

theorem Session.afterEntry_of_ite {n : Slot} {entry : Event × Answer} {condition : Prop} [Decidable condition]
    {observation : Observation} (session : Session)
    (told : observed n entry = if condition then some observation else none) :
    session.afterEntry n entry = if condition then session.after observation else session := by
  rw [Session.afterEntry, told]
  by_cases holds : condition
  · rw [if_pos holds, if_pos holds]
  · rw [if_neg holds, if_neg holds]

@[simp] theorem withConnection_clientData (proxy : Proxy) (clientData : Slot → Connection.ClientData) (n : Slot) :
    (proxy.withConnection clientData).clientData n = { proxy.clientData n with toClientData := clientData n } := rfl

@[simp] theorem setClient_clientData (proxy : Proxy) (k n : Slot) (data : VmMain.ClientData) :
    (proxy.setClient k data).clientData n = if n = k then data else proxy.clientData n := Function.update_apply ..

theorem session_setClient (proxy : Proxy) (k n : Slot) (data : VmMain.ClientData) :
    session (proxy.setClient k data) n =
      if k = n then ⟨data.isConnected, data.sendWelcomeMessage, data.muted, data.address⟩ else session proxy n := by
  simp only [session, setClient_clientData, eq_comm (a := n)]
  split <;> rfl

theorem session_withName (proxy : Proxy) (k n : Slot) (name : Option CString) :
    session (proxy.withConnection (Connection.withName proxy.connection k name)) n = session proxy n := by
  cases name with
  | none => rfl
  | some name =>
    simp only [session, withConnection_clientData, Connection.withName, Function.update_apply, Proxy.connection]
    split
    · rename_i same
      rw [same]
    · rfl

/-- A connection changes the name at most, and the welcome where it is accepted. -/
theorem clientConnect_cases (limit : Int) (settings : Connection.Settings) (clientData : Slot → Connection.ClientData)
    (k : Slot) (firstTime isBot : Bool) (userinfo : Infostring) :
    let connected := Connection.clientConnect limit settings clientData k firstTime isBot userinfo
    ∃ name, (name = none ∨ name = (sanitize settings.environment k true userinfo).cleanName) ∧
      ((connected.reason = none ∧ connected.clientData =
        Connection.withWelcome (Connection.withName clientData k name) k (firstTime && !isBot)) ∨
      (∃ reason, connected.reason = some reason ∧ connected.clientData = Connection.withName clientData k name)) := by
  cases isBot with
  | true => exact ⟨none, Or.inl rfl, Or.inl ⟨rfl, by simp [Connection.clientConnect, Connection.withName]⟩⟩
  | false =>
    cases checked : Connection.check limit settings clientData k firstTime userinfo.text with
    | some reason =>
      exact ⟨none, Or.inl rfl, Or.inr ⟨reason, by simp [Connection.clientConnect, checked, Connection.withName]⟩⟩
    | none =>
      refine ⟨(sanitize settings.environment k true userinfo).cleanName, Or.inr rfl, ?_⟩
      cases sanitized : (sanitize settings.environment k true userinfo).refusal with
      | some refusal => exact Or.inr ⟨refusal.reason, by simp [Connection.clientConnect, checked, sanitized]⟩
      | none => exact Or.inl (by simp [Connection.clientConnect, checked, sanitized])

theorem session_withWelcome (proxy : Proxy) (clientData : Slot → Connection.ClientData) (k n : Slot) (welcome : Bool) :
    session (proxy.withConnection (Connection.withWelcome clientData k welcome)) n =
      if k = n then (session (proxy.withConnection clientData) n).after (.connecting welcome)
      else session (proxy.withConnection clientData) n := by
  simp only [session, withConnection_clientData, Connection.withWelcome, Function.update_apply, eq_comm (a := n)]
  split
  · rename_i same
    rw [same]
    rfl
  · rfl

theorem session_clientConnect (engine : Engine) (proxy : Proxy) (k n : Slot) (firstTime isBot : Bool) :
    session (clientConnect engine proxy k firstTime isBot).2 n =
      if k = n ∧ (clientConnect engine proxy k firstTime isBot).1.result = .game then
        (session proxy n).after (.connecting (firstTime && !isBot))
      else session proxy n := by
  obtain ⟨name, _, ⟨accepted, data⟩ | ⟨reason, refused, data⟩⟩ := clientConnect_cases engine.proxySvMaxClientsPerIP
    ⟨proxy.bans.bans, engine.environment⟩ proxy.connection k firstTime isBot (engine.userinfo k)
  · simp only [clientConnect, accepted, data, and_true, session_withWelcome, session_withName]
  · simp only [clientConnect, refused, data, session_withName, reduceCtorEq, and_false, if_false]

theorem session_clientConnected (engine : Engine) (proxy : Proxy) (k n : Slot) (isBot : Bool) :
    session (clientConnected engine proxy k isBot) n =
      if k = n ∧ isBot = false then
        (session proxy n).after (.connected (getBaseAddress (infoValueForKey (engine.userinfo n).text keyIp) addressSize))
      else session proxy n := by
  cases isBot with
  | true => simp [clientConnected, Connection.connected, session, Proxy.connection]
  | false =>
    simp only [clientConnected, Connection.connected, session, withConnection_clientData, Function.update_apply,
      eq_comm (a := n), Bool.false_eq_true, if_false, and_true, Proxy.connection]
    split
    · rename_i same
      rw [same]
      rfl
    · rfl

theorem session_clientDisconnect (proxy : Proxy) (k n : Slot) :
    session (clientDisconnect proxy k) n = if k = n then (session proxy n).after .left else session proxy n :=
  session_setClient ..

theorem session_clientBegin (engine : Engine) (proxy : Proxy) (k n : Slot) :
    session (clientBegin engine proxy k).2 n =
      if k = n then (session proxy n).after .begun else session proxy n := by
  simp only [clientBegin, session_setClient]
  split
  · rename_i same
    rw [session, same]
    rfl
  · rfl

/-- Only times of one client have changed. -/
def OnlyTimes (proxy : Proxy) (k : Slot) (after : Proxy) : Prop :=
  ∃ data, after = proxy.setClient k data ∧ data.toClientData = (proxy.clientData k).toClientData ∧
    data.muted = (proxy.clientData k).muted

theorem OnlyTimes.refl (proxy : Proxy) (k : Slot) : OnlyTimes proxy k proxy := by
  refine ⟨proxy.clientData k, ?_, rfl, rfl⟩
  rw [Proxy.setClient, Function.update_eq_self]

theorem onlyTimes_status (engine : Engine) (proxy : Proxy) (k : Slot) (request : VmMain.Request) :
    OnlyTimes proxy k (status engine proxy k request).2 := by
  simp only [status]
  split
  · exact .refl proxy k
  · exact ⟨_, rfl, rfl, rfl⟩

theorem onlyTimes_run {proxy after : Proxy} {k : Slot} {cmd : CString} {requests : List VmMain.Request}
    (ran : run proxy k cmd = some (requests, after)) : OnlyTimes proxy k after := by
  simp only [run, myRatio, proxyconfig] at ran
  split at ran
  · split at ran
    · obtain rfl := congrArg Prod.snd (Option.some.inj ran)
      exact .refl proxy k
    · obtain rfl := congrArg Prod.snd (Option.some.inj ran)
      exact ⟨_, rfl, rfl, rfl⟩
  · split at ran
    · split at ran
      · obtain rfl := congrArg Prod.snd (Option.some.inj ran)
        exact ⟨_, rfl, rfl, rfl⟩
      · obtain rfl := congrArg Prod.snd (Option.some.inj ran)
        exact .refl proxy k
    · cases ran

theorem onlyTimes_netStatusRun {engine : Engine} {proxy after : Proxy} {k : Slot} {cmd : CString}
    {requests : List VmMain.Request} (ran : netStatusRun engine proxy k cmd = some (requests, after)) :
    OnlyTimes proxy k after := by
  simp only [netStatusRun] at ran
  split at ran
  · cases ran
  · split at ran
    · obtain rfl := congrArg Prod.snd (Option.some.inj ran)
      exact onlyTimes_status ..
    · split at ran
      · obtain rfl := congrArg Prod.snd (Option.some.inj ran)
        exact onlyTimes_status ..
      · cases ran

/-- A command of a client goes to the game with its arguments and its chat, or the proxy answers it itself. -/
theorem clientCommand_cases (engine : Engine) (proxy : Proxy) (k : Slot) :
    ((clientCommand engine proxy k).1.result = .returned false ∧ OnlyTimes proxy k (clientCommand engine proxy k).2) ∨
    ((proxy.clientData k).isConnected = true ∧ clientCommand engine proxy k = (⟨[], .game⟩, { proxy with
      spectatorChat := proxy.spectatorChat ||
        spectatorSays engine.svGametype engine.players k (argv engine.argv 0 maxTokenChars)
      gameArgv := replaceArguments engine.server engine.argv (argv engine.argv 0 maxTokenChars) })) := by
  simp only [clientCommand]
  split
  · exact Or.inl ⟨rfl, .refl proxy k⟩
  · rename_i connected
    split
    · exact Or.inl ⟨rfl, .refl proxy k⟩
    · split
      · rename_i ran
        refine Or.inl ⟨rfl, ?_⟩
        rcases Option.or_eq_some_iff.mp ran with first | ⟨_, second⟩
        · exact onlyTimes_run first
        · exact onlyTimes_netStatusRun second
      · exact Or.inr ⟨by simpa using connected, rfl⟩

theorem session_onlyTimes {proxy after : Proxy} {k : Slot} (n : Slot) (times : OnlyTimes proxy k after) :
    session after n = session proxy n := by
  obtain ⟨data, rfl, kept, muted⟩ := times
  rw [session_setClient]
  split
  · rename_i same
    rw [session, kept, muted, same]
  · rfl

theorem session_clientCommand (engine : Engine) (proxy : Proxy) (k n : Slot) :
    session (clientCommand engine proxy k).2 n = session proxy n := by
  rcases clientCommand_cases engine proxy k with ⟨_, times⟩ | ⟨_, forwarded⟩
  · exact session_onlyTimes n times
  · rw [forwarded]
    rfl

theorem session_clientUserinfoChanged (engine : Engine) (proxy : Proxy) (k n : Slot) :
    session (clientUserinfoChanged engine proxy k).2 n = session proxy n := by
  simp only [clientUserinfoChanged]
  split <;> exact session_withName ..

theorem session_setMuted (proxy : Proxy) (k : Nat) (n : Slot) (mute : Bool) :
    session (setMuted proxy k mute) n = if n.val = k then (session proxy n).after (.muted mute) else session proxy n := by
  simp only [session, setMuted]
  split <;> rfl

/-- No client hears of the request. -/
def Silent : VmMain.Request → Prop
  | .print _ => True
  | .printConfig none => True
  | .sendConsoleCommand _ _ => True
  | _ => False

/-- A console command mutes or unmutes one client and tells it, or leaves the clients alone. -/
theorem consoleCommand_cases (engine : Engine) (proxy : Proxy) :
    (∃ k line mute, (consoleCommand engine proxy).2.1 =
        [.print line, .sendServerCommand (k : Nat) (if mute then mutedText else unmutedText)] ∧
      (consoleCommand engine proxy).2.2 = setMuted proxy k mute) ∨
    ((∀ request ∈ (consoleCommand engine proxy).2.1, Silent request) ∧
      (consoleCommand engine proxy).2.2.clientData = proxy.clientData) := by
  have command (cmd : CString) (mute : Bool) :
      (∃ k line mute', (muteCommand engine proxy cmd mute).1 =
          [.print line, .sendServerCommand (k : Nat) (if mute' then mutedText else unmutedText)] ∧
        (muteCommand engine proxy cmd mute).2 = setMuted proxy k mute') ∨
      ((∀ request ∈ (muteCommand engine proxy cmd mute).1, Silent request) ∧
        (muteCommand engine proxy cmd mute).2.clientData = proxy.clientData) := by
    rw [muteCommand]
    cases BanRuns.clientNumArgument (console engine proxy) with
    | none => exact Or.inr ⟨by simp [Silent], rfl⟩
    | some k => exact Or.inl ⟨k, _, mute, rfl, rfl⟩
  have teams (team : CString) : ∀ request ∈ forceTeamEveryone engine proxy team, Silent request := by
    rw [forceTeamEveryone]
    split
    · simp [Silent]
    · intro request member
      obtain ⟨_, _, rfl⟩ := List.mem_map.mp member
      trivial
  simp only [consoleCommand]
  split
  · exact Or.inr ⟨by simp, rfl⟩
  split
  · exact Or.inr ⟨by simp [Silent], rfl⟩
  split
  · split
    · exact Or.inr ⟨by simp, rfl⟩
    · exact Or.inr ⟨teams _, rfl⟩
  split
  · exact command _ true
  split
  · exact command _ false
  · exact Or.inr ⟨by simp, rfl⟩

theorem texts_apart : mutedText ≠ unmutedText := by decide

theorem session_consoleCommand (engine : Engine) (proxy : Proxy) (n : Slot) (result : Result) :
    session (consoleCommand engine proxy).2.2 n =
      (session proxy n).afterEntry n (.enter .consoleCommand engine, ⟨(consoleCommand engine proxy).2.1, result⟩) := by
  rcases consoleCommand_cases engine proxy with ⟨k, line, mute, requests, muted⟩ | ⟨untold, kept⟩
  · rw [requests, muted, session_setMuted]
    simp only [Session.afterEntry, observed]
    by_cases same : n.val = k
    · cases mute with
      | true => simp [same]
      | false => simp [same, texts_apart]
    · have other : (n.val : Int) ≠ k := by omega
      simp [same, other]
  · have mute (text : CString) : .sendServerCommand n.val text ∉ (consoleCommand engine proxy).2.1 := untold _
    simp only [Session.afterEntry, observed, mute, if_false]
    rw [session, kept]
    rfl

/-! ## The step -/

theorem session_syscall (engine : Engine) (proxy : Proxy) (call : Syscall) (n : Slot) :
    session (syscall engine proxy call).2 n = session proxy n := by
  cases call with
  | setConfigstring num string =>
    simp only [syscall, configstringSet]
    split <;> rfl
  | argv n bufferLength => rfl
  | sendServerCommand clientNum text => rfl
  | sendConsoleCommand exec text => rfl
  | other => rfl

theorem session_vmMainDone (engine : Engine) (proxy : Proxy) (refused : Bool) (call : Call) (n : Slot) :
    session (vmMainDone engine proxy refused call) n =
      (session proxy n).afterEntry n (.leave refused engine, ⟨[], .left (some call)⟩) := by
  cases call with
  | clientConnect k firstTime isBot =>
    simp only [vmMainDone, Session.afterEntry, observed]
    cases refused with
    | true => simp
    | false =>
      simp only [Bool.false_eq_true, if_false, true_and, session_clientConnected]
      split <;> rfl
  | runFrame levelTime => rfl
  | clientDisconnect k => rfl
  | clientBegin k => rfl
  | clientCommand k => rfl
  | consoleCommand => rfl
  | clientUserinfoChanged k => rfl
  | other => rfl

/-- Each step changes a session as its entry in the trace tells. -/
theorem session_step (module : Module) (event : Event) (n : Slot) :
    session (step module event).2.proxy n =
      (session module.proxy n).afterEntry n (event, (step module event).1) := by
  cases event with
  | enter call engine =>
    cases call with
    | clientConnect k firstTime isBot =>
      exact (session_clientConnect ..).trans (Session.afterEntry_of_ite _ rfl).symm
    | clientDisconnect k => exact (session_clientDisconnect ..).trans (Session.afterEntry_of_ite _ rfl).symm
    | clientBegin k =>
      exact (session_clientBegin engine module.proxy k n).trans (Session.afterEntry_of_ite _ rfl).symm
    | clientCommand k => exact session_clientCommand ..
    | consoleCommand => exact session_consoleCommand ..
    | clientUserinfoChanged k => exact session_clientUserinfoChanged ..
    | runFrame levelTime => rfl
    | other => rfl
  | syscall call engine => exact session_syscall ..
  | leave refused engine =>
    rw [step.eq_def]
    cases calls : module.calls with
    | nil => rfl
    | cons call calls => exact session_vmMainDone ..

/-- What the proxy keeps of a client moves by what is observed of it. -/
theorem session_final (module : Module) (events : List Event) (n : Slot) :
    session (final step module events).proxy n =
      ((trace step module events).filterMap (observed n)).foldl Session.after (session module.proxy n) := by
  rw [Session.foldl_observed]
  exact read_final step (fun module => session module.proxy n) (Session.afterEntry n)
    (fun module event => session_step module event n) module events

theorem session_of_init (isOriginalEngine : Bool) (bans : BanFile.Server) (events : List Event) (n : Slot) :
    session (final step (.init isOriginalEngine bans) events).proxy n =
      .ofTrace n (trace step (.init isOriginalEngine bans) events) := session_final ..

/-- Two runs in which the same is observed of a client keep the same session for it: what other clients do, the ban
list, the cvars and the nesting of the calls do not get in. -/
theorem sessions_are_apart (n : Slot) (isOriginalEngine isOriginalEngine' : Bool) (bans bans' : BanFile.Server)
    (events events' : List Event)
    (same : (trace step (.init isOriginalEngine bans) events).filterMap (observed n) =
      (trace step (.init isOriginalEngine' bans') events').filterMap (observed n)) :
    session (final step (.init isOriginalEngine bans) events).proxy n =
      session (final step (.init isOriginalEngine' bans') events').proxy n := by
  rw [session_of_init, session_of_init, Session.ofTrace, Session.ofTrace, same]

/-- An engine with eight slots in a free for all, and the userinfo of every client. -/
def sampleEngine (argv : List CString) (userinfo : Infostring) : Engine :=
  ⟨argv, fun _ => [], fun _ => userinfo, fun _ => false, ⟨0, 0, 2048⟩, "mp/ffa1".toList, 8, 0, 3, false, false, 60, false, 64, true⟩

def quiet : Engine := sampleEngine [] (.copy [])
def slotOne : Slot := ⟨1, Nat.one_lt_succ_succ _⟩
def noBans : BanFile.Server := ⟨⟨true, []⟩, none, [], []⟩

theorem sessions_are_apart_sample :
    session (final step (.init true noBans) [.enter (.clientBegin slotZero) quiet]).proxy slotZero =
      session (final step (.init false noBans) [.enter (.clientBegin slotOne) quiet, .enter (.clientBegin slotZero) quiet,
        .enter (.clientDisconnect slotOne) quiet]).proxy slotZero :=
  sessions_are_apart slotZero true false noBans noBans _ _ rfl

end YbeProxy.Sessions
