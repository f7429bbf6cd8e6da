import YbeProxy.Sessions

/-!
# Runs of the module

What clients, the game and the engine get of the proxy over any number of calls, in any order and one inside another,
told by the trace of the calls before.
-/

namespace YbeProxy.ModuleRuns
open YbeProxy.Strings YbeProxy.Infostrings YbeProxy.Userinfo YbeProxy.ClientCommands YbeProxy.SpectatorChat
open YbeProxy.Connection (Slot getBaseAddress keyIp addressSize slotZero)
open YbeProxy.VmMain YbeProxy.Runs YbeProxy.Sessions

/-! ## What a call leaves alone -/

/-- Only data of clients, and the bans, may have changed. -/
structure Shares (before after : Proxy) : Prop where
  isOriginalEngine : after.isOriginalEngine = before.isOriginalEngine
  levelTime : after.levelTime = before.levelTime
  spectatorChat : after.spectatorChat = before.spectatorChat
  gameArgv : after.gameArgv = before.gameArgv
  voteAddresses : after.voteAddresses = before.voteAddresses

theorem Shares.refl (proxy : Proxy) : Shares proxy proxy := ⟨rfl, rfl, rfl, rfl, rfl⟩

theorem Shares.setClient (proxy : Proxy) (n : Slot) (data : VmMain.ClientData) : Shares proxy (proxy.setClient n data) :=
  ⟨rfl, rfl, rfl, rfl, rfl⟩

theorem Shares.withConnection (proxy : Proxy) (clientData : Slot → Connection.ClientData) :
    Shares proxy (proxy.withConnection clientData) := ⟨rfl, rfl, rfl, rfl, rfl⟩

theorem shares_onlyTimes {proxy after : Proxy} {k : Slot} (times : OnlyTimes proxy k after) : Shares proxy after := by
  obtain ⟨data, rfl, _⟩ := times
  exact .setClient ..

theorem shares_clientConnect (engine : Engine) (proxy : Proxy) (n : Slot) (firstTime isBot : Bool) :
    Shares proxy (clientConnect engine proxy n firstTime isBot).2 := by
  simp only [clientConnect]
  split <;> exact .withConnection ..

theorem shares_clientUserinfoChanged (engine : Engine) (proxy : Proxy) (n : Slot) :
    Shares proxy (clientUserinfoChanged engine proxy n).2 := by
  simp only [clientUserinfoChanged]
  split <;> exact .withConnection ..

theorem shares_consoleCommand (engine : Engine) (proxy : Proxy) : Shares proxy (consoleCommand engine proxy).2.2 := by
  have command (cmd : CString) (mute : Bool) : Shares proxy (muteCommand engine proxy cmd mute).2 := by
    rw [muteCommand]
    cases BanRuns.clientNumArgument (console engine proxy) with
    | none => exact .refl proxy
    | some k => exact ⟨rfl, rfl, rfl, rfl, rfl⟩
  simp only [consoleCommand]
  split
  · exact ⟨rfl, rfl, rfl, rfl, rfl⟩
  split
  · exact .refl proxy
  split
  · split <;> exact .refl proxy
  split
  · exact command _ true
  split
  · exact command _ false
  · exact .refl proxy

/-- A call of the engine runs a frame, or gives a command of a client its arguments and its chat, or leaves what
the clients share. -/
theorem vmMain_cases (engine : Engine) (proxy : Proxy) (call : Call) :
    (∃ levelTime, call = .runFrame levelTime ∧ (vmMain engine proxy call).2 = (runFrame engine proxy levelTime).2) ∨
    (∃ n, call = .clientCommand n ∧ (proxy.clientData n).isConnected = true ∧
      vmMain engine proxy call = (⟨[], .game⟩, { proxy with
        spectatorChat := proxy.spectatorChat ||
          spectatorSays engine.svGametype engine.players n (argv engine.argv 0 maxTokenChars)
        gameArgv := replaceArguments engine.server engine.argv (argv engine.argv 0 maxTokenChars) })) ∨
    (((∃ n, call = .clientCommand n) → (vmMain engine proxy call).1.result = .returned false) ∧
      Shares proxy (vmMain engine proxy call).2) := by
  cases call with
  | runFrame levelTime => exact Or.inl ⟨levelTime, rfl, rfl⟩
  | clientConnect n firstTime isBot => exact Or.inr (Or.inr ⟨by simp, shares_clientConnect ..⟩)
  | clientDisconnect n => exact Or.inr (Or.inr ⟨by simp, .setClient ..⟩)
  | clientBegin n => exact Or.inr (Or.inr ⟨by simp, .setClient ..⟩)
  | clientCommand n =>
    rcases clientCommand_cases engine proxy n with ⟨returned, times⟩ | ⟨connected, forwarded⟩
    · exact Or.inr (Or.inr ⟨fun _ => returned, shares_onlyTimes times⟩)
    · exact Or.inr (Or.inl ⟨n, rfl, connected, forwarded⟩)
  | consoleCommand => exact Or.inr (Or.inr ⟨by simp, shares_consoleCommand ..⟩)
  | clientUserinfoChanged n => exact Or.inr (Or.inr ⟨by simp, shares_clientUserinfoChanged ..⟩)
  | other => exact Or.inr (Or.inr ⟨by simp, .refl proxy⟩)

theorem vmMainDone_cases (engine : Engine) (proxy : Proxy) (refused : Bool) (call : Call) :
    (∃ n, call = .clientCommand n ∧ vmMainDone engine proxy refused call = clientCommandDone proxy) ∨
    ((∀ n, call ≠ .clientCommand n) ∧ Shares proxy (vmMainDone engine proxy refused call)) := by
  cases call with
  | clientCommand n => exact Or.inl ⟨n, rfl, rfl⟩
  | clientConnect n firstTime isBot =>
    refine Or.inr ⟨by simp, ?_⟩
    simp only [vmMainDone]
    split
    · exact .refl proxy
    · exact .withConnection ..
  | runFrame levelTime => exact Or.inr ⟨by simp, .refl proxy⟩
  | clientDisconnect n => exact Or.inr ⟨by simp, .refl proxy⟩
  | clientBegin n => exact Or.inr ⟨by simp, .refl proxy⟩
  | consoleCommand => exact Or.inr ⟨by simp, .refl proxy⟩
  | clientUserinfoChanged n => exact Or.inr ⟨by simp, .refl proxy⟩
  | other => exact Or.inr ⟨by simp, .refl proxy⟩

/-! ## Clients in the game -/

/-- The client is welcomed as it enters the game. -/
def welcomes (n : Slot) : Event × Answer → Bool
  | (.enter (.clientBegin k) _, answer) => k = n && .sendServerCommand n.val welcome ∈ answer.requests
  | _ => false

/-- A player connects for the first time, and the proxy lets it. -/
def joins : Observation → Bool
  | .connecting welcome => welcome
  | _ => false

theorem welcome_after (session : Session) (observation : Observation) :
    (session.after observation).welcome.toNat ≤ (joins observation).toNat + session.welcome.toNat := by
  cases observation with
  | connecting welcome => exact Nat.le_add_right _ _
  | connected address => exact Nat.le_add_left _ _
  | begun => exact Nat.zero_le _
  | muted on => exact Nat.le_add_left _ _
  | left => exact Nat.zero_le _

/-- A welcome is one that was due, and none is due after it. -/
theorem due_of_welcomes {module : Module} {event : Event} {n : Slot}
    (welcomed : welcomes n (event, (step module event).1) = true) :
    observed n (event, (step module event).1) = some .begun ∧ (session module.proxy n).welcome = true := by
  cases event with
  | enter call engine =>
    cases call with
    | clientBegin k =>
      simp only [welcomes, Bool.and_eq_true, decide_eq_true_eq] at welcomed
      obtain ⟨rfl, sent⟩ := welcomed
      refine ⟨if_pos rfl, ?_⟩
      by_contra nothing
      have quiet : (module.proxy.clientData k).sendWelcomeMessage = false := Bool.eq_false_iff.mpr nothing
      simp [step, vmMain, clientBegin, quiet] at sent
    | _ => cases welcomed
  | syscall call engine => cases welcomed
  | leave refused engine => cases welcomed

theorem welcomes_step (module : Module) (event : Event) (n : Slot) :
    (welcomes n (event, (step module event).1)).toNat + (session (step module event).2.proxy n).welcome.toNat ≤
      ((observed n (event, (step module event).1)).any joins).toNat + (session module.proxy n).welcome.toNat := by
  rw [session_step, Session.afterEntry]
  cases welcomed : welcomes n (event, (step module event).1) with
  | true =>
    obtain ⟨begun, due⟩ := due_of_welcomes welcomed
    rw [begun, due]
    exact Nat.le_add_left _ _
  | false =>
    cases observed n (event, (step module event).1) with
    | none => exact le_rfl
    | some observation =>
      rw [Bool.toNat_false, Nat.zero_add, Option.any_some]
      exact welcome_after _ observation

theorem countP_welcomes_le (module : Module) (events : List Event) (n : Slot) :
    (trace step module events).countP (welcomes n) ≤
      ((trace step module events).filterMap (observed n)).countP joins + (session module.proxy n).welcome.toNat := by
  induction events generalizing module with
  | nil => exact Nat.zero_le _
  | cons event events hypothesis =>
    have later := hypothesis (step module event).2
    have now := welcomes_step module event n
    rw [trace, List.countP_cons, List.filterMap_cons]
    have marked (holds : Bool) : (if holds = true then 1 else 0) = holds.toNat := by cases holds <;> rfl
    cases seen : observed n (event, (step module event).1) with
    | none =>
      rw [seen, Option.any_none, Bool.toNat_false, Nat.zero_add] at now
      rw [marked]
      dsimp only
      omega
    | some observation =>
      rw [seen, Option.any_some] at now
      dsimp only
      rw [marked, List.countP_cons, marked]
      omega

/-- A client is welcomed once at most for each time that a player connects to its slot for the first time, and a command
of a client reaches the game only after the game was told that it begins, and before it leaves. -/
theorem clients_begin_first (isOriginalEngine : Bool) (bans : BanFile.Server) (events : List Event) (n : Slot)
    (engine : Engine) :
    let past := trace step (.init isOriginalEngine bans) events
    past.countP (welcomes n) ≤ (past.filterMap (observed n)).countP joins ∧
      ((step (final step (.init isOriginalEngine bans) events) (.enter (.clientCommand n) engine)).1.result = .game →
        (Session.ofTrace n past).begun = true) := by
  refine ⟨countP_welcomes_le (.init isOriginalEngine bans) events n, ?_⟩
  intro forwarded
  rw [← session_of_init]
  rcases clientCommand_cases engine (final step (.init isOriginalEngine bans) events).proxy n with
    ⟨returned, _⟩ | ⟨connected, _⟩
  · exact absurd (returned.symm.trans forwarded) (by simp)
  · exact connected

/-! ## Muted clients -/

/-- The commands that a muted client is not to use. -/
def talks (cmd : CString) : Bool := sayCmd cmd || named cmd "voice_cmd"

def youAreMuted : CString := "print \"You are muted.\n\"".toList

theorem not_cheat_of_talks {cmd : CString} (talking : talks cmd = true) : qStricmpn cmd "jkaDST_".toList 7 ≠ 0 := by
  intro cheat
  have cheatStart : cmd.head?.map Char.toUpper = some 'J' := by
    rw [qStricmpn_eq_zero_iff] at cheat
    have first := congrArg List.head? cheat
    rwa [List.head?_map, List.head?_take, if_neg (by decide)] at first
  have start {name : String} (same : named cmd name = true) : some 'J' = name.toList.head?.map Char.toUpper :=
    cheatStart.symm.trans (head_of_qStricmp (of_decide_eq_true same))
  simp only [talks, sayCmd, Bool.or_eq_true] at talking
  obtain ((say | team) | tell) | voice := talking
  · exact absurd (start say) (by decide)
  · exact absurd (start team) (by decide)
  · exact absurd (start tell) (by decide)
  · exact absurd (start voice) (by decide)

/-- A muted client is told so, and any other gets what it would get without the flag. -/
theorem allowed_muted (server : ClientCommands.Server) (name : CString) (muted : Bool) (clientNum : Int)
    (tokens : List CString) (cmd : CString) :
    allowed server ⟨name, muted⟩ clientNum tokens cmd =
      if muted && talks cmd then (false, [.sendServerCommand clientNum youAreMuted])
      else allowed server ⟨name, false⟩ clientNum tokens cmd := by
  cases muted with
  | false => rfl
  | true =>
    rw [Bool.true_and]
    by_cases talking : talks cmd = true
    · rw [if_pos talking, allowed, if_neg (not_cheat_of_talks talking)]
      exact if_pos talking
    · have silent : (sayCmd cmd || named cmd "voice_cmd") = false := Bool.eq_false_iff.mpr talking
      rw [if_neg talking]
      simp only [allowed, silent, Bool.and_false]

/-- The data of a client without its flag. -/
theorem setMuted_clientData (proxy : Proxy) (k : Nat) (mute : Bool) (n : Slot) :
    (setMuted proxy k mute).clientData n =
      if n.val = k then { proxy.clientData n with muted := mute } else proxy.clientData n := rfl

theorem run_setMuted (proxy : Proxy) (n : Slot) (cmd : CString) (mute : Bool) :
    (run (setMuted proxy n mute) n cmd).map Prod.fst = (run proxy n cmd).map Prod.fst := by
  simp only [run, myRatio, proxyconfig, setMuted_clientData, if_true]
  split
  · rw [Option.map_some, Option.map_some, apply_ite Prod.fst, apply_ite Prod.fst]
    rfl
  · split
    · rw [Option.map_some, Option.map_some, apply_ite Prod.fst, apply_ite Prod.fst]
      rfl
    · rfl

theorem status_setMuted (engine : Engine) (proxy : Proxy) (n : Slot) (request : VmMain.Request) (mute : Bool) :
    (status engine (setMuted proxy n mute) n request).1 = (status engine proxy n request).1 := by
  simp only [status, setMuted_clientData, if_true]
  rw [apply_ite Prod.fst, apply_ite Prod.fst]

theorem netStatusRun_setMuted (engine : Engine) (proxy : Proxy) (n : Slot) (cmd : CString) (mute : Bool) :
    (netStatusRun engine (setMuted proxy n mute) n cmd).map Prod.fst = (netStatusRun engine proxy n cmd).map Prod.fst := by
  have same : (setMuted proxy n mute).isOriginalEngine = proxy.isOriginalEngine := rfl
  simp only [netStatusRun, same]
  split
  · rfl
  · split
    · exact congrArg some (status_setMuted ..)
    · split
      · exact congrArg some (status_setMuted ..)
      · rfl

/-- What a client gets for a command, from the checks of it and from the commands of the proxy. -/
def commandAnswer (checked : Bool × List ClientCommands.Request) (ran : Option (List VmMain.Request)) : Answer :=
  if !checked.1 then ⟨checked.2.map .ofCommand, .returned false⟩
  else match ran with
    | some requests => ⟨requests, .returned false⟩
    | none => ⟨[], .game⟩

theorem clientCommand_answer (engine : Engine) (proxy : Proxy) (n : Slot) :
    (clientCommand engine proxy n).1 =
      let data := proxy.clientData n
      let cmd := argv engine.argv 0 maxTokenChars
      if !data.isConnected then ⟨[], .returned false⟩
      else commandAnswer (allowed engine.server ⟨data.cleanName, data.muted⟩ n.val engine.argv cmd)
        (((run proxy n cmd).map Prod.fst).or ((netStatusRun engine proxy n cmd).map Prod.fst)) := by
  simp only [clientCommand, commandAnswer, ← Option.map_or]
  split
  · rfl
  · split
    · rfl
    · cases (run proxy n _).or (netStatusRun engine proxy n _) <;> rfl

/-- A client that the console has muted, and not unmuted since it connected, is told so where it talks; what else it
does has the answer that it would have without that. -/
theorem muted_clients_are_silent (isOriginalEngine : Bool) (bans : BanFile.Server) (events : List Event) (n : Slot)
    (engine : Engine) :
    let module := final step (.init isOriginalEngine bans) events
    let client := Session.ofTrace n (trace step (.init isOriginalEngine bans) events)
    (step module (.enter (.clientCommand n) engine)).1 =
      if client.begun && client.muted && talks (argv engine.argv 0 maxTokenChars) then
        ⟨[.sendServerCommand n.val youAreMuted], .returned false⟩
      else (clientCommand engine (setMuted module.proxy n false) n).1 := by
  intro module client
  have begun : client.begun = (module.proxy.clientData n).isConnected := by
    rw [← congrArg Session.begun (session_of_init isOriginalEngine bans events n)]
    rfl
  have muted : client.muted = (module.proxy.clientData n).muted := by
    rw [← congrArg Session.muted (session_of_init isOriginalEngine bans events n)]
    rfl
  have entered : (step module (.enter (.clientCommand n) engine)).1 = (clientCommand engine module.proxy n).1 := rfl
  rw [entered, clientCommand_answer, clientCommand_answer, begun, muted]
  simp only [setMuted_clientData, if_true, run_setMuted, netStatusRun_setMuted]
  rw [allowed_muted engine.server _ (module.proxy.clientData n).muted]
  by_cases connected : (module.proxy.clientData n).isConnected = true
  · simp only [connected, Bool.not_true, Bool.false_eq_true, if_false, Bool.true_and]
    by_cases silent : ((module.proxy.clientData n).muted && talks (argv engine.argv 0 maxTokenChars)) = true
    · rw [if_pos silent, if_pos silent]
      rfl
    · rw [if_neg silent, if_neg silent]
  · simp only [Bool.eq_false_iff.mpr connected, Bool.not_false, if_true, Bool.false_and, Bool.false_eq_true, if_false]

/-! ## Vote kicks -/

/-- The game starts a vote. -/
def startsVote : Event → Bool
  | .syscall (.setConfigstring num string) _ => num = csVoteTime && string.getD [] ≠ []
  | _ => false

/-- The addresses are those of the start of the vote. -/
theorem voteAddresses_step {event : Event} (other : startsVote event = false) (module : Module) :
    (step module event).2.proxy.voteAddresses = module.proxy.voteAddresses := by
  cases event with
  | enter call engine =>
    rcases vmMain_cases engine module.proxy call with ⟨_, _, entered⟩ | ⟨_, _, _, entered⟩ | ⟨_, shares⟩
    · have same := congrArg Proxy.voteAddresses entered
      exact same
    · exact congrArg (fun entered => entered.2.voteAddresses) entered
    · exact shares.voteAddresses
  | syscall call engine =>
    cases call with
    | setConfigstring num string =>
      have nothing : num ≠ csVoteTime ∨ string.getD [] = [] := by
        by_contra start
        rw [not_or, not_not] at start
        rw [startsVote] at other
        simp [start.1, start.2] at other
      exact congrArg Proxy.voteAddresses (if_pos nothing)
    | argv n bufferLength => rfl
    | sendServerCommand clientNum text => rfl
    | sendConsoleCommand exec text => rfl
    | other => rfl
  | leave refused engine =>
    rw [step.eq_def]
    cases module.calls with
    | nil => rfl
    | cons call calls =>
      rcases vmMainDone_cases engine module.proxy refused call with ⟨_, _, done⟩ | ⟨_, shares⟩
      · have same := congrArg Proxy.voteAddresses done
        exact same
      · exact shares.voteAddresses

/-- The address that is observed is a base address, which fits in its buffer. -/
theorem length_observed {n : Slot} {entry : Event × Answer} {address : CString}
    (seen : observed n entry = some (.connected address)) : address.length < addressSize := by
  unfold observed at seen
  split at seen
  · split at seen <;> simp at seen
  · split at seen <;> simp at seen
  · split at seen <;> simp at seen
  · split at seen
    · simp at seen
    · split at seen <;> simp at seen
  · split at seen
    · split at seen
      · obtain rfl := Observation.connected.inj (Option.some.inj seen)
        rw [getBaseAddress]
        refine (length_qStrncpyz_lt _ ?_).trans_le ?_
        · split <;> simp [addressSize]
        · split <;> omega
      · cases seen
    · cases seen
  · cases seen

theorem length_address (n : Slot) (past : List (Event × Answer)) :
    (Session.ofTrace n past).address.length < addressSize := by
  have kept (session : Session) (fits : session.address.length < addressSize) :
      (past.foldl (Session.afterEntry n) session).address.length < addressSize := by
    induction past generalizing session with
    | nil => exact fits
    | cons entry past hypothesis =>
      refine hypothesis _ ?_
      rw [Session.afterEntry]
      split
      · rename_i observation seen
        cases observation with
        | connected address => exact length_observed seen
        | left => exact Nat.zero_lt_succ _
        | connecting welcome => exact fits
        | begun => exact fits
        | muted on => exact fits
      · exact fits
  rw [Session.ofTrace, Session.foldl_observed]
  exact kept .empty (Nat.zero_lt_succ _)

/-- A vote to kick a client ends with `clientkick` and its slot. The command goes to the engine exactly when the address
of the slot is that of the start of the vote: once the client has left, it kicks nobody from another address. -/
theorem vote_kicks_its_target (isOriginalEngine : Bool) (bans : BanFile.Server) (before between : List Event)
    (string : CString) (engine engine' : Engine) (text : CString) (n : Slot) (started : string ≠ [])
    (kick : kickSlot execAppend (some text) = some n) (one : ∀ event ∈ between, startsVote event = false) :
    let events := before ++ .syscall (.setConfigstring csVoteTime (some string)) engine :: between
    let address past := (Session.ofTrace n (trace step (.init isOriginalEngine bans) past)).address
    (step (final step (.init isOriginalEngine bans) events)
        (.syscall (.sendConsoleCommand execAppend (some text)) engine')).1 =
      if address events = address before then ⟨[], .engine (.sendConsoleCommand execAppend (some text))⟩
      else ⟨[.sendServerCommand (-1) kickCanceled], .dropped⟩ := by
  intro events address
  have now (past : List Event) :
      ((final step (.init isOriginalEngine bans) past).proxy.clientData n).address = address past :=
    congrArg Session.address (session_of_init isOriginalEngine bans past n)
  have kept : (final step (.init isOriginalEngine bans) events).proxy.voteAddresses n = address before := by
    have started : (step (final step (.init isOriginalEngine bans) before)
        (.syscall (.setConfigstring csVoteTime (some string)) engine)).2.proxy.voteAddresses n = address before := by
      have starts : ¬ (csVoteTime ≠ csVoteTime ∨ (some string).getD [] = []) := by simpa using started
      have copied := qStrncpyz_of_fits (length_address n (trace step (.init isOriginalEngine bans) before))
      simp only [step, VmMain.syscall, configstringSet, if_neg starts]
      rw [now before]
      exact copied
    rw [final_append, final]
    exact final_keeps step (fun module => module.proxy.voteAddresses n = address before)
      (fun event member module holds => by rw [voteAddresses_step (one event member)]; exact holds) _ started
  simp only [step, VmMain.syscall, voteKick, kick, kept, now events]
  by_cases same : address events = address before
  · simp only [same, decide_true, if_true]
  · simp only [same, decide_false, Bool.false_eq_true, if_false]

/-- An engine whose clients join from one address. -/
def joining : Engine :=
  sampleEngine [] (Connection.withAddress Connection.bannedIp 29070 (.copy Connection.requiredPairs))

theorem vote_kicks_its_target_sample :
    (step (final step (.init true noBans) ([.enter (.clientConnect slotZero true false) joining, .leave false joining] ++
        .syscall (.setConfigstring csVoteTime (some "1000".toList)) quiet :: [.enter (.clientDisconnect slotZero) quiet]))
      (.syscall (.sendConsoleCommand execAppend (some "clientkick 0\n".toList)) quiet)).1 =
      ⟨[.sendServerCommand (-1) kickCanceled], .dropped⟩ := by
  rw [vote_kicks_its_target true noBans _ _ "1000".toList quiet quiet "clientkick 0\n".toList slotZero (by decide)
    (by decide +kernel) (by simp [startsVote])]
  decide +kernel

/-! ## Limits of prints -/

/-- The three times that keep a client from filling its reliable commands. -/
inductive Limit
  | myRatio
  | proxyConfig
  /-- `/netStatus` and `/explainNetStatus`. -/
  | netStatus
  deriving DecidableEq

def Limit.last (limit : Limit) (data : VmMain.ClientData) : Int :=
  match limit with
  | .myRatio => data.lastTimeMyratioCheck
  | .proxyConfig => data.lastTimeProxyConfig
  | .netStatus => data.lastCommandTime

def Limit.distance : Limit → Int
  | .myRatio => 1000
  | .proxyConfig => 1000
  | .netStatus => 500

/-- The clock of the limit. -/
def Limit.now (limit : Limit) (levelTime : Int) (engine : Engine) : Int :=
  match limit with
  | .myRatio => levelTime
  | .proxyConfig => levelTime
  | .netStatus => engine.svsTime

def Limit.limits (limit : Limit) (n : Slot) (request : VmMain.Request) : Bool :=
  match limit with
  | .myRatio => request = .myRatio n
  | .proxyConfig => request = .printConfig (some n)
  | .netStatus => request = .netStatus n || request = .explainNetStatus n

/-- Something that the limit is for is printed to the client. -/
def Limit.prints (limit : Limit) (n : Slot) (requests : List VmMain.Request) : Bool := requests.any (limit.limits n)

/-- Nothing is printed, or the last time has passed and is now. -/
def Spaced (engine : Engine) (before : Proxy) (requests : List VmMain.Request) (after : Proxy) : Prop :=
  ∀ (limit : Limit) (n : Slot),
    (limit.prints n requests = false ∧ limit.last (after.clientData n) = limit.last (before.clientData n)) ∨
    (limit.last (before.clientData n) + limit.distance ≤ limit.now before.levelTime engine ∧
      limit.last (after.clientData n) = limit.now before.levelTime engine)

theorem spaced_refl (engine : Engine) (proxy : Proxy) {requests : List VmMain.Request}
    (silent : ∀ (limit : Limit) n, limit.prints n requests = false) : Spaced engine proxy requests proxy :=
  fun limit n => Or.inl ⟨silent limit n, rfl⟩

/-- A print that sets the time of its limit. -/
theorem spaced_setClient {engine : Engine} {proxy : Proxy} {k : Slot} {data : VmMain.ClientData} {request : VmMain.Request}
    (limit : Limit) (late : limit.last (proxy.clientData k) + limit.distance ≤ limit.now proxy.levelTime engine)
    (stamped : limit.last data = limit.now proxy.levelTime engine)
    (kept : ∀ other, other ≠ limit → other.last data = other.last (proxy.clientData k))
    (counted : ∀ (other : Limit) n, other.limits n request = true → other = limit ∧ n = k) :
    Spaced engine proxy [request] (proxy.setClient k data) := by
  have alone (other : Limit) (n : Slot) (apart : ¬ (other = limit ∧ n = k)) : other.prints n [request] = false := by
    rw [Limit.prints, List.any_cons, List.any_nil, Bool.or_false, Bool.eq_false_iff]
    exact fun counts => apart (counted other n counts)
  intro other n
  by_cases client : n = k
  · rw [setClient_clientData, if_pos client, client]
    by_cases same : other = limit
    · rw [same]
      exact Or.inr ⟨late, stamped⟩
    · exact Or.inl ⟨alone other k fun both => same both.1, kept other same⟩
  · rw [setClient_clientData, if_neg client]
    exact Or.inl ⟨alone other n fun both => client both.2, rfl⟩

theorem spaced_myRatio (engine : Engine) (proxy : Proxy) (k : Slot) :
    Spaced engine proxy (myRatio proxy k).1 (myRatio proxy k).2 := by
  rw [myRatio]
  split
  · exact spaced_refl engine proxy fun _ _ => rfl
  · rename_i late
    refine spaced_setClient .myRatio (not_lt.mp late) rfl ?_ ?_
    · rintro (_ | _ | _) other
      · exact absurd rfl other
      · rfl
      · rfl
    · intro other n
      cases other <;> simp [Limit.limits, eq_comm]

theorem spaced_proxyconfig (engine : Engine) (proxy : Proxy) (k : Slot) :
    Spaced engine proxy (proxyconfig proxy k).1 (proxyconfig proxy k).2 := by
  rw [proxyconfig]
  split
  · rename_i late
    refine spaced_setClient .proxyConfig late rfl ?_ ?_
    · rintro (_ | _ | _) other
      · rfl
      · exact absurd rfl other
      · rfl
    · intro other n
      cases other <;> simp [Limit.limits, eq_comm]
  · exact spaced_refl engine proxy fun _ _ => rfl

theorem spaced_status (engine : Engine) (proxy : Proxy) (k : Slot) {request : VmMain.Request}
    (either : request = .netStatus k ∨ request = .explainNetStatus k) :
    Spaced engine proxy (status engine proxy k request).1 (status engine proxy k request).2 := by
  rw [status]
  split
  · exact spaced_refl engine proxy fun _ _ => rfl
  · rename_i late
    refine spaced_setClient .netStatus (not_lt.mp late) rfl ?_ ?_
    · rintro (_ | _ | _) other
      · rfl
      · rfl
      · exact absurd rfl other
    · intro other n
      rcases either with rfl | rfl <;> cases other <;> simp [Limit.limits, eq_comm]

theorem spaced_run {engine : Engine} {proxy after : Proxy} {k : Slot} {cmd : CString} {requests : List VmMain.Request}
    (ran : run proxy k cmd = some (requests, after)) : Spaced engine proxy requests after := by
  simp only [run] at ran
  split at ran
  · obtain ⟨rfl, rfl⟩ := Prod.mk.inj (Option.some.inj ran)
    exact spaced_myRatio engine proxy k
  · split at ran
    · obtain ⟨rfl, rfl⟩ := Prod.mk.inj (Option.some.inj ran)
      exact spaced_proxyconfig engine proxy k
    · cases ran

theorem spaced_netStatusRun {engine : Engine} {proxy after : Proxy} {k : Slot} {cmd : CString}
    {requests : List VmMain.Request} (ran : netStatusRun engine proxy k cmd = some (requests, after)) :
    Spaced engine proxy requests after := by
  simp only [netStatusRun] at ran
  split at ran
  · cases ran
  · split at ran
    · obtain ⟨rfl, rfl⟩ := Prod.mk.inj (Option.some.inj ran)
      exact spaced_status engine proxy k (.inl rfl)
    · split at ran
      · obtain ⟨rfl, rfl⟩ := Prod.mk.inj (Option.some.inj ran)
        exact spaced_status engine proxy k (.inr rfl)
      · cases ran

theorem spaced_clientCommand (engine : Engine) (proxy : Proxy) (k : Slot) :
    Spaced engine proxy (clientCommand engine proxy k).1.requests (clientCommand engine proxy k).2 := by
  have told (limit : Limit) (n : Slot) (sent : List ClientCommands.Request) :
      limit.prints n (sent.map VmMain.Request.ofCommand) = false := by
    rw [Limit.prints, List.any_map, List.any_eq_false]
    rintro (_ | _) _
    all_goals cases limit <;> simp [Limit.limits, VmMain.Request.ofCommand]
  simp only [clientCommand]
  split
  · exact spaced_refl engine proxy fun _ _ => rfl
  · split
    · exact spaced_refl engine proxy fun limit n => told limit n _
    · split
      · rename_i ran
        rcases Option.or_eq_some_iff.mp ran with first | ⟨_, second⟩
        · exact spaced_run first
        · exact spaced_netStatusRun second
      · exact fun limit n => Or.inl ⟨rfl, rfl⟩

/-- The client of a slot leaves. -/
def leaves (n : Slot) : Event → Bool
  | .enter (.clientDisconnect k) _ => k = n
  | _ => false

theorem last_withConnection (limit : Limit) (proxy : Proxy) (clientData : Slot → Connection.ClientData) (n : Slot) :
    limit.last ((proxy.withConnection clientData).clientData n) = limit.last (proxy.clientData n) := by
  cases limit <;> rfl

theorem last_consoleCommand (limit : Limit) (engine : Engine) (proxy : Proxy) (n : Slot) :
    limit.last ((consoleCommand engine proxy).2.2.clientData n) = limit.last (proxy.clientData n) := by
  rcases consoleCommand_cases engine proxy with ⟨k, _, mute, _, muted⟩ | ⟨_, kept⟩
  · rw [muted, setMuted_clientData]
    split
    · cases limit <;> rfl
    · rfl
  · rw [kept]

/-- While a client stays, its times only move on. -/
theorem last_step (limit : Limit) (n : Slot) {event : Event} (stays : leaves n event = false) (module : Module) :
    limit.last (module.proxy.clientData n) ≤ limit.last ((step module event).2.proxy.clientData n) := by
  cases event with
  | enter call engine =>
    cases call with
    | clientCommand k =>
      have positive : 0 < limit.distance := by cases limit <;> decide
      rcases spaced_clientCommand engine module.proxy k limit n with ⟨_, same⟩ | ⟨late, stamped⟩
      · exact same.ge
      · change _ ≤ limit.last ((clientCommand engine module.proxy k).2.clientData n)
        omega
    | clientConnect k firstTime isBot =>
      refine Eq.ge ?_
      change limit.last ((clientConnect engine module.proxy k firstTime isBot).2.clientData n) = _
      simp only [clientConnect]
      split <;> exact last_withConnection ..
    | clientDisconnect k =>
      have other : ¬ n = k := by simpa [leaves, eq_comm] using stays
      change _ ≤ limit.last ((module.proxy.setClient k .empty).clientData n)
      rw [setClient_clientData, if_neg other]
    | clientBegin k =>
      refine Eq.ge ?_
      change limit.last ((clientBegin engine module.proxy k).2.clientData n) = _
      rw [clientBegin, setClient_clientData]
      split
      · rename_i same
        subst same
        cases limit <;> rfl
      · rfl
    | consoleCommand => exact (last_consoleCommand ..).ge
    | clientUserinfoChanged k =>
      refine Eq.ge ?_
      change limit.last ((clientUserinfoChanged engine module.proxy k).2.clientData n) = _
      simp only [clientUserinfoChanged]
      split <;> exact last_withConnection ..
    | runFrame levelTime => exact le_rfl
    | other => exact le_rfl
  | syscall call engine =>
    cases call with
    | setConfigstring num string =>
      change _ ≤ limit.last ((configstringSet module.proxy num string).clientData n)
      rw [configstringSet]
      split <;> exact le_rfl
    | argv k bufferLength => exact le_rfl
    | sendServerCommand clientNum text => exact le_rfl
    | sendConsoleCommand exec text => exact le_rfl
    | other => exact le_rfl
  | leave refused engine =>
    rw [step.eq_def]
    cases module.calls with
    | nil => exact le_rfl
    | cons call calls =>
      cases call with
      | clientConnect k firstTime isBot =>
        simp only [vmMainDone]
        split
        · exact le_rfl
        · exact (last_withConnection ..).ge
      | runFrame levelTime => exact le_rfl
      | clientDisconnect k => exact le_rfl
      | clientBegin k => exact le_rfl
      | clientCommand k => exact le_rfl
      | consoleCommand => exact le_rfl
      | clientUserinfoChanged k => exact le_rfl
      | other => exact le_rfl

def levelTimeAfter (time : Int) : Event → Int
  | .enter (.runFrame levelTime) _ => levelTime
  | _ => time

/-- The time of the last frame. -/
def levelTimeIn (events : List Event) : Int := events.foldl levelTimeAfter 0

theorem levelTime_step (module : Module) (event : Event) :
    (step module event).2.proxy.levelTime = levelTimeAfter module.proxy.levelTime event := by
  cases event with
  | enter call engine =>
    cases call with
    | runFrame levelTime => rfl
    | clientConnect n firstTime isBot => exact (shares_clientConnect ..).levelTime
    | clientDisconnect n => rfl
    | clientBegin n => rfl
    | clientCommand n =>
      rcases clientCommand_cases engine module.proxy n with ⟨_, times⟩ | ⟨_, forwarded⟩
      · exact (shares_onlyTimes times).levelTime
      · exact congrArg (fun entered => entered.2.levelTime) forwarded
    | consoleCommand => exact (shares_consoleCommand ..).levelTime
    | clientUserinfoChanged n => exact (shares_clientUserinfoChanged ..).levelTime
    | other => rfl
  | syscall call engine =>
    cases call with
    | setConfigstring num string =>
      change (configstringSet module.proxy num string).levelTime = _
      rw [configstringSet]
      split <;> rfl
    | argv n bufferLength => rfl
    | sendServerCommand clientNum text => rfl
    | sendConsoleCommand exec text => rfl
    | other => rfl
  | leave refused engine =>
    rw [step.eq_def]
    cases module.calls with
    | nil => rfl
    | cons call calls =>
      rcases vmMainDone_cases engine module.proxy refused call with ⟨_, _, done⟩ | ⟨_, shares⟩
      · have same := congrArg Proxy.levelTime done
        exact same
      · exact shares.levelTime

theorem levelTime_final (isOriginalEngine : Bool) (bans : BanFile.Server) (events : List Event) :
    (final step (.init isOriginalEngine bans) events).proxy.levelTime = levelTimeIn events := by
  have told := read_final step (fun module => module.proxy.levelTime) (fun time entry => levelTimeAfter time entry.1)
    levelTime_step (.init isOriginalEngine bans) events
  rw [told, levelTimeIn]
  conv_rhs => rw [← trace_fst step (.init isOriginalEngine bans) events, List.foldl_map]
  rfl

/-- Two prints of the same limit to a client that stays between them are as far apart as the limit asks. -/
theorem prints_are_apart (isOriginalEngine : Bool) (bans : BanFile.Server) (limit : Limit) (n : Slot)
    (before between : List Event) (engine engine' : Engine)
    (stays : ∀ event ∈ between, leaves n event = false) :
    let run := final step (.init isOriginalEngine bans)
    let events := before ++ .enter (.clientCommand n) engine :: between
    limit.prints n (step (run before) (.enter (.clientCommand n) engine)).1.requests = true →
    limit.prints n (step (run events) (.enter (.clientCommand n) engine')).1.requests = true →
    limit.now (levelTimeIn before) engine + limit.distance ≤ limit.now (levelTimeIn events) engine' := by
  intro run events printed again
  have spaced (past : List Event) (engine : Engine)
      (prints : limit.prints n (step (run past) (.enter (.clientCommand n) engine)).1.requests = true) :
      limit.last ((run past).proxy.clientData n) + limit.distance ≤ limit.now (levelTimeIn past) engine ∧
        limit.last ((step (run past) (.enter (.clientCommand n) engine)).2.proxy.clientData n) =
          limit.now (levelTimeIn past) engine := by
    rcases spaced_clientCommand engine (run past).proxy n limit n with ⟨silent, _⟩ | late
    · exact absurd (silent.symm.trans prints) Bool.false_ne_true
    · rwa [levelTime_final] at late
  have first := (spaced before engine printed).2
  have second := (spaced events engine' again).1
  have moved := final_keeps step (fun module => limit.now (levelTimeIn before) engine ≤ limit.last (module.proxy.clientData n))
    (fun event member module holds => holds.trans (last_step limit n (stays event member) module)) _ first.ge
  rw [← final] at moved
  have reached : run events = final step (run before) (.enter (.clientCommand n) engine :: between) := final_append ..
  rw [← reached] at moved
  omega

def typing (line : String) : Engine := sampleEngine (Cmd.cmdTokenizeString2 line.toList false) (.copy [])

theorem prints_are_apart_sample : (1000 : Int) + 1000 ≤ 2500 :=
  prints_are_apart true noBans .proxyConfig slotZero
    [.enter (.clientBegin slotZero) quiet, .enter (.runFrame 1000) quiet]
    [.enter (.runFrame 1500) quiet, .enter (.clientCommand slotZero) (typing "proxyconfig"), .enter (.runFrame 2500) quiet]
    (typing "proxyconfig") (typing "ProxyConfig") (by simp [leaves]) (by decide +kernel) (by decide +kernel)

/-! ## The chat of spectators -/

def speakingAfter (speaking : Bool) : Event × Answer → Bool
  | (.enter (.clientCommand n) engine, answer) =>
    speaking || answer.result = .game && spectatorSays engine.svGametype engine.players n (argv engine.argv 0 maxTokenChars)
  | (.leave _ _, answer) =>
    match answer.result with
    | .left (some (.clientCommand _)) => false
    | _ => speaking
  | _ => speaking

/-- From the `say_team` of a spectator, below the team gametypes, to the next return of a command. Where no command runs
inside another, that is while the game runs it. -/
def spectatorSpeaks (past : List (Event × Answer)) : Bool := past.foldl speakingAfter false

theorem spectatorChat_step (module : Module) (event : Event) :
    (step module event).2.proxy.spectatorChat =
      speakingAfter module.proxy.spectatorChat (event, (step module event).1) := by
  cases event with
  | enter call engine =>
    cases call with
    | clientCommand n =>
      change (clientCommand engine module.proxy n).2.spectatorChat =
        (module.proxy.spectatorChat || (clientCommand engine module.proxy n).1.result = .game && _)
      rcases clientCommand_cases engine module.proxy n with ⟨returned, times⟩ | ⟨_, forwarded⟩
      · rw [(shares_onlyTimes times).spectatorChat, returned]
        simp
      · rw [forwarded]
        simp
    | clientConnect n firstTime isBot => exact (shares_clientConnect ..).spectatorChat
    | consoleCommand => exact (shares_consoleCommand ..).spectatorChat
    | clientUserinfoChanged n => exact (shares_clientUserinfoChanged ..).spectatorChat
    | runFrame levelTime => rfl
    | clientDisconnect n => rfl
    | clientBegin n => rfl
    | other => rfl
  | syscall call engine =>
    cases call with
    | setConfigstring num string =>
      change (configstringSet module.proxy num string).spectatorChat = _
      rw [configstringSet]
      split <;> rfl
    | argv n bufferLength => rfl
    | sendServerCommand clientNum text => rfl
    | sendConsoleCommand exec text => rfl
    | other => rfl
  | leave refused engine =>
    rw [step.eq_def]
    cases module.calls with
    | nil => rfl
    | cons call calls =>
      rcases vmMainDone_cases engine module.proxy refused call with ⟨n, rfl, _⟩ | ⟨other, shares⟩
      · rfl
      · refine shares.spectatorChat.trans ?_
        cases call with
        | clientCommand n => exact absurd rfl (other n)
        | runFrame levelTime => rfl
        | clientConnect n firstTime isBot => rfl
        | clientDisconnect n => rfl
        | clientBegin n => rfl
        | consoleCommand => rfl
        | clientUserinfoChanged n => rfl
        | other => rfl

def delivered (clientNum : Int) : Option CString → Answer
  | some text => ⟨[], .engine (.sendServerCommand clientNum text)⟩
  | none => ⟨[], .dropped⟩

theorem delivered_teamChat (module : Module) (clientNum : Int) (text : CString) (engine : Engine) :
    (step module (.syscall (.sendServerCommand clientNum text) engine)).1 =
      delivered clientNum (teamChat module.proxy.spectatorChat engine.players clientNum text) := by
  simp only [step, VmMain.syscall]
  cases teamChat module.proxy.spectatorChat engine.players clientNum text <;> rfl

/-- While a spectator talks to its team, a chat of the game to a client reaches spectators only, and, in the form of the
game's `say`, as a team chat with the same name and message; every other text, and every text at any other time, goes to
the engine as it is. -/
theorem spectators_talk_among_themselves (isOriginalEngine : Bool) (bans : BanFile.Server) (events : List Event)
    (clientNum : Int) (text : CString) (engine : Engine) :
    let answer := (step (final step (.init isOriginalEngine bans) events)
      (.syscall (.sendServerCommand clientNum text) engine)).1
    if spectatorSpeaks (trace step (.init isOriginalEngine bans) events) = true ∧ 0 ≤ clientNum ∧
        text.take 6 = "chat \"".toList then
      (clientTeam engine.players clientNum.toNat ≠ teamSpectator ∧ answer = ⟨[], .dropped⟩) ∨
      (clientTeam engine.players clientNum.toNat = teamSpectator ∧
        ((∃ name message, ec ∉ name ∧ text = sayText name message ∧
          answer = ⟨[], .engine (.sendServerCommand clientNum (comSprintf maxStringChars (teamText name message)))⟩) ∨
        ((∀ name message, ec ∉ name → text ≠ sayText name message) ∧
          answer = ⟨[], .engine (.sendServerCommand clientNum text)⟩)))
    else answer = ⟨[], .engine (.sendServerCommand clientNum text)⟩ := by
  intro answer
  have flag : (final step (.init isOriginalEngine bans) events).proxy.spectatorChat =
      spectatorSpeaks (trace step (.init isOriginalEngine bans) events) :=
    read_final step (fun module => module.proxy.spectatorChat) speakingAfter spectatorChat_step
      (.init isOriginalEngine bans) events
  have sent : answer = delivered clientNum
      (teamChat (spectatorSpeaks (trace step (.init isOriginalEngine bans) events)) engine.players clientNum text) := by
    rw [← flag]
    exact delivered_teamChat ..
  rw [sent]
  split
  · rename_i condition
    obtain ⟨speaks, client, chat⟩ := condition
    rw [speaks]
    rcases teamChat_cases engine.players client chat with ⟨other, none⟩ | ⟨spectator, form | ⟨noForm, same⟩⟩
    · exact Or.inl ⟨other, by rw [none]; rfl⟩
    · obtain ⟨name, message, plain, say, team⟩ := form
      exact Or.inr ⟨spectator, Or.inl ⟨name, message, plain, say, by rw [team]; rfl⟩⟩
    · exact Or.inr ⟨spectator, Or.inr ⟨noForm, by rw [same]; rfl⟩⟩
  · rename_i condition
    have passes : teamChat (spectatorSpeaks (trace step (.init isOriginalEngine bans) events)) engine.players clientNum
        text = some text := by
      refine if_pos ?_
      by_contra talking
      simp only [Bool.or_eq_true, Bool.not_eq_true', decide_eq_true_eq, not_or, Bool.not_eq_false, not_lt,
        Decidable.not_not, ne_eq] at talking
      exact condition ⟨talking.1.1, talking.1.2, talking.2⟩
    rw [passes]
    rfl

end YbeProxy.ModuleRuns
