import YbeProxy.MessageSteps
import YbeProxy.ServerCommands

/-!
# Active clients

No message puts a client that is in the game back to loading: none of the ways to a gamestate is open to it, and its
state changes only where it is dropped.
-/

namespace YbeProxy.ActiveClients
open YbeProxy.Strings
open YbeProxy.ClientMessage (Client Server Engine Turn ClientState proxySvExecuteClientMessage readCommands)
open YbeProxy.ServerCommands
open YbeProxy.MessageSteps
open YbeProxy.Cmd (cmdArgv cmdTokenizeString2)
open YbeProxy.Infostrings (infoValueForKey)

/-- The state is the same, or the client has been dropped. -/
def Stays (before after : ClientState) : Prop := after = before ∨ after = .csZombie

theorem Stays.trans {first second third : ClientState} (start : Stays first second) (next : Stays second third) :
    Stays first third := by
  rcases next with rfl | zombie
  · exact start
  · exact Or.inr zombie

/-- What is relied on of the engine and of the game: `SV_DropClient` makes a zombie, and the game leaves the state alone
unless it drops the client. -/
structure Documented (env : Env) : Prop where
  drop : ∀ cl reason, (env.svDropClient cl reason).state = .csZombie
  userinfo : ∀ cl, Stays cl.state (env.gameClientUserinfoChanged cl).state
  command : ∀ tokens cl, Stays cl.state (env.gameClientCommand tokens cl).state

/-! ## A command -/

/-- The calls that start a download or end in a gamestate. -/
def loads : ServerCommands.Call → Bool
  | .originalSvBeginDownload => true
  | .originalSvDoneDownload => true
  | .svNetchanTransmit _ => true
  | _ => false

/-- A client that was active is so, or has been dropped, and no call made it load. -/
def Plays (work : Work) : Prop := Stays .csActive work.cl.state ∧ ∀ call ∈ work.calls, loads call = false

theorem quiet_log {work : Work} (quiet : ∀ call ∈ work.calls, loads call = false) {call : ServerCommands.Call}
    (other : loads call = false) : ∀ logged ∈ (work.log call).calls, loads logged = false :=
  List.forall_mem_append.mpr ⟨quiet, List.forall_mem_singleton.mpr other⟩

namespace Plays

theorem client {work : Work} (plays : Plays work) {cl : ClientT} (stays : Stays work.cl.state cl.state) :
    Plays { work with cl } :=
  ⟨plays.1.trans stays, plays.2⟩

theorem log {work : Work} (plays : Plays work) {call : ServerCommands.Call} (other : loads call = false) :
    Plays (work.log call) :=
  ⟨plays.1, quiet_log plays.2 other⟩

theorem drop {env : Env} (documented : Documented env) {work : Work}
    (quiet : ∀ call ∈ work.calls, loads call = false) (reason : CString) : Plays (work.dropClient env reason) :=
  ⟨Or.inr (documented.drop work.cl reason), quiet_log quiet rfl⟩

end Plays

variable {env : Env} (tokens : List CString)

theorem svUserinfoChanged_plays (documented : Documented env) {work : Work} (plays : Plays work) :
    Plays (svUserinfoChanged env work) := by
  rw [svUserinfoChanged]
  split
  · refine Plays.drop documented ?_ _
    exact plays.2
  · exact plays.client (Or.inl rfl)

theorem takeUserinfo_plays (documented : Documented env) (arg : CString) {work : Work} (plays : Plays work) :
    Plays (takeUserinfo env arg work) := by
  have copied : Plays { work with cl := { work.cl with info := { work.cl.info with userinfo := .copy arg } } } :=
    plays.client (Or.inl rfl)
  have changed := svUserinfoChanged_plays documented copied
  exact (changed.log rfl).client (documented.userinfo _)

theorem updateUserinfo_plays (documented : Documented env) {work : Work} (plays : Plays work) :
    Plays (proxySvUpdateUserinfoF env tokens work) := by
  simp only [proxySvUpdateUserinfoF]
  split
  · exact plays
  split
  · have counted : Plays { work with cl := { work.cl with lastUserInfoCount := work.cl.lastUserInfoCount + 1 } } :=
      plays.client (Or.inl rfl)
    split
    · exact counted.log rfl
    · exact takeUserinfo_plays documented _ counted
  · exact takeUserinfo_plays documented _ (plays.client (Or.inl rfl))

theorem verifyPaks_plays (documented : Documented env) {work : Work} (plays : Plays work) :
    Plays (proxySvVerifyPaksF env tokens work) := by
  rw [proxySvVerifyPaksF]
  split
  · split
    · exact plays.client (Or.inl rfl)
    · refine Plays.drop documented ?_ _
      have sent : Plays (work.log .svSendClientSnapshot) := plays.log rfl
      exact sent.2
  · exact plays

/-- Every command of the table leaves an active client playing. -/
theorem ucmds_play (documented : Documented env) (cl : ClientT) (active : cl.state = .csActive) :
    ∀ u ∈ ucmds env tokens, Plays (u.2 ⟨cl, []⟩) := by
  have plays : Plays ⟨cl, []⟩ := ⟨Or.inl active, by simp⟩
  simp only [ucmds, List.forall_mem_cons, List.not_mem_nil, false_implies, implies_true, and_true]
  refine ⟨?_, ?_, ?_, ?_, ?_, ?_, ?_, ?_⟩
  · exact updateUserinfo_plays tokens documented plays
  · exact Plays.drop documented plays.2 _
  · exact verifyPaks_plays tokens documented plays
  · exact plays.client (Or.inl rfl)
  -- The commands of a download do nothing here.
  · rwa [proxySvBeginDownloadF, if_pos active]
  · rwa [proxySvNextDownloadF, if_pos active]
  · rwa [proxySvStopDownloadF, if_pos active]
  · rwa [proxySvDoneDownloadF, if_pos active]

theorem executeClientCommand_plays (documented : Documented env) (cl : ClientT) (active : cl.state = .csActive)
    (s : CString) (clientOk : Bool) : Plays (proxySvExecuteClientCommand env cl s clientOk) := by
  rw [proxySvExecuteClientCommand]
  split
  · rename_i u found
    exact ucmds_play _ documented cl active u (List.mem_of_find?_eq_some found)
  split
  · have stays := documented.command (cmdTokenizeString2 s false) cl
    rw [active] at stays
    refine ⟨stays, ?_⟩
    simp [loads]
  · exact ⟨Or.inl active, by simp⟩

/-! ## A message -/

variable {Msg : Type} {engine : Engine Msg} {rest : Client → Rest} (sv : Server)

/-- What is relied on of the engine while a message is executed: `SV_ExecuteClientCommand` is the function above, and
`rest` is what the client is beside the fields of a message at each of its commands. -/
structure Executes (engine : Engine Msg) (env : Env) (rest : Client → Rest) : Prop where
  drop : ∀ cl reason, (engine.svDropClient cl reason).state = .csZombie
  think : ∀ cl cmd, Stays cl.state (engine.svClientThink cl cmd).state
  command : ∀ cl s clientOk, engine.svExecuteClientCommand cl s clientOk =
    (proxySvExecuteClientCommand env ⟨cl, rest cl⟩ s clientOk).cl.toClient

/-- The calls that a command of a message makes inside `Proxy_SV_ExecuteClientCommand`. -/
def commandCalls (env : Env) (rest : Client → Rest) (h : Handled) : List ServerCommands.Call :=
  match h.fate with
  | .executed clientOk =>
    (proxySvExecuteClientCommand env ⟨granted sv h.before, rest (granted sv h.before)⟩ h.s clientOk).calls
  | _ => []

/-- A client that was active is so, or has been dropped, and no gamestate was sent to it. -/
def InGame (turn : Turn) : Prop := Stays .csActive turn.cl.state ∧ ClientMessage.Call.svSendClientGameState ∉ turn.calls

theorem gamestate_mem_acts (calls : List ClientMessage.Call) :
    ClientMessage.Call.svSendClientGameState ∈ acts calls ↔ ClientMessage.Call.svSendClientGameState ∈ calls := by
  simp [acts, isPrint]

theorem InGame.log {turn : Turn} (inGame : InGame turn) {call : ClientMessage.Call} (other : call ≠ .svSendClientGameState)
    {cl : Client} (stays : Stays turn.cl.state cl.state) : InGame { turn.log call with cl } := by
  refine ⟨inGame.1.trans stays, ?_⟩
  intro sent
  rcases List.mem_append.mp sent with sooner | now
  · exact inGame.2 sooner
  · exact other (List.mem_singleton.mp now).symm

theorem clientCommand_inGame (documented : Documented env) (executes : Executes engine env rest) {turn : Turn}
    (active : turn.cl.state = .csActive) (quiet : ClientMessage.Call.svSendClientGameState ∉ turn.calls) (msg : Msg) :
    InGame (ClientMessage.proxySvClientCommand engine sv turn msg).2.1 ∧
      ∀ call ∈ commandCalls sv env rest (handledCommand engine sv turn msg), loads call = false := by
  obtain ⟨calls, outcome⟩ := clientCommand_cases engine sv turn msg
  have unsent : ClientMessage.Call.svSendClientGameState ∉ acts turn.calls := by rwa [gamestate_mem_acts]
  rw [InGame, ← gamestate_mem_acts, calls, commandCalls]
  rcases outcome with ⟨fate, _, _, same⟩ | ⟨clientOk, fate, _, _, client⟩ | ⟨fate, _, _, dropped⟩
  · simp [Handled.acts, fate, same, unsent, active, Stays]
  · have ready : (granted sv turn.cl).state = .csActive := by rw [granted_state, active]
    have plays := executeClientCommand_plays documented
      ⟨granted sv turn.cl, rest (granted sv turn.cl)⟩ ready (handledCommand engine sv turn msg).s clientOk
    rw [client, fate, executes.command]
    refine ⟨⟨plays.1, ?_⟩, plays.2⟩
    simp [Handled.acts, fate, unsent]
  · rw [dropped, fate]
    refine ⟨⟨Or.inr (executes.drop _ _), ?_⟩, ?_⟩
    · simp [Handled.acts, fate, unsent]
    · simp

theorem readCommands_inGame (documented : Documented env) (executes : Executes engine env rest) (turn : Turn) (msg : Msg)
    (active : turn.cl.state = .csActive) (quiet : ClientMessage.Call.svSendClientGameState ∉ turn.calls) :
    InGame (readCommands engine sv turn msg).2.1 ∧
      ∀ h ∈ handled engine sv turn msg, ∀ call ∈ commandCalls sv env rest h, loads call = false := by
  induction turn, msg using loop_induction engine sv with
  | ends turn msg other =>
    obtain ⟨read, none, _⟩ := loop_ends engine sv turn other
    rw [read, none]
    exact ⟨⟨Or.inl active, quiet⟩, by simp⟩
  | stops turn msg command stops =>
    obtain ⟨read, one⟩ := loop_stops engine sv turn command stops
    obtain ⟨inGame, calls⟩ := clientCommand_inGame sv documented executes active quiet (engine.msgReadByte msg).2
    rw [read, one]
    exact ⟨inGame, by simpa using calls⟩
  | goesOn turn msg command goesOn hypothesis =>
    obtain ⟨read, more⟩ := loop_goes_on engine sv turn command goesOn
    obtain ⟨⟨stays, unsent⟩, calls⟩ :=
      clientCommand_inGame sv documented executes active quiet (engine.msgReadByte msg).2
    -- The loop goes on with a client that is no zombie, so it is still active.
    have still : (ClientMessage.proxySvClientCommand engine sv turn (engine.msgReadByte msg).2).2.1.cl.state = .csActive :=
      stays.resolve_right fun zombie => goesOn (Or.inr zombie)
    obtain ⟨inGame, later⟩ := hypothesis still unsent
    rw [read, more]
    exact ⟨inGame, List.forall_mem_cons.mpr ⟨calls, later⟩⟩

theorem Move.inGame (executes : Executes engine env rest) {turn next : Turn} (move : Move engine sv turn next)
    (inGame : InGame turn) : InGame next := by
  cases move with
  | delta deltaMessage => exact inGame
  | acknowledge =>
    refine ⟨inGame.1.trans (Or.inl ?_), inGame.2⟩
    simp only [ClientMessage.acknowledgeFrame]
    split <;> rfl
  | print text => exact inGame.log (by simp) (Or.inl rfl)
  | receive cmds => exact inGame.log (by simp) (Or.inl rfl)
  | enter cmd primed =>
    rcases inGame.1 with active | zombie
    · rw [active] at primed
      cases primed
    · rw [zombie] at primed
      cases primed
  | drop reason => exact inGame.log (by simp) (Or.inr (executes.drop turn.cl reason))
  | think cmd => exact inGame.log (by simp) (executes.think turn.cl cmd)

theorem Moves.inGame (executes : Executes engine env rest) {turn next : Turn} (moves : Moves engine sv turn next)
    (inGame : InGame turn) : InGame next := by
  induction moves with
  | refl => exact inGame
  | tail _ move hypothesis => exact Move.inGame sv executes move hypothesis

theorem afterCommands_inGame (executes : Executes engine env rest) (read : Option Int32 × Turn × Msg)
    (inGame : InGame read.2.1) : InGame (afterCommands engine sv read) := by
  obtain ⟨_ | c, turn, msg⟩ := read
  · exact inGame
  · exact Moves.inGame sv executes (afterCommands_moves engine sv c turn msg) inGame

/-- Whatever the message, an active client is active after it or has been dropped, and no gamestate was sent to it. -/
theorem message_inGame (documented : Documented env) (executes : Executes engine env rest) (cl : Client)
    (active : cl.state = .csActive) (msg : Msg) :
    InGame (proxySvExecuteClientMessage engine sv cl msg) ∧
      ∀ h ∈ messageHandled engine sv cl msg, ∀ call ∈ commandCalls sv env rest h, loads call = false := by
  obtain ⟨messageAcknowledge, reliableAcknowledge, now, same, ⟨rest, part, result⟩ | ⟨part, ended⟩⟩ :=
    executeClientMessage_cases engine sv cl msg
  · have still : now.state = .csActive := by rw [same, active]
    have known : messageHandled engine sv cl msg = handled engine sv ⟨now, []⟩ rest := by rw [messageHandled, part]
    obtain ⟨inGame, calls⟩ := readCommands_inGame sv documented executes ⟨now, []⟩ rest still (by simp)
    rw [result, known]
    exact ⟨afterCommands_inGame sv executes _ inGame, calls⟩
  · have known : messageHandled engine sv cl msg = [] := by rw [messageHandled, part]
    rcases ended with ⟨client, none⟩ | ⟨inactive, _⟩
    · rw [InGame, ← gamestate_mem_acts, client, none, known, same, active]
      exact ⟨⟨Or.inl rfl, by simp⟩, by simp⟩
    · exact absurd active inactive

/-! ## The gamestate -/

/-- What is relied on of the engine where it sends a message: the state of the client stays. -/
structure Sends (sender : Sender) : Prop where
  update : ∀ cl, (sender.svUpdateServerCommandsToClient cl).1.state = cl.state
  transmit : ∀ msg cl, (sender.svNetchanTransmit msg cl).1.state = cl.state

theorem writeOldFragments_state (sender : Sender) (place : CString) (work : Work) :
    (writeOldFragments sender place work).cl.state = work.cl.state := by
  induction work using writeOldFragments.induct sender place with
  | case1 work unsent _ hypothesis =>
    rw [writeOldFragments, dif_pos unsent]
    exact hypothesis
  | case2 work sent => rw [writeOldFragments, dif_neg sent]

theorem scheduleNext_state (env : Env) (sender : Sender) (size : Int32) (work : Work) :
    (scheduleNext env sender size work).cl.state = work.cl.state := by
  rw [scheduleNext]
  split
  · rfl
  · simp only [scheduleSnapshot]
    split <;> rfl

theorem sendMessageToClient_state (env : Env) {sender : Sender} (sends : Sends sender) (msg : List Write) (work : Work) :
    (proxySvSendMessageToClient env sender msg work).cl.state = work.cl.state := by
  have fragments := writeOldFragments_state sender "[1]".toList work
  rw [proxySvSendMessageToClient, scheduleNext_state, sends.transmit]
  split <;> exact fragments

theorem primeConnected_state (work : Work) :
    (primeConnected work).cl.state = if work.cl.state = .csConnected then .csPrimed else work.cl.state := by
  rw [primeConnected]
  split <;> rfl

theorem sendClientGameState_state (env : Env) {sender : Sender} (sends : Sends sender) (gamestate : Gamestate)
    (client : ClientT) :
    (proxySvSendClientGameState env sender gamestate client).cl.state =
      if client.state = .csConnected then .csPrimed else client.state := by
  rw [proxySvSendClientGameState, sendMessageToClient_state env sends]
  simp only [sends.update, primeConnected_state, Work.log, writeOldFragments_state]

/-- No message sends a gamestate to an active client or lets it load, and the client stays active or is dropped; and a
gamestate takes a client from connected to primed and from no other state. -/
theorem active_stays_active (documented : Documented env) (executes : Executes engine env rest) {sender : Sender}
    (sends : Sends sender) (gamestate : Gamestate) :
    (∀ sv cl, cl.state = .csActive → ∀ msg,
      ClientMessage.Call.svSendClientGameState ∉ (proxySvExecuteClientMessage engine sv cl msg).calls ∧
        (∀ h ∈ messageHandled engine sv cl msg, ∀ call ∈ commandCalls sv env rest h, loads call = false) ∧
        ((proxySvExecuteClientMessage engine sv cl msg).cl.state = .csActive ∨
          (proxySvExecuteClientMessage engine sv cl msg).cl.state = .csZombie)) ∧
      ∀ client, (proxySvSendClientGameState env sender gamestate client).cl.state =
        if client.state = .csConnected then .csPrimed else client.state := by
  constructor
  · intro sv cl active msg
    obtain ⟨⟨stays, unsent⟩, calls⟩ := message_inGame sv documented executes cl active msg
    exact ⟨unsent, calls, stays⟩
  · intro client
    exact sendClientGameState_state env sends gamestate client

/-- The numbers that stand for a command in a message of the sample. -/
def sampleTexts : List CString :=
  ["donedl".toList, "download ui.pk3".toList, "userinfo \"\\name\\Kyle\"".toList, "cp 1 2 @ 3 4".toList]

def sampleEnv : Env where
  finalBuild := true
  time := 5000
  ssGame := true
  checksumFeed := 0
  svPure := true
  vmCgame := false
  vmUi := false
  fsFileIsInPak _ := some 1
  fsLoadedPakPureChecksums := []
  userinfoEngine := UserinfoChanged.plainEngine
  userinfoCvars := ⟨64, 5000, 20, 40, 40⟩
  userinfoName userinfo := infoValueForKey userinfo.text "name".toList
  svDropClient cl _ := { cl with state := .csZombie }
  svSendClientSnapshot cl := cl
  originalSvBeginDownload tokens cl := { cl with downloadName := cmdArgv tokens 1 }
  originalSvDoneDownload cl := { cl with state := .csPrimed }
  gameClientUserinfoChanged cl := cl
  gameClientCommand _ cl := cl

def sampleRest : Rest where
  info := ⟨.copy [], ⟨.naIp, ⟨127, 0, 0, 1⟩, 29070⟩, 25000, 50⟩
  lastUserInfoChange := 0
  lastUserInfoCount := 0
  nextSnapshotTime := 0
  download := 0
  downloadBlocks _ := false
  downloadBlockSize _ := 0
  downloadClientBlock := 0
  downloadSendTime := 0
  messageSent _ := 0
  messageSize _ := 0
  rateDelayed := false
  netchan := ⟨1, true, 0, 100⟩

def sampleEngine : Engine (List Int32) :=
  { ClientMessage.numbersEngine with
    msgReadString := fun msg => (sampleTexts.getD (msg.headD 0).toInt.toNat [], msg.tail)
    svExecuteClientCommand := fun cl s clientOk =>
      (proxySvExecuteClientCommand sampleEnv ⟨cl, sampleRest⟩ s clientOk).cl.toClient
    left_string := fun msg => (List.tail_sublist msg).length_le }

def sampleSender : Sender where
  svMaxRate := 0
  proxySvPingFix := true
  proxySvEnableNetStatus := true
  milliseconds := 5000
  curSize _ := 100
  sysIsLanAddress _ := false
  netchanTransmitNextFragment chan := { chan with unsentFragments := false }
  svUpdateServerCommandsToClient cl := (cl, [])
  svNetchanTransmit _ cl := (cl, 101)
  left chan := if chan.unsentFragments then 1 else 0
  left_fragment chan unsent := by simp [unsent]

/-- A message of the sample client with the commands 1 to 4: `donedl`, a download, a userinfo and a `cp` that fails. -/
def sampleMessage : List Int32 := [0, 1, 1, 4, 1, 0, 4, 2, 1, 4, 3, 2, 4, 4, 3, 5]

theorem active_stays_active_sample :
    (ClientMessage.Call.svSendClientGameState ∉
        (proxySvExecuteClientMessage sampleEngine sampleServer ClientMessage.sampleClient sampleMessage).calls ∧
      (∀ h ∈ messageHandled sampleEngine sampleServer ClientMessage.sampleClient sampleMessage,
        ∀ call ∈ commandCalls sampleServer sampleEnv (fun _ => sampleRest) h, loads call = false) ∧
      ((proxySvExecuteClientMessage sampleEngine sampleServer ClientMessage.sampleClient sampleMessage).cl.state =
          .csActive ∨
        (proxySvExecuteClientMessage sampleEngine sampleServer ClientMessage.sampleClient sampleMessage).cl.state =
          .csZombie)) ∧
      (proxySvSendClientGameState sampleEnv sampleSender ⟨[], []⟩ ⟨ClientMessage.sampleClient, sampleRest⟩).cl.state =
        .csActive := by
  have documented : Documented sampleEnv := ⟨fun _ _ => rfl, fun _ => Or.inl rfl, fun _ _ => Or.inl rfl⟩
  have executes : Executes sampleEngine sampleEnv fun _ => sampleRest :=
    ⟨fun _ _ => rfl, fun _ _ => Or.inl rfl, fun _ _ _ => rfl⟩
  have sends : Sends sampleSender := ⟨fun _ => rfl, fun _ _ => rfl⟩
  obtain ⟨message, sent⟩ := active_stays_active documented executes sends ⟨[], []⟩
  exact ⟨message sampleServer ClientMessage.sampleClient rfl sampleMessage, sent _⟩

end YbeProxy.ActiveClients
