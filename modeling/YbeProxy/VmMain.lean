import YbeProxy.BanRuns
import YbeProxy.Connection
import YbeProxy.Restart
import YbeProxy.SpectatorChat

/-!
# The proxy module

`vmMain` of `Module/Main.cpp` and `Syscall` of `Module/GameImports.cpp`, with `Module/GameExports.cpp` and the features
behind them: the engine calls the game through the proxy, and the game calls the engine through it. Such a call can
come back as another call of the engine before it returns, so the calls under way are a stack. What the proxy reads of
the engine is part of each event: the words of the command, the configstrings, the userinfos, the clocks and the cvars.
Level times stay below the time at which the engine restarts the map, so that no sum of times overflows.
-/

namespace YbeProxy.VmMain
open YbeProxy.Strings YbeProxy.Infostrings YbeProxy.Userinfo YbeProxy.ClientCommands YbeProxy.SpectatorChat
open YbeProxy.Connection (Slot getBaseAddress keyIp addressSize)
open YbeProxy.BanRuns (clientNumArgument)

/-! ## The state -/

structure ClientData extends Connection.ClientData where
  muted : Bool
  /-- Server time of the last `/netStatus` or `/explainNetStatus`. -/
  lastCommandTime : Int
  /-- `levelTime` of the last `/myratio`. -/
  lastTimeMyratioCheck : Int
  /-- `levelTime` of the last `/proxyconfig`. -/
  lastTimeProxyConfig : Int

def ClientData.empty : ClientData := ⟨.empty, false, 0, 0, 0⟩

structure Proxy where
  isOriginalEngine : Bool
  levelTime : Int
  clientData : Slot → ClientData
  bans : BanFile.Server
  spectatorChat : Bool
  gameArgv : GameArgv
  voteAddresses : Slot → CString
  /-- `requested` of `Engine/Restart.cpp`. -/
  restartRequested : Bool

/-- A module just loaded, with the ban list that `BeforeGameInit` left. -/
def Proxy.init (isOriginalEngine : Bool) (bans : BanFile.Server) : Proxy :=
  ⟨isOriginalEngine, 0, fun _ => .empty, bans, false, .none, fun _ => [], false⟩

def Proxy.setClient (proxy : Proxy) (clientNum : Slot) (data : ClientData) : Proxy :=
  { proxy with clientData := Function.update proxy.clientData clientNum data }

/-- What `Features/Connection.cpp` and `Features/Userinfo.cpp` use of the data. -/
def Proxy.connection (proxy : Proxy) : Slot → Connection.ClientData := fun i => (proxy.clientData i).toClientData

def Proxy.withConnection (proxy : Proxy) (clientData : Slot → Connection.ClientData) : Proxy :=
  { proxy with clientData := fun i => { proxy.clientData i with toClientData := clientData i } }

/-- The engine, as a call reads it, with the cvars that the proxy holds. -/
structure Engine where
  argv : List CString
  /-- The configstrings from `CS_PLAYERS` on. -/
  players : Nat → CString
  userinfo : Slot → Infostring
  /-- `SVF_BOT` of the entity of the client. -/
  bot : Slot → Bool
  svs : Restart.Svs
  mapname : CString
  svMaxclients : Int
  svGametype : Int
  proxySvMaxClientsPerIP : Int
  proxySvDisableWelcomeMessage : Bool
  proxySvDisableKillCmd : Bool
  proxySvMaxCallVoteMapRestartValue : Int
  proxySvAllowSamePlayerNames : Bool
  proxySvModelPathLength : Int
  proxySvEnableNetStatus : Bool

def Engine.svsTime (engine : Engine) : Int := engine.svs.time.toInt

def Engine.server (engine : Engine) : ClientCommands.Server :=
  ⟨engine.svMaxclients, engine.proxySvDisableKillCmd, engine.proxySvMaxCallVoteMapRestartValue, engine.players⟩

def Engine.environment (engine : Engine) : Environment :=
  ⟨engine.proxySvAllowSamePlayerNames, engine.proxySvModelPathLength, engine.players⟩

/-! ## Events and answers -/

/-- The commands of `vmMain`. -/
inductive Call
  | runFrame (levelTime : Int)
  | clientConnect (clientNum : Slot) (firstTime isBot : Bool)
  | clientDisconnect (clientNum : Slot)
  | clientBegin (clientNum : Slot)
  | clientCommand (clientNum : Slot)
  | consoleCommand
  | clientUserinfoChanged (clientNum : Slot)
  | other
  deriving DecidableEq

/-- The system calls of the game that the proxy looks at. -/
inductive Syscall
  | argv (n : Int) (bufferLength : Nat)
  | sendServerCommand (clientNum : Int) (text : CString)
  | sendConsoleCommand (exec : Int) (text : Option CString)
  | setConfigstring (num : Int) (string : Option CString)
  | other
  deriving DecidableEq

inductive Event
  | enter (call : Call) (engine : Engine)
  | syscall (call : Syscall) (engine : Engine)
  /-- The game returns from the innermost call, and whether it refuses the client that connects. -/
  | leave (refused : Bool) (engine : Engine)

/-- What the proxy asks of the engine itself. The last four are what a function of that name prints. -/
inductive Request
  | print (text : CString)
  | sendServerCommand (clientNum : Int) (text : CString)
  | sendConsoleCommand (exec : Int) (text : CString)
  | dropClient (clientNum : Int) (reason : CString)
  | setUserinfo (clientNum : Slot) (userinfo : CString)
  | myRatio (clientNum : Slot)
  | printConfig (clientNum : Option Slot)
  | netStatus (clientNum : Slot)
  | explainNetStatus (clientNum : Slot)
  deriving DecidableEq

def Request.ofCommand : ClientCommands.Request → Request
  | .sendServerCommand clientNum text => .sendServerCommand clientNum text
  | .dropClient clientNum reason => .dropClient clientNum reason

def execAppend : Int := 2

def Request.ofRestart : Restart.Call → Request
  | .print text => .print text
  | .sendConsoleCommand text => .sendConsoleCommand execAppend text

inductive Result
  /-- The call goes to the game. -/
  | game
  /-- The engine refuses the client with a reason of the proxy. -/
  | refused (reason : CString)
  | returned (value : Bool)
  /-- The system call goes to the engine, as it is given here. -/
  | engine (call : Syscall)
  /-- The game reads an argument of the proxy. -/
  | argument (text : CString)
  | dropped
  /-- The game has returned from a call. -/
  | left (call : Option Call)
  deriving DecidableEq

structure Answer where
  requests : List Request
  result : Result
  deriving DecidableEq

/-! ## `GameExports` -/

/-- `RunFrame`, without the cvars that it updates and the clock of the network estimates. -/
def runFrame (engine : Engine) (proxy : Proxy) (levelTime : Int) : List Request × Proxy :=
  let asked := if proxy.isOriginalEngine then Restart.beforeWrap engine.svs engine.mapname proxy.restartRequested
    else ([], proxy.restartRequested)
  (asked.1.map .ofRestart, { proxy with levelTime, restartRequested := asked.2 })

def clientConnect (engine : Engine) (proxy : Proxy) (clientNum : Slot) (firstTime isBot : Bool) : Answer × Proxy :=
  let connected := Connection.clientConnect engine.proxySvMaxClientsPerIP ⟨proxy.bans.bans, engine.environment⟩
    proxy.connection clientNum firstTime isBot (engine.userinfo clientNum)
  let proxy := proxy.withConnection connected.clientData
  match connected.reason with
  | some reason => (⟨[], .refused reason⟩, proxy)
  | none => (⟨if isBot then [] else [.setUserinfo clientNum connected.userinfo.text], .game⟩, proxy)

/-- `ClientConnected`, once the game has accepted the client. -/
def clientConnected (engine : Engine) (proxy : Proxy) (clientNum : Slot) (isBot : Bool) : Proxy :=
  proxy.withConnection (Connection.connected proxy.connection clientNum isBot (engine.userinfo clientNum).text)

def clientDisconnect (proxy : Proxy) (clientNum : Slot) : Proxy := proxy.setClient clientNum .empty

def welcome : CString := "print \"^5YbeProxy (^71.0.0^5) by Yberion^7\n\"".toList

def clientBegin (engine : Engine) (proxy : Proxy) (clientNum : Slot) : List Request × Proxy :=
  let data := proxy.clientData clientNum
  (if data.sendWelcomeMessage && !engine.proxySvDisableWelcomeMessage then [.sendServerCommand clientNum welcome] else [],
    proxy.setClient clientNum { data with isConnected := true, sendWelcomeMessage := false })

def myRatio (proxy : Proxy) (clientNum : Slot) : List Request × Proxy :=
  let data := proxy.clientData clientNum
  if data.lastTimeMyratioCheck + 1000 > proxy.levelTime then ([], proxy)
  else ([.myRatio clientNum], proxy.setClient clientNum { data with lastTimeMyratioCheck := proxy.levelTime })

def proxyconfig (proxy : Proxy) (clientNum : Slot) : List Request × Proxy :=
  let data := proxy.clientData clientNum
  if data.lastTimeProxyConfig + 1000 ≤ proxy.levelTime then
    ([.printConfig (some clientNum)], proxy.setClient clientNum { data with lastTimeProxyConfig := proxy.levelTime })
  else ([], proxy)

/-- `Run` of `Features/ClientCommands.cpp`; none where the command is not one of the proxy. -/
def run (proxy : Proxy) (clientNum : Slot) (cmd : CString) : Option (List Request × Proxy) :=
  if named cmd "myratio" then some (myRatio proxy clientNum)
  else if named cmd "proxyconfig" then some (proxyconfig proxy clientNum)
  else none

/-- `NetStatus` and `ExplainNetStatus`, which share their time. -/
def status (engine : Engine) (proxy : Proxy) (clientNum : Slot) (request : Request) : List Request × Proxy :=
  let data := proxy.clientData clientNum
  if data.lastCommandTime + 500 > engine.svsTime then ([], proxy)
  else ([request], proxy.setClient clientNum { data with lastCommandTime := engine.svsTime })

/-- `Run` of `Engine/NetStatusCommands.cpp`, on the original engine only. -/
def netStatusRun (engine : Engine) (proxy : Proxy) (clientNum : Slot) (cmd : CString) : Option (List Request × Proxy) :=
  if !proxy.isOriginalEngine || !engine.proxySvEnableNetStatus then none
  else if named cmd "netStatus" || named cmd "showNet" then some (status engine proxy clientNum (.netStatus clientNum))
  else if named cmd "explainNetStatus" then some (status engine proxy clientNum (.explainNetStatus clientNum))
  else none

def clientCommand (engine : Engine) (proxy : Proxy) (clientNum : Slot) : Answer × Proxy :=
  let data := proxy.clientData clientNum
  if !data.isConnected then (⟨[], .returned false⟩, proxy)
  else
    let cmd := argv engine.argv 0 maxTokenChars
    let answer := allowed engine.server ⟨data.cleanName, data.muted⟩ clientNum engine.argv cmd
    if !answer.1 then (⟨answer.2.map .ofCommand, .returned false⟩, proxy)
    else match (run proxy clientNum cmd).or (netStatusRun engine proxy clientNum cmd) with
      | some (requests, proxy) => (⟨requests, .returned false⟩, proxy)
      | none => (⟨[], .game⟩, { proxy with
          spectatorChat := proxy.spectatorChat || spectatorSays engine.svGametype engine.players clientNum cmd
          gameArgv := replaceArguments engine.server engine.argv cmd })

def clientCommandDone (proxy : Proxy) : Proxy := { proxy with spectatorChat := false, gameArgv := .none }

def clientUserinfoChanged (engine : Engine) (proxy : Proxy) (clientNum : Slot) : Answer × Proxy :=
  let sanitized := sanitize engine.environment clientNum (!engine.bot clientNum) (engine.userinfo clientNum)
  let proxy := proxy.withConnection (Connection.withName proxy.connection clientNum sanitized.cleanName)
  match sanitized.refusal with
  | some refusal =>
    let told := if refusal.isAntiCheat then [.sendServerCommand (-1) ("chat \"^3(Anti-Cheat system) ^7".toList ++
      (proxy.clientData clientNum).cleanName ++ "^3 got kicked cause of cheating^7\"".toList)] else []
    (⟨told ++ [.dropClient clientNum refusal.reason], .returned false⟩, proxy)
  | none =>
    (⟨if (engine.userinfo clientNum).text = [] then [] else [.setUserinfo clientNum sanitized.userinfo.text], .game⟩, proxy)

/-! ## Console commands -/

def console (engine : Engine) (proxy : Proxy) : BanRuns.Console :=
  ⟨engine.argv, engine.svMaxclients, fun i =>
    if slot : i < maxClients then
      let data := proxy.clientData ⟨i, slot⟩
      ⟨data.isConnected, data.cleanName, data.address⟩
    else ⟨false, [], []⟩⟩

/-- `strpbrk(team, ";\"\n\r")`. -/
def breaksCommand (team : CString) : Bool := team.any fun c => c ∈ [';', '"', '\n', '\r']

def forceTeamEveryone (engine : Engine) (proxy : Proxy) (team : CString) : List Request :=
  if team = [] || breaksCommand team then [.print "Usage: forceteam -1 <team>\n".toList]
  else
    let clients := (List.finRange maxClients).filter fun i =>
      (i.val : Int) < engine.svMaxclients && (proxy.clientData i).isConnected
    clients.map fun i =>
      .sendConsoleCommand execAppend ("forceteam ".toList ++ decimal i ++ " \"".toList ++ team ++ "\"\n".toList)

def mutedText : CString := "print \"You have been muted.\n\"".toList
def unmutedText : CString := "print \"You are no longer muted.\n\"".toList

def setMuted (proxy : Proxy) (clientNum : Nat) (mute : Bool) : Proxy :=
  { proxy with clientData := fun i =>
      if i.val = clientNum then { proxy.clientData i with muted := mute } else proxy.clientData i }

def muteCommand (engine : Engine) (proxy : Proxy) (cmd : CString) (mute : Bool) : List Request × Proxy :=
  match clientNumArgument (console engine proxy) with
  | none => ([.print ("Usage: ".toList ++ cmd ++ " <client number>, of a player in the game (see status)\n".toList)], proxy)
  | some clientNum =>
    ([.print (((console engine proxy).clientData clientNum).cleanName ++ " ^7".toList ++
        (if mute then "is muted".toList else "is no longer muted".toList) ++ "\n".toList),
      .sendServerCommand clientNum (if mute then mutedText else unmutedText)], setMuted proxy clientNum mute)

/-- `Run` of `Features/ConsoleCommands.cpp`: false when the game has to handle the command. -/
def consoleCommand (engine : Engine) (proxy : Proxy) : Bool × List Request × Proxy :=
  let cmd := argv engine.argv 0 maxTokenChars
  let banned := BanRuns.consoleCommand proxy.bans (console engine proxy)
  if banned.1 then (true, [], { proxy with bans := banned.2 })
  else if named cmd "proxyconfig" then (true, [.printConfig none], proxy)
  else if named cmd "forceteam" then
    if argv engine.argv 1 maxTokenChars ≠ "-1".toList then (false, [], proxy)
    else (true, forceTeamEveryone engine proxy (argv engine.argv 2 maxTokenChars), proxy)
  else if named cmd "mute" then (true, muteCommand engine proxy cmd true)
  else if named cmd "unmute" then (true, muteCommand engine proxy cmd false)
  else (false, [], proxy)

/-! ## Votes -/

def csVoteTime : Int := 8

/-- `ConfigstringSet`: the addresses are kept when a vote starts. -/
def configstringSet (proxy : Proxy) (num : Int) (string : Option CString) : Proxy :=
  if num ≠ csVoteTime ∨ string.getD [] = [] then proxy
  else { proxy with voteAddresses := fun i => qStrncpyz (proxy.clientData i).address addressSize }

/-- The slot of a kick that `ConsoleCommand` of `Features/Votes.cpp` looks at. -/
def kickSlot (exec : Int) (text : Option CString) : Option Slot :=
  match text with
  | none => none
  | some text =>
    if exec ≠ execAppend ∨ qStricmpn text "clientkick ".toList 11 ≠ 0 then none
    else
      let slot := atoi (text.drop 11)
      if inside : 0 ≤ slot ∧ slot < maxClients then some ⟨slot.toNat, (Int.toNat_lt inside.1).mpr inside.2⟩ else none

def kickCanceled : CString := "print \"Vote kick canceled: the player left the server.\n\"".toList

/-- `ConsoleCommand` of `Features/Votes.cpp`. -/
def voteKick (proxy : Proxy) (exec : Int) (text : Option CString) : Bool :=
  match kickSlot exec text with
  | none => true
  | some slot => (proxy.clientData slot).address = proxy.voteAddresses slot

/-! ## The module -/

/-- A system call of the game, on its way to the engine. -/
def syscall (engine : Engine) (proxy : Proxy) : Syscall → Answer × Proxy
  | .argv n bufferLength =>
    let replaced := proxy.gameArgv.entry n.toNat
    (⟨[], if n < 1 ∨ replaced = [] then .engine (.argv n bufferLength) else .argument (qStrncpyz replaced bufferLength)⟩,
      proxy)
  | .sendServerCommand clientNum text =>
    (⟨[], match teamChat proxy.spectatorChat engine.players clientNum text with
      | some text => .engine (.sendServerCommand clientNum text)
      | none => .dropped⟩, proxy)
  | .sendConsoleCommand exec text =>
    (if voteKick proxy exec text then ⟨[], .engine (.sendConsoleCommand exec text)⟩
      else ⟨[.sendServerCommand (-1) kickCanceled], .dropped⟩, proxy)
  | .setConfigstring num string => (⟨[], .engine (.setConfigstring num string)⟩, configstringSet proxy num string)
  | .other => (⟨[], .engine .other⟩, proxy)

/-- A call of the engine, up to the game. -/
def vmMain (engine : Engine) (proxy : Proxy) : Call → Answer × Proxy
  | .runFrame levelTime =>
    let ran := runFrame engine proxy levelTime
    (⟨ran.1, .game⟩, ran.2)
  | .clientConnect clientNum firstTime isBot => clientConnect engine proxy clientNum firstTime isBot
  | .clientDisconnect clientNum => (⟨[], .game⟩, clientDisconnect proxy clientNum)
  | .clientBegin clientNum =>
    let begun := clientBegin engine proxy clientNum
    (⟨begun.1, .game⟩, begun.2)
  | .clientCommand clientNum => clientCommand engine proxy clientNum
  | .consoleCommand =>
    let handled := consoleCommand engine proxy
    (⟨handled.2.1, if handled.1 then .returned true else .game⟩, handled.2.2)
  | .clientUserinfoChanged clientNum => clientUserinfoChanged engine proxy clientNum
  | .other => (⟨[], .game⟩, proxy)

/-- What `vmMain` does once the game has returned. -/
def vmMainDone (engine : Engine) (proxy : Proxy) (refused : Bool) : Call → Proxy
  | .clientConnect clientNum _ isBot => if refused then proxy else clientConnected engine proxy clientNum isBot
  | .clientCommand _ => clientCommandDone proxy
  | _ => proxy

/-- The proxy, and the calls that the game has not returned from, the innermost first. -/
structure Module where
  proxy : Proxy
  calls : List Call

/-- A module just loaded, outside any call. -/
def Module.init (isOriginalEngine : Bool) (bans : BanFile.Server) : Module := ⟨.init isOriginalEngine bans, []⟩

def step (module : Module) : Event → Answer × Module
  | .enter call engine =>
    let entered := vmMain engine module.proxy call
    (entered.1, ⟨entered.2, if entered.1.result = .game then call :: module.calls else module.calls⟩)
  | .syscall call engine =>
    let passed := syscall engine module.proxy call
    (passed.1, ⟨passed.2, module.calls⟩)
  | .leave refused engine =>
    match module.calls with
    | [] => (⟨[], .left none⟩, module)
    | call :: calls => (⟨[], .left (some call)⟩, ⟨vmMainDone engine module.proxy refused call, calls⟩)

end YbeProxy.VmMain
