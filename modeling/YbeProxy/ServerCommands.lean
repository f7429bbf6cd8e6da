import YbeProxy.ClientMessage
import YbeProxy.Cmd
import YbeProxy.UserinfoChanged

/-!
# Server commands

The commands of a client that the server itself executes, in the `ucmds` table of `Engine/Hooks/server/sv_client.cpp`,
and `Proxy_SV_SendClientGameState` of the same file. The functions of the engine and of the game that they call are
parameters.
-/

namespace YbeProxy.ServerCommands
open YbeProxy.Strings YbeProxy.Infostrings
open YbeProxy.ClientMessage (Client contains)
open YbeProxy.Cmd (cmdArgv cmdTokenizeString2)

def maxDownloadWindow : Nat := 8
def infoChangeMinInterval : Int32 := 6000
def infoChangeMaxCount : Int32 := 3

/-- What the functions below use of `netchan_t`. -/
structure Netchan where
  outgoingSequence : Int32
  unsentFragments : Bool
  unsentFragmentStart : Int32
  unsentLength : Int32

/-- What the functions below use of `client_t` beside what a message uses of it. A download block is told by whether it
is allocated, and a frame by its times and its size. -/
structure Rest where
  info : UserinfoChanged.Client
  lastUserInfoChange : Int32
  lastUserInfoCount : Int32
  nextSnapshotTime : Int32
  download : Int32
  downloadBlocks : Nat → Bool
  downloadBlockSize : Nat → Int32
  downloadClientBlock : Int32
  downloadSendTime : Int32
  messageSent : Nat → Int32
  messageSize : Nat → Int32
  rateDelayed : Bool
  netchan : Netchan

structure ClientT extends Client, Rest

/-- The baseline of an entity, told by its number. -/
structure Baseline where
  number : Int32

inductive Write
  | long (value : Int32)
  | short (value : Nat)
  | byte (value : Nat)
  | bigString (text : CString)
  | deltaEntity (base : Baseline)

inductive Call
  | svDropClient (reason : CString)
  | originalSvBeginDownload
  | originalSvDoneDownload
  | svSendClientSnapshot
  | svSendServerCommand (text : CString)
  | gameClientUserinfoChanged
  | gameClientCommand
  | fsFCloseFile (download : Int32)
  | zFree (block : Nat)
  | netchanTransmitNextFragment
  | snapshotSent
  | svNetchanTransmit (msg : List Write)
  | cvarSet (name value : CString)
  | comPrintf (text : CString)
  | comDPrintf (text : CString)

/-- The server, its cvars and files, and what the functions of the engine and of the game make of a client. A command of
the game reads the tokens too. -/
structure Env where
  finalBuild : Bool
  time : Int32
  ssGame : Bool
  checksumFeed : Int32
  svPure : Bool
  vmCgame : Bool
  vmUi : Bool
  /-- The checksum of the pak that holds the file, if one does. -/
  fsFileIsInPak : CString → Option Int32
  fsLoadedPakPureChecksums : CString
  userinfoEngine : UserinfoChanged.Engine
  userinfoCvars : UserinfoChanged.Cvars
  /-- The name that the original `SV_UserinfoChanged` takes from a userinfo. -/
  userinfoName : Infostring → CString
  svDropClient : ClientT → CString → ClientT
  svSendClientSnapshot : ClientT → ClientT
  originalSvBeginDownload : List CString → ClientT → ClientT
  originalSvDoneDownload : ClientT → ClientT
  gameClientUserinfoChanged : ClientT → ClientT
  gameClientCommand : List CString → ClientT → ClientT

/-- The client while its command is executed, and the calls made so far. -/
structure Work where
  cl : ClientT
  calls : List Call

def Work.log (work : Work) (call : Call) : Work := { work with calls := work.calls ++ [call] }

def Work.dropClient (env : Env) (work : Work) (reason : CString) : Work :=
  { work.log (.svDropClient reason) with cl := env.svDropClient work.cl reason }

variable (env : Env) (tokens : List CString)

/-! ## Downloads -/

def fsCheckDirTraversal (checkdir : CString) : Bool :=
  contains checkdir "../".toList || contains checkdir "..\\".toList

def proxySvBeginDownloadF (work : Work) : Work :=
  if work.cl.state = .csActive then work
  else
    let fileName := cmdArgv tokens 1
    if fileName.length < 5 ∨ fsCheckDirTraversal fileName ∨
        qStricmpn (fileName.drop (fileName.length - 4)) ".pk3".toList 4 ≠ 0 then work
    else { work.log .originalSvBeginDownload with cl := env.originalSvBeginDownload tokens work.cl }

def freeBlock (work : Work) (i : Nat) : Work :=
  if work.cl.downloadBlocks i then
    { work.log (.zFree i) with
      cl := { work.cl with downloadBlocks := Function.update work.cl.downloadBlocks i false } }
  else work

def proxySvCloseDownload (work : Work) : Work :=
  let work := if work.cl.download ≠ 0 then work.log (.fsFCloseFile work.cl.download) else work
  let work := { work with cl := { work.cl with download := 0, downloadName := [] } }
  (List.range maxDownloadWindow).foldl freeBlock work

/-- The start of the lines that are printed about a download. -/
def clientDownload (work : Work) : CString := "clientDownload: ".toList ++ decimal work.cl.num ++ " : ".toList

def proxySvNextDownloadF (work : Work) : Work :=
  if work.cl.state = .csActive then work
  else
    let block := Int32.ofInt (atoi (cmdArgv tokens 1))
    if block = work.cl.downloadClientBlock then
      let work := work.log (.comDPrintf (clientDownload work ++ "client acknowledge of block ".toList ++
        decimalInt block.toInt ++ "\n".toList))
      -- A block of no size is the end of the file.
      if work.cl.downloadBlockSize (work.cl.downloadClientBlock.toInt.toNat % maxDownloadWindow) = 0 then
        proxySvCloseDownload (work.log (.comPrintf (clientDownload work ++ "file \"".toList ++ work.cl.downloadName ++
          "\" completed\n".toList)))
      else
        { work with cl := { work.cl with
          downloadSendTime := env.time, downloadClientBlock := work.cl.downloadClientBlock + 1 } }
    else work.dropClient env "broken download".toList

def proxySvStopDownloadF (work : Work) : Work :=
  if work.cl.state = .csActive then work
  else
    proxySvCloseDownload (if work.cl.downloadName ≠ [] then
      work.log (.comDPrintf (clientDownload work ++ "file \"".toList ++ work.cl.downloadName ++ "\" aborted\n".toList))
    else work)

def proxySvDoneDownloadF (work : Work) : Work :=
  if work.cl.state = .csActive then work
  else { work.log .originalSvDoneDownload with cl := env.originalSvDoneDownload work.cl }

/-! ## The other commands -/

def proxySvResetPureClientF (work : Work) : Work := { work with cl := { work.cl with pureAuthentic := 0 } }

def proxySvGetStringEdString (refName : CString) : CString := comSprintf 1024 ("@@@".toList ++ refName)

def proxySvDisconnectF (work : Work) : Work :=
  work.dropClient env (proxySvGetStringEdString "DISCONNECTED".toList)

/-- `Proxy_SV_UserinfoChanged`, of `UserinfoChanged`: it drops the client, or the name of the client changes too. -/
def svUserinfoChanged (work : Work) : Work :=
  let outcome := UserinfoChanged.proxySvUserinfoChanged env.userinfoEngine env.userinfoCvars work.cl.info
  let work := { work with cl := { work.cl with info := outcome.client } }
  match outcome.dropped with
  | some reason => work.dropClient env reason
  | none => { work with cl := { work.cl with name := env.userinfoName outcome.client.userinfo } }

/-- The end of `Proxy_SV_UpdateUserinfo_f`, where the userinfo is taken over. -/
def takeUserinfo (arg : CString) (work : Work) : Work :=
  let work := svUserinfoChanged env { work with cl := { work.cl with
    info := { work.cl.info with userinfo := Infostring.copy arg } } }
  { work.log .gameClientUserinfoChanged with cl := env.gameClientUserinfoChanged work.cl }

def proxySvUpdateUserinfoF (work : Work) : Work :=
  let arg := cmdArgv tokens 1
  if arg = [] then work
  else if env.finalBuild ∧ env.time < work.cl.lastUserInfoChange then
    let work := { work with cl := { work.cl with lastUserInfoCount := work.cl.lastUserInfoCount + 1 } }
    if infoChangeMaxCount ≤ work.cl.lastUserInfoCount then
      work.log (.svSendServerCommand "print \"@@@TOO_MANY_INFO\n\"\n".toList)
    else takeUserinfo env arg work
  else
    takeUserinfo env arg { work with cl := { work.cl with
      lastUserInfoCount := 0, lastUserInfoChange := env.time + infoChangeMinInterval } }

def number (token : CString) : Int32 := Int32.ofInt (atoi token)

/-- The first two checksums of a client are those of the cgame and of the ui. -/
def startsWith (nChkSum1 nChkSum2 : Int32) : Bool :=
  (cmdArgv tokens 1).head? ≠ some '@' && number (cmdArgv tokens 1) = nChkSum1 &&
    (cmdArgv tokens 2).head? ≠ some '@' && number (cmdArgv tokens 2) = nChkSum2 &&
    (cmdArgv tokens 3).head? = some '@'

/-- The checksums behind the delimiter: all different, of paks that the server has loaded, and the last one their
number in disguise. -/
def checksumsGood : Bool :=
  let nClientChkSum := (tokens.drop 4).map number
  let nClientPaks := nClientChkSum.dropLast
  let nServerChkSum := ((cmdTokenizeString2 env.fsLoadedPakPureChecksums false).take 1024).map number
  nClientPaks.Nodup && nClientPaks.all (nServerChkSum.contains ·) &&
    nClientPaks.foldl (· ^^^ ·) env.checksumFeed ^^^ Int32.ofNat nClientPaks.length = nClientChkSum.getLastD 0

def paksGood : Bool :=
  match env.fsFileIsInPak (if env.vmCgame then "vm/cgame.qvm".toList else "cgamex86.dll".toList) with
  | none => false
  | some nChkSum1 =>
    match env.fsFileIsInPak (if env.vmUi then "vm/ui.qvm".toList else "uix86.dll".toList) with
    | none => false
    | some nChkSum2 => 6 ≤ tokens.length && startsWith tokens nChkSum1 nChkSum2 && checksumsGood env tokens

def proxySvVerifyPaksF (work : Work) : Work :=
  if env.svPure then
    if paksGood env tokens then { work with cl := { work.cl with pureAuthentic := 1 } }
    else
      -- The client is active for the snapshot that is sent to it, then it is dropped.
      let work := { work with cl := { work.cl with pureAuthentic := 0, nextSnapshotTime := -1, state := .csActive } }
      let work := { work.log .svSendClientSnapshot with cl := env.svSendClientSnapshot work.cl }
      work.dropClient env "Unpure client detected. Invalid .PK3 files referenced!".toList
  else work

/-! ## The table -/

def ucmds : List (CString × (Work → Work)) :=
  [("userinfo".toList, proxySvUpdateUserinfoF env tokens),
    ("disconnect".toList, proxySvDisconnectF env),
    ("cp".toList, proxySvVerifyPaksF env tokens),
    ("vdr".toList, proxySvResetPureClientF),
    ("download".toList, proxySvBeginDownloadF env tokens),
    ("nextdl".toList, proxySvNextDownloadF env tokens),
    ("stopdl".toList, proxySvStopDownloadF),
    ("donedl".toList, proxySvDoneDownloadF env)]

def proxySvExecuteClientCommand (cl : ClientT) (s : CString) (clientOk : Bool) : Work :=
  let tokens := cmdTokenizeString2 s false
  match (ucmds env tokens).find? fun u => u.1 = cmdArgv tokens 0 with
  | some u => u.2 ⟨cl, []⟩
  | none =>
    if clientOk ∧ env.ssGame then ⟨env.gameClientCommand tokens cl, [.gameClientCommand]⟩ else ⟨cl, []⟩

/-! ## Sending a message -/

def headerRateBytes : Int := 48

/-- The engine where it sends, with the cvars and the clock read there. A fragment takes some of what is left to send,
and a message that is transmitted comes with its size then. -/
structure Sender where
  svMaxRate : Int
  proxySvPingFix : Bool
  proxySvEnableNetStatus : Bool
  milliseconds : Int32
  curSize : List Write → Int32
  sysIsLanAddress : Addresses.Netadr → Bool
  svUpdateServerCommandsToClient : ClientT → ClientT × List Write
  svNetchanTransmit : List Write → ClientT → ClientT × Int32
  netchanTransmitNextFragment : Netchan → Netchan
  left : Netchan → Nat
  left_fragment : ∀ chan, chan.unsentFragments = true → left (netchanTransmitNextFragment chan) < left chan

variable (sender : Sender)

/-- The loop that sends what is left of the last message; `place` tells its two copies apart. -/
def writeOldFragments (place : CString) (work : Work) : Work :=
  if _ : work.cl.state ≠ .csFree ∧ work.cl.netchan.unsentFragments = true then
    let printed := work.log (.comPrintf ("[ISM]SV_SendClientGameState() ".toList ++ place ++ " for ".toList ++
      work.cl.name ++ ", writing out old fragments\n".toList))
    writeOldFragments place { printed.log .netchanTransmitNextFragment with
      cl := { work.cl with netchan := sender.netchanTransmitNextFragment work.cl.netchan } }
  else work
termination_by sender.left work.cl.netchan
decreasing_by
  rename_i unsent
  exact sender.left_fragment _ unsent.2

/-- `Proxy_SV_RateMsec`; a `sv_maxRate` below 1000 has just been set to 1000. -/
def proxySvRateMsec (cl : ClientT) (messageSize : Int) : Int :=
  let maxRate := if sender.svMaxRate < 1000 then 1000 else sender.svMaxRate
  let rate := if sender.svMaxRate ≠ 0 ∧ maxRate < cl.info.rate then maxRate else cl.info.rate
  ((min messageSize 1500 + headerRateBytes) * 1000).tdiv rate

def frameOf (cl : ClientT) : Nat := (cl.netchan.outgoingSequence &&& 31).toInt.toNat

def recordMessage (msg : List Write) (cl : ClientT) : ClientT :=
  { cl with
    messageSize := Function.update cl.messageSize (frameOf cl) (sender.curSize msg)
    messageSent := Function.update cl.messageSent (frameOf cl)
      (if sender.proxySvPingFix then sender.milliseconds else env.time)
    messageAcked := Function.update cl.messageAcked (frameOf cl) (-1) }

def scheduleSnapshot (size : Int32) (cl : ClientT) : ClientT :=
  let rateMsec := proxySvRateMsec sender cl size.toInt
  let next := env.time + Int32.ofInt (max rateMsec cl.info.snapshotMsec)
  { cl with
    rateDelayed := cl.info.snapshotMsec ≤ rateMsec
    nextSnapshotTime :=
      -- Empty snapshots do not pile up while the client connects, unless it downloads.
      if cl.state ≠ .csActive ∧ cl.downloadName = [] ∧ next < env.time + 1000 then env.time + 1000 else next }

/-- The end of `Proxy_SV_SendMessageToClient`: when the next snapshot is due after a message of some size. -/
def scheduleNext (size : Int32) (work : Work) : Work :=
  if work.cl.info.remoteAddress.type = .naLoopback ∨ sender.sysIsLanAddress work.cl.info.remoteAddress then
    { work with cl := { work.cl with nextSnapshotTime := env.time - 1 } }
  else
    let work := if sender.svMaxRate ≠ 0 ∧ sender.svMaxRate < 1000 then
      work.log (.cvarSet "sv_MaxRate".toList "1000".toList) else work
    { work with cl := scheduleSnapshot env sender size work.cl }

def proxySvSendMessageToClient (msg : List Write) (work : Work) : Work :=
  let work := writeOldFragments sender "[1]".toList work
  let work : Work := { work with cl := recordMessage env sender msg work.cl }
  let work := if sender.proxySvEnableNetStatus then work.log .snapshotSent else work
  let sent := sender.svNetchanTransmit msg work.cl
  scheduleNext env sender sent.2 { work.log (.svNetchanTransmit msg) with cl := sent.1 }

/-! ## The gamestate -/

def svcGamestate : Nat := 2
def svcConfigstring : Nat := 3
def svcBaseline : Nat := 4
def svcEof : Nat := 10

/-- The server's data that a gamestate is written from. -/
structure Gamestate where
  configstrings : List CString
  baselines : List Baseline

variable (gamestate : Gamestate)

def writeConfigstrings : List Write :=
  gamestate.configstrings.zipIdx.flatMap fun (configstring, start) =>
    if configstring = [] then [] else [.byte svcConfigstring, .short start, .bigString configstring]

def writeBaselines : List Write :=
  gamestate.baselines.flatMap fun base => if base.number = 0 then [] else [.byte svcBaseline, .deltaEntity base]

def primeConnected (work : Work) : Work :=
  if work.cl.state = .csConnected then { work with cl := { work.cl with state := .csPrimed } } else work

def proxySvSendClientGameState (client : ClientT) : Work :=
  let work := writeOldFragments sender "[2]".toList ⟨client, []⟩
  let work := work.log (.comDPrintf ("SV_SendClientGameState() for ".toList ++ work.cl.name ++ "\n".toList))
  let work := work.log (.comDPrintf ("Going from CS_CONNECTED to CS_PRIMED for ".toList ++ work.cl.name ++
    "\n".toList))
  let work := primeConnected work
  let work := { work with cl := { work.cl with
    pureAuthentic := 0, gamestateMessageNum := work.cl.netchan.outgoingSequence } }
  let updated := sender.svUpdateServerCommandsToClient work.cl
  let msg := .long work.cl.lastClientCommand :: updated.2 ++
    [.byte svcGamestate, .long updated.1.reliableSequence] ++ writeConfigstrings gamestate ++ writeBaselines gamestate ++
    [.byte svcEof, .long (Int32.ofNat updated.1.num), .long env.checksumFeed, .short 0]
  proxySvSendMessageToClient env sender msg { work with cl := updated.1 }

end YbeProxy.ServerCommands
