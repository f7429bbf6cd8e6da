import YbeProxy.Strings
import Mathlib.Logic.Function.Basic

/-!
# Client messages

`Proxy_SV_ExecuteClientMessage`, `Proxy_SV_ClientCommand` and `Proxy_SV_UserMove` of
`Engine/Hooks/server/sv_client.cpp`. The functions of the engine that they call are parameters; every call that another
party can see is logged.
-/

namespace YbeProxy.ClientMessage
open YbeProxy.Strings

inductive ClientState
  | csFree | csZombie | csConnected | csPrimed | csActive
  deriving DecidableEq

structure Usercmd where
  serverTime : Int32
  angles : Int32 × Int32 × Int32
  buttons : Int32
  weapon : UInt8
  forcesel : UInt8
  invensel : UInt8
  genericCmd : UInt8
  forwardmove : Int8
  rightmove : Int8
  upmove : Int8
  deriving DecidableEq

def Usercmd.null : Usercmd := ⟨0, (0, 0, 0), 0, 0, 0, 0, 0, 0, 0, 0⟩

/-- What the functions below use of `client_t`. The frames are told by their `messageAcked`. -/
structure Client where
  num : Nat
  name : CString
  state : ClientState
  reliableCommands : Nat → CString
  reliableSequence : Int32
  reliableAcknowledge : Int32
  messageAcknowledge : Int32
  gamestateMessageNum : Int32
  lastUsercmd : Usercmd
  lastClientCommand : Int32
  lastClientCommandString : CString
  downloadName : CString
  deltaMessage : Int32
  nextReliableTime : Int32
  messageAcked : Nat → Int32
  pureAuthentic : Int32

/-- What the functions below read of the server, its cvars and the clock. -/
structure Server where
  serverId : Int32
  restartedServerId : Int32
  checksumFeed : Int32
  time : Int32
  milliseconds : Int32
  comClRunning : Bool
  svFloodProtect : Bool
  svPure : Bool
  proxySvPingFix : Bool
  proxySvEnableNetStatus : Bool

def maxReliableCommands : Int32 := 128
def maxPacketUsercmds : Int32 := 32

def clcMove : Int32 := 2
def clcMoveNoDelta : Int32 := 3
def clcClientCommand : Int32 := 4
def clcEof : Int32 := 5

/-- The engine: how a message is read, and what its functions make of a client. A command byte takes some of what is
left of a message, and no read gives any back. -/
structure Engine (Msg : Type) where
  msgBitstream : Msg → Msg
  msgReadLong : Msg → Int32 × Msg
  msgReadByte : Msg → Int32 × Msg
  msgReadString : Msg → CString × Msg
  msgReadDeltaUsercmdKey : Msg → Int32 → Usercmd → Usercmd × Msg
  comHashKey : CString → Int32 → Int32
  svDropClient : Client → CString → Client
  svExecuteClientCommand : Client → CString → Bool → Client
  svClientEnterWorld : Client → Usercmd → Client
  svClientThink : Client → Usercmd → Client
  svSendClientGameState : Client → Client
  left : Msg → Nat
  left_long : ∀ msg, left (msgReadLong msg).2 ≤ left msg
  left_string : ∀ msg, left (msgReadString msg).2 ≤ left msg
  left_command : ∀ msg, (msgReadByte msg).1 = clcClientCommand → left (msgReadByte msg).2 < left msg

inductive Call
  | svDropClient (reason : CString)
  | svExecuteClientCommand (s : CString) (clientOk : Bool)
  | svClientEnterWorld (cmd : Usercmd)
  | svClientThink (cmd : Usercmd)
  | svSendClientGameState
  | packetReceived (cmds : List Usercmd)
  | comPrintf (text : CString)
  | comDPrintf (text : CString)

/-- The client while its message is executed, and the calls made so far. -/
structure Turn where
  cl : Client
  calls : List Call

def Turn.log (turn : Turn) (call : Call) : Turn := { turn with calls := turn.calls ++ [call] }

variable {Msg : Type} (engine : Engine Msg) (sv : Server)

def Turn.dropClient (turn : Turn) (reason : CString) : Turn :=
  { turn.log (.svDropClient reason) with cl := engine.svDropClient turn.cl reason }

/-! ## Client commands -/

/-- The flood protection holds: the client is active and its second is not over. -/
def flooding (cl : Client) : Bool :=
  !sv.comClRunning && cl.state = .csActive && sv.svFloodProtect && sv.time < cl.nextReliableTime

/-- `Proxy_SV_ClientCommand`; false to stop with the message. -/
def proxySvClientCommand (turn : Turn) (msg : Msg) : Bool × Turn × Msg :=
  let seq := (engine.msgReadLong msg).1
  let s := (engine.msgReadString (engine.msgReadLong msg).2).1
  let rest := (engine.msgReadString (engine.msgReadLong msg).2).2
  -- Already executed.
  if seq ≤ turn.cl.lastClientCommand then (true, turn, rest)
  else
    let turn := turn.log (.comDPrintf ("clientCommand: ".toList ++ turn.cl.name ++ " : ".toList ++
      decimalInt seq.toInt ++ " : ".toList ++ s ++ "\n".toList))
    if turn.cl.lastClientCommand + 1 < seq then
      let turn := turn.log (.comPrintf ("Client ".toList ++ turn.cl.name ++ " lost ".toList ++
        decimalInt (seq - turn.cl.lastClientCommand - 1).toInt ++ " clientCommands\n".toList))
      (false, turn.dropClient engine "Lost reliable commands".toList, rest)
    else
      let clientOk := !flooding sv turn.cl
      let turn := if clientOk then turn
        else turn.log (.comDPrintf ("client text ignored for ".toList ++ turn.cl.name ++ "\n".toList))
      let turn := { turn with cl := { turn.cl with nextReliableTime := sv.time + 1000 } }
      let turn := { turn.log (.svExecuteClientCommand s clientOk) with
        cl := engine.svExecuteClientCommand turn.cl s clientOk }
      (true, { turn with cl := { turn.cl with
        lastClientCommand := seq, lastClientCommandString := comSprintf 1024 s } }, rest)

theorem left_clientCommand (turn : Turn) (msg : Msg) :
    engine.left (proxySvClientCommand engine sv turn msg).2.2 ≤ engine.left msg := by
  have read : (proxySvClientCommand engine sv turn msg).2.2 = (engine.msgReadString (engine.msgReadLong msg).2).2 := by
    simp only [proxySvClientCommand]
    split
    · rfl
    · split <;> rfl
  rw [read]
  exact Nat.le_trans (engine.left_string _) (engine.left_long _)

/-- The loop over the optional commands: the byte that ends it, or none when the function returns from inside. -/
def readCommands (turn : Turn) (msg : Msg) : Option Int32 × Turn × Msg :=
  if (engine.msgReadByte msg).1 = clcClientCommand then
    let done := proxySvClientCommand engine sv turn (engine.msgReadByte msg).2
    if !done.1 then (none, done.2)
    else if done.2.1.cl.state = .csZombie then (none, done.2)
    else readCommands done.2.1 done.2.2
  else (some (engine.msgReadByte msg).1, turn, (engine.msgReadByte msg).2)
termination_by engine.left msg
decreasing_by
  exact Nat.lt_of_le_of_lt (left_clientCommand engine sv turn _) (engine.left_command msg ‹_›)

/-! ## Usercmds -/

def readUsercmds (key : Int32) : Nat → Usercmd → Msg → List Usercmd
  | 0, _, _ => []
  | count + 1, oldcmd, msg =>
    let read := engine.msgReadDeltaUsercmdKey msg key oldcmd
    read.1 :: readUsercmds key count read.1 read.2

def frame (cl : Client) : Nat := (cl.messageAcknowledge &&& 31).toInt.toNat

def usercmdKey (cl : Client) : Int32 :=
  sv.checksumFeed ^^^ cl.messageAcknowledge ^^^
    engine.comHashKey (cl.reliableCommands (cl.reliableAcknowledge &&& (maxReliableCommands - 1)).toInt.toNat) 32

/-- The loop that runs the usercmds: one with a time behind the last of the packet, or not after the last one run, is
skipped. -/
def thinkAll (lastTime : Int32) : List Usercmd → Turn → Turn
  | [], turn => turn
  | cmd :: rest, turn =>
    if lastTime < cmd.serverTime ∨ cmd.serverTime ≤ turn.cl.lastUsercmd.serverTime then thinkAll lastTime rest turn
    else thinkAll lastTime rest { turn.log (.svClientThink cmd) with cl := engine.svClientThink turn.cl cmd }

/-- The time of the acknowledgement, for the ping. With the ping fix the first one stays. -/
def acknowledgeFrame (cl : Client) : Client :=
  if !sv.proxySvPingFix || cl.messageAcked (frame cl) = -1 then
    let time := if sv.proxySvPingFix then sv.milliseconds else sv.time
    { cl with messageAcked := Function.update cl.messageAcked (frame cl) time }
  else cl

def proxySvUserMove (turn : Turn) (msg : Msg) (delta : Bool) : Turn :=
  let turn : Turn := { turn with cl := { turn.cl with
    deltaMessage := if delta then turn.cl.messageAcknowledge else -1 } }
  let cmdCount := (engine.msgReadByte msg).1
  if cmdCount < 1 then turn.log (.comPrintf "cmdCount < 1\n".toList)
  else if maxPacketUsercmds < cmdCount then turn.log (.comPrintf "cmdCount > MAX_PACKET_USERCMDS\n".toList)
  else
    let cmds := readUsercmds engine (usercmdKey engine sv turn.cl) cmdCount.toInt.toNat .null (engine.msgReadByte msg).2
    let turn : Turn := { turn with cl := acknowledgeFrame sv turn.cl }
    let first := cmds.headD .null
    let turn : Turn := if turn.cl.state = .csPrimed then
        { turn.log (.svClientEnterWorld first) with cl := engine.svClientEnterWorld turn.cl first }
      else turn
    if sv.svPure ∧ turn.cl.pureAuthentic = 0 then turn.dropClient engine "Cannot validate pure client!".toList
    else if turn.cl.state ≠ .csActive then { turn with cl := { turn.cl with deltaMessage := -1 } }
    else
      let turn : Turn := if sv.proxySvEnableNetStatus then turn.log (.packetReceived cmds) else turn
      thinkAll engine (cmds.getLastD .null).serverTime cmds turn

/-! ## The message -/

/-- How far a message got with its acknowledgements: left hanging before the check, returned by it, or past it. -/
inductive Check
  | hanging | refused | passed
  deriving DecidableEq

/-- The first part of `Proxy_SV_ExecuteClientMessage`, up to and including the acknowledge check: the outcome, the
server id read and the client then. -/
def readAcknowledges (cl : Client) (msg : Msg) : Check × Int32 × Client × Msg :=
  let (serverId, msg) := engine.msgReadLong (engine.msgBitstream msg)
  let (messageAcknowledge, msg) := engine.msgReadLong msg
  let cl := { cl with messageAcknowledge }
  if messageAcknowledge < 0 then (.hanging, serverId, cl, msg)
  else
    let (reliableAcknowledge, msg) := engine.msgReadLong msg
    let cl := { cl with reliableAcknowledge }
    if cl.reliableAcknowledge < cl.reliableSequence - maxReliableCommands then
      (.refused, serverId, { cl with reliableAcknowledge := cl.reliableSequence }, msg)
    else (.passed, serverId, cl, msg)

def contains (text part : CString) : Bool := text.tails.any fun tail => part.isPrefixOf tail

def proxySvExecuteClientMessage (cl : Client) (msg : Msg) : Turn :=
  match readAcknowledges engine cl msg with
  | (.hanging, _, cl, _) => ⟨cl, []⟩
  | (.refused, _, cl, _) => ⟨cl, []⟩
  | (.passed, serverId, cl, msg) =>
    if serverId ≠ sv.serverId ∧ cl.downloadName = [] ∧ contains cl.lastClientCommandString "nextdl".toList = false then
      if sv.restartedServerId ≤ serverId ∧ serverId < sv.serverId then
        ⟨cl, [.comDPrintf (cl.name ++ " : ignoring pre map_restart / outdated client message\n".toList)]⟩
      else if cl.state ≠ .csActive ∧ cl.gamestateMessageNum < cl.messageAcknowledge then
        ⟨engine.svSendClientGameState cl,
          [.comDPrintf (cl.name ++ " : dropped gamestate, resending\n".toList), .svSendClientGameState]⟩
      else ⟨cl, []⟩
    else
      match readCommands engine sv ⟨cl, []⟩ msg with
      | (none, turn, _) => turn
      | (some c, turn, msg) =>
        if c = clcMove then proxySvUserMove engine sv turn msg true
        else if c = clcMoveNoDelta then proxySvUserMove engine sv turn msg false
        else if c ≠ clcEof then
          turn.log (.comPrintf ("WARNING: bad command byte for client ".toList ++ decimal turn.cl.num ++ "\n".toList))
        else turn

/-! ## The acknowledge check -/

/-- The number that a message carries as `reliableAcknowledge`. -/
def carriedAcknowledge (msg : Msg) : Int32 :=
  (engine.msgReadLong (engine.msgReadLong (engine.msgReadLong (engine.msgBitstream msg)).2).2).1

/-- The acknowledged command is one of the last `MAX_RELIABLE_COMMANDS` that the server has sent. -/
def InRange (cl : Client) : Prop :=
  cl.reliableSequence.toInt - 128 ≤ cl.reliableAcknowledge.toInt ∧
    cl.reliableAcknowledge.toInt ≤ cl.reliableSequence.toInt

def resent (cl : Client) : Nat := (cl.reliableSequence.toInt - cl.reliableAcknowledge.toInt).toNat

theorem toInt_oldest {sequence : Int32} (sent : 0 ≤ sequence) :
    (sequence - maxReliableCommands).toInt = sequence.toInt - 128 := by
  have low : 0 ≤ sequence.toInt := Int32.le_iff_toInt_le.mp sent
  have high := sequence.toInt_lt
  rw [Int32.toInt_sub, show maxReliableCommands.toInt = 128 from rfl]
  exact Int.bmod_eq_of_le (by omega) (by omega)

/-- Everything the acknowledge check does with a message that reaches it. -/
theorem readAcknowledges_cases (cl : Client) (msg : Msg) (reached : (readAcknowledges engine cl msg).1 ≠ .hanging) :
    (readAcknowledges engine cl msg).2.2.1.reliableSequence = cl.reliableSequence ∧
      (carriedAcknowledge engine msg < cl.reliableSequence - maxReliableCommands ∧
          (readAcknowledges engine cl msg).1 = .refused ∧
          (readAcknowledges engine cl msg).2.2.1.reliableAcknowledge = cl.reliableSequence ∨
        ¬ carriedAcknowledge engine msg < cl.reliableSequence - maxReliableCommands ∧
          (readAcknowledges engine cl msg).1 = .passed ∧
          (readAcknowledges engine cl msg).2.2.1.reliableAcknowledge = carriedAcknowledge engine msg) := by
  simp only [readAcknowledges] at reached ⊢
  split at reached
  · exact absurd rfl reached
  · rename_i legible
    rw [if_neg legible]
    by_cases old : carriedAcknowledge engine msg < cl.reliableSequence - maxReliableCommands
    · have test := old
      rw [carriedAcknowledge] at test
      rw [if_pos test]
      exact ⟨rfl, Or.inl ⟨old, rfl, rfl⟩⟩
    · have test := old
      rw [carriedAcknowledge] at test
      rw [if_neg test]
      exact ⟨rfl, Or.inr ⟨old, rfl, rfl⟩⟩

/-- At the check the acknowledgement is in range exactly when the message does not acknowledge a command that the server
has not sent: only the lower end is tested. -/
theorem acknowledge_inRange_iff (cl : Client) (msg : Msg) (sent : 0 ≤ cl.reliableSequence)
    (reached : (readAcknowledges engine cl msg).1 ≠ .hanging) :
    InRange (readAcknowledges engine cl msg).2.2.1 ∧ resent (readAcknowledges engine cl msg).2.2.1 ≤ 128 ↔
      carriedAcknowledge engine msg ≤ cl.reliableSequence := by
  have oldest := toInt_oldest sent
  have low : 0 ≤ cl.reliableSequence.toInt := Int32.le_iff_toInt_le.mp sent
  obtain ⟨sequence, ⟨old, _, acknowledge⟩ | ⟨recent, _, acknowledge⟩⟩ := readAcknowledges_cases engine cl msg reached
  · rw [Int32.lt_iff_toInt_lt, oldest] at old
    rw [InRange, resent, sequence, acknowledge, Int32.le_iff_toInt_le]
    constructor
    · intro _
      omega
    · intro _
      refine ⟨⟨by omega, by omega⟩, by omega⟩
  · rw [Int32.lt_iff_toInt_lt, oldest] at recent
    rw [InRange, resent, sequence, acknowledge, Int32.le_iff_toInt_le]
    constructor
    · rintro ⟨⟨_, high⟩, _⟩
      exact high
    · intro high
      refine ⟨⟨by omega, high⟩, by omega⟩

/-- A message as the numbers that are read from it, and an engine that does nothing to a client. -/
def numbersEngine : Engine (List Int32) where
  msgBitstream msg := msg
  msgReadLong msg := (msg.headD (-1), msg.tail)
  msgReadByte msg := (msg.headD (-1), msg.tail)
  msgReadString msg := ([], msg)
  msgReadDeltaUsercmdKey msg _ oldcmd := (oldcmd, msg)
  comHashKey _ _ := 0
  svDropClient cl _ := { cl with state := .csZombie }
  svExecuteClientCommand cl _ _ := cl
  svClientEnterWorld cl _ := { cl with state := .csActive }
  svClientThink cl cmd := { cl with lastUsercmd := cmd }
  svSendClientGameState cl := { cl with state := .csPrimed }
  left := List.length
  left_long msg := by simp
  left_string msg := Nat.le_refl _
  left_command msg command := by
    cases msg with
    | nil => exact absurd command (by decide)
    | cons c rest => exact Nat.lt_succ_self _

def sampleClient : Client where
  num := 0
  name := "Padawan".toList
  state := .csActive
  reliableCommands _ := []
  reliableSequence := 2
  reliableAcknowledge := 2
  messageAcknowledge := 0
  gamestateMessageNum := 0
  lastUsercmd := .null
  lastClientCommand := 0
  lastClientCommandString := []
  downloadName := []
  deltaMessage := -1
  nextReliableTime := 0
  messageAcked _ := -1
  pureAuthentic := 1

/-- A message that acknowledges command 5, which was never sent, passes the check with that number stored. -/
theorem acknowledge_unsent :
    (readAcknowledges numbersEngine sampleClient [0, 1, 5, 5]).1 = .passed ∧
      ¬ InRange (readAcknowledges numbersEngine sampleClient [0, 1, 5, 5]).2.2.1 :=
  ⟨by decide, fun range => absurd range.2 (by decide)⟩

theorem acknowledge_inRange_sample :
    InRange (readAcknowledges numbersEngine sampleClient [0, 1, 1, 5]).2.2.1 ∧
      resent (readAcknowledges numbersEngine sampleClient [0, 1, 1, 5]).2.2.1 ≤ 128 :=
  (acknowledge_inRange_iff numbersEngine sampleClient [0, 1, 1, 5] (by decide) (by decide)).mpr (by decide)

end YbeProxy.ClientMessage
