import YbeProxy.ClientMessage
import Mathlib.Logic.Relation

/-!
# The steps of a message

What each command that a message brings comes to (`Handled`), and the moves of `Proxy_SV_UserMove` behind them. What a
message keeps is proved of one command and one move, and carried along by `loop_induction` and `Moves`.
-/

namespace YbeProxy.MessageSteps
open YbeProxy.Strings
open YbeProxy.ClientMessage

inductive Fate
  | repeated | executed (clientOk : Bool) | lost
  deriving DecidableEq

/-- A command that was read from a message, and the client before and after it. -/
structure Handled where
  seq : Int32
  s : CString
  fate : Fate
  before : Client
  after : Client

def isPrint : Call → Bool
  | .comPrintf _ => true
  | .comDPrintf _ => true
  | _ => false

def isExecute : Call → Bool
  | .svExecuteClientCommand _ _ => true
  | _ => false

/-- The calls that do something: all but the texts printed. -/
def acts (calls : List Call) : List Call := calls.filter fun call => !isPrint call

namespace Handled

def command (h : Handled) : Int32 × CString := (h.seq, h.s)

def acts (h : Handled) : List Call :=
  match h.fate with
  | .repeated => []
  | .executed clientOk => [.svExecuteClientCommand h.s clientOk]
  | .lost => [.svDropClient "Lost reliable commands".toList]

def executed (h : Handled) : Option Int32 :=
  match h.fate with
  | .executed _ => some h.seq
  | _ => none

/-- The server is done with the message here: a command is missing, or the client is a zombie. -/
def Stops (h : Handled) : Prop := h.fate = .lost ∨ h.after.state = .csZombie

instance (h : Handled) : Decidable h.Stops := inferInstanceAs (Decidable (_ ∨ _))

end Handled

/-! ## The commands of a message -/

variable {Msg : Type} (engine : Engine Msg) (sv : Server)

/-- The commands that a message carries, as far as they follow each other. -/
def commandsOf (msg : Msg) : List (Int32 × CString) :=
  if (engine.msgReadByte msg).1 = clcClientCommand then
    let msg := (engine.msgReadByte msg).2
    ((engine.msgReadLong msg).1, (engine.msgReadString (engine.msgReadLong msg).2).1) ::
      commandsOf (engine.msgReadString (engine.msgReadLong msg).2).2
  else []
termination_by engine.left msg
decreasing_by
  exact Nat.lt_of_le_of_lt (Nat.le_trans (engine.left_string _) (engine.left_long _)) (engine.left_command _ ‹_›)

def fateOf (cl : Client) (seq : Int32) : Fate :=
  if seq ≤ cl.lastClientCommand then .repeated
  else if cl.lastClientCommand + 1 < seq then .lost
  else .executed (!flooding sv cl)

/-- The client that a command is executed for: the next one is a second away. -/
def granted (cl : Client) : Client := { cl with nextReliableTime := sv.time + 1000 }

@[simp] theorem granted_state (cl : Client) : (granted sv cl).state = cl.state := by
  rw [granted]

def handledCommand (turn : Turn) (msg : Msg) : Handled where
  seq := (engine.msgReadLong msg).1
  s := (engine.msgReadString (engine.msgReadLong msg).2).1
  fate := fateOf sv turn.cl (engine.msgReadLong msg).1
  before := turn.cl
  after := (proxySvClientCommand engine sv turn msg).2.1.cl

/-- What becomes of the commands of a message, up to the one that stops it. -/
def handled (turn : Turn) (msg : Msg) : List Handled :=
  if (engine.msgReadByte msg).1 = clcClientCommand then
    let h := handledCommand engine sv turn (engine.msgReadByte msg).2
    let done := proxySvClientCommand engine sv turn (engine.msgReadByte msg).2
    h :: if h.Stops then [] else handled done.2.1 done.2.2
  else []
termination_by engine.left msg
decreasing_by
  exact Nat.lt_of_le_of_lt (left_clientCommand engine sv turn _) (engine.left_command msg ‹_›)

@[simp] theorem log_cl (turn : Turn) (call : Call) : (turn.log call).cl = turn.cl := rfl

@[simp] theorem acts_log (turn : Turn) (call : Call) :
    acts (turn.log call).calls = acts turn.calls ++ if isPrint call then [] else [call] := by
  cases print : isPrint call <;> simp [Turn.log, acts, print]

/-- A number that is not the last one has a successor: the sum does not wrap. -/
theorem toInt_next {last seq : Int32} (later : last < seq) : (last + 1).toInt = last.toInt + 1 := by
  rw [Int32.lt_iff_toInt_lt] at later
  have low := last.le_toInt
  have high := seq.toInt_lt
  rw [Int32.toInt_add, show (1 : Int32).toInt = 1 from rfl]
  exact Int.bmod_eq_of_le (by omega) (by omega)

/-- What `Proxy_SV_ClientCommand` does with a command, by its fate. -/
theorem clientCommand_cases (turn : Turn) (msg : Msg) :
    let h := handledCommand engine sv turn msg
    let done := proxySvClientCommand engine sv turn msg
    acts done.2.1.calls = acts turn.calls ++ h.acts ∧
      (h.fate = .repeated ∧ h.seq.toInt ≤ turn.cl.lastClientCommand.toInt ∧ done.1 = true ∧ done.2.1.cl = turn.cl ∨
        (∃ clientOk, h.fate = .executed clientOk ∧ h.seq.toInt = turn.cl.lastClientCommand.toInt + 1 ∧
          done.1 = true ∧ done.2.1.cl = { engine.svExecuteClientCommand (granted sv turn.cl) h.s clientOk with
            lastClientCommand := h.seq, lastClientCommandString := comSprintf 1024 h.s }) ∨
        h.fate = .lost ∧ turn.cl.lastClientCommand.toInt + 1 < h.seq.toInt ∧ done.1 = false ∧
          done.2.1.cl = engine.svDropClient turn.cl "Lost reliable commands".toList) := by
  intro h done
  by_cases old : (engine.msgReadLong msg).1 ≤ turn.cl.lastClientCommand
  · have fate : h.fate = .repeated := if_pos old
    have result : done = (true, turn, (engine.msgReadString (engine.msgReadLong msg).2).2) := if_pos old
    rw [result]
    refine ⟨by simp [Handled.acts, fate], Or.inl ⟨fate, Int32.le_iff_toInt_le.mp old, rfl, rfl⟩⟩
  · have later : turn.cl.lastClientCommand < (engine.msgReadLong msg).1 := Int32.not_le.mp old
    have next := toInt_next later
    by_cases gap : turn.cl.lastClientCommand + 1 < (engine.msgReadLong msg).1
    · have fate : h.fate = .lost := by
        simp only [h, handledCommand, fateOf, if_neg old, if_pos gap]
      have number := Int32.lt_iff_toInt_lt.mp gap
      rw [next] at number
      have result : done = _ := (if_neg old).trans (if_pos gap)
      rw [result]
      refine ⟨?_, Or.inr (Or.inr ⟨fate, number, rfl, rfl⟩)⟩
      simp [Turn.dropClient, Handled.acts, fate, isPrint]
    · have fate : h.fate = .executed (!flooding sv turn.cl) := by
        simp only [h, handledCommand, fateOf, if_neg old, if_neg gap]
      have number : h.seq.toInt = turn.cl.lastClientCommand.toInt + 1 := by
        rw [Int32.lt_iff_toInt_lt] at gap later
        simp only [h, handledCommand]
        omega
      have result : done = _ := (if_neg old).trans (if_neg gap)
      rw [result]
      refine ⟨?_, Or.inr (Or.inl ⟨_, fate, number, rfl, ?_⟩)⟩
      · have acted : h.acts = [.svExecuteClientCommand h.s (!flooding sv turn.cl)] := by rw [Handled.acts, fate]
        rw [acted]
        cases flood : flooding sv turn.cl <;> simp [flood, isPrint, Turn.log, acts, h, handledCommand]
      · cases flood : flooding sv turn.cl <;> simp [flood, h, handledCommand, granted]

theorem clientCommand_rest (turn : Turn) (msg : Msg) :
    (proxySvClientCommand engine sv turn msg).2.2 = (engine.msgReadString (engine.msgReadLong msg).2).2 := by
  simp only [proxySvClientCommand]
  split
  · rfl
  · split <;> rfl

/-- A command stops the message exactly when the loop of `Proxy_SV_ExecuteClientMessage` is left from inside. -/
theorem stops_iff (turn : Turn) (msg : Msg) :
    (handledCommand engine sv turn msg).Stops ↔
      (proxySvClientCommand engine sv turn msg).1 = false ∨
        (proxySvClientCommand engine sv turn msg).2.1.cl.state = .csZombie := by
  have lost : (handledCommand engine sv turn msg).fate = .lost ↔ (proxySvClientCommand engine sv turn msg).1 = false := by
    rcases (clientCommand_cases engine sv turn msg).2 with
      ⟨fate, _, goesOn, _⟩ | ⟨_, fate, _, goesOn, _⟩ | ⟨fate, _, stops, _⟩
    · simp [fate, goesOn]
    · simp [fate, goesOn]
    · simp [fate, stops]
  rw [Handled.Stops, lost]
  rfl

/-! The loop over the commands ends at another byte, is stopped by a command, or goes on after one. -/

section
variable (turn : Turn) {msg : Msg}

theorem loop_ends (other : (engine.msgReadByte msg).1 ≠ clcClientCommand) :
    readCommands engine sv turn msg = (some (engine.msgReadByte msg).1, turn, (engine.msgReadByte msg).2) ∧
      handled engine sv turn msg = [] ∧ commandsOf engine msg = [] := by
  refine ⟨?_, ?_, ?_⟩
  · rw [readCommands, if_neg other]
  · rw [handled, if_neg other]
  · rw [commandsOf, if_neg other]

theorem commandsOf_command (command : (engine.msgReadByte msg).1 = clcClientCommand) :
    commandsOf engine msg = (handledCommand engine sv turn (engine.msgReadByte msg).2).command ::
      commandsOf engine (proxySvClientCommand engine sv turn (engine.msgReadByte msg).2).2.2 := by
  rw [commandsOf, if_pos command, clientCommand_rest]
  rfl

theorem loop_stops (command : (engine.msgReadByte msg).1 = clcClientCommand)
    (stops : (handledCommand engine sv turn (engine.msgReadByte msg).2).Stops) :
    readCommands engine sv turn msg = (none, (proxySvClientCommand engine sv turn (engine.msgReadByte msg).2).2) ∧
      handled engine sv turn msg = [handledCommand engine sv turn (engine.msgReadByte msg).2] := by
  constructor
  · rw [readCommands, if_pos command]
    rcases (stops_iff engine sv turn _).mp stops with stopped | zombie
    · simp [stopped]
    · simp [zombie]
  · rw [handled, if_pos command]
    simp [stops]

theorem loop_goes_on (command : (engine.msgReadByte msg).1 = clcClientCommand)
    (goesOn : ¬ (handledCommand engine sv turn (engine.msgReadByte msg).2).Stops) :
    readCommands engine sv turn msg =
        readCommands engine sv (proxySvClientCommand engine sv turn (engine.msgReadByte msg).2).2.1
          (proxySvClientCommand engine sv turn (engine.msgReadByte msg).2).2.2 ∧
      handled engine sv turn msg = handledCommand engine sv turn (engine.msgReadByte msg).2 ::
        handled engine sv (proxySvClientCommand engine sv turn (engine.msgReadByte msg).2).2.1
          (proxySvClientCommand engine sv turn (engine.msgReadByte msg).2).2.2 := by
  have running := goesOn
  rw [stops_iff, not_or] at running
  constructor
  · rw [readCommands, if_pos command]
    simp [running]
  · rw [handled, if_pos command]
    simp [goesOn]

end

/-- The rule for the loop: what holds where it ends and where a command stops it, and is carried back over a command
after which it goes on, holds of every message. -/
theorem loop_induction {motive : Turn → Msg → Prop}
    (ends : ∀ turn msg, (engine.msgReadByte msg).1 ≠ clcClientCommand → motive turn msg)
    (stops : ∀ turn msg, (engine.msgReadByte msg).1 = clcClientCommand →
      (handledCommand engine sv turn (engine.msgReadByte msg).2).Stops → motive turn msg)
    (goesOn : ∀ turn msg, (engine.msgReadByte msg).1 = clcClientCommand →
      ¬ (handledCommand engine sv turn (engine.msgReadByte msg).2).Stops →
      motive (proxySvClientCommand engine sv turn (engine.msgReadByte msg).2).2.1
        (proxySvClientCommand engine sv turn (engine.msgReadByte msg).2).2.2 → motive turn msg)
    (turn : Turn) (msg : Msg) : motive turn msg := by
  induction turn, msg using readCommands.induct engine sv with
  | case1 turn msg command done stopped =>
    exact stops turn msg command ((stops_iff engine sv turn _).mpr (Or.inl (by simpa [done] using stopped)))
  | case2 turn msg command done _ zombie =>
    exact stops turn msg command ((stops_iff engine sv turn _).mpr (Or.inr zombie))
  | case3 turn msg command done running alive hypothesis =>
    apply goesOn turn msg command
    · rw [stops_iff, not_or]
      exact ⟨by simpa [done] using running, alive⟩
    · exact hypothesis
  | case4 turn msg other => exact ends turn msg other

/-- Every call of the loop is one of a command that it handles, in order. -/
theorem readCommands_acts (turn : Turn) (msg : Msg) :
    acts (readCommands engine sv turn msg).2.1.calls =
      acts turn.calls ++ (handled engine sv turn msg).flatMap Handled.acts := by
  induction turn, msg using loop_induction engine sv with
  | ends turn msg other =>
    obtain ⟨read, none, _⟩ := loop_ends engine sv turn other
    rw [read, none]
    simp
  | stops turn msg command stops =>
    obtain ⟨read, one⟩ := loop_stops engine sv turn command stops
    rw [read, one, (clientCommand_cases engine sv turn _).1]
    simp
  | goesOn turn msg command goesOn hypothesis =>
    obtain ⟨read, first⟩ := loop_goes_on engine sv turn command goesOn
    rw [read, first, hypothesis, (clientCommand_cases engine sv turn _).1, List.flatMap_cons, List.append_assoc]

/-- The commands handled are the first of the message, and all of them where none stops it. -/
theorem handled_commands (turn : Turn) (msg : Msg) :
    (handled engine sv turn msg).map Handled.command <+: commandsOf engine msg ∧
      ((∀ h ∈ handled engine sv turn msg, ¬ h.Stops) →
        (handled engine sv turn msg).map Handled.command = commandsOf engine msg) := by
  induction turn, msg using loop_induction engine sv with
  | ends turn msg other =>
    obtain ⟨_, none, empty⟩ := loop_ends engine sv turn other
    rw [none, empty]
    exact ⟨List.prefix_rfl, fun _ => rfl⟩
  | stops turn msg command stops =>
    rw [(loop_stops engine sv turn command stops).2, commandsOf_command engine sv turn command]
    refine ⟨⟨_, rfl⟩, fun none => absurd stops (none _ List.mem_cons_self)⟩
  | goesOn turn msg command goesOn hypothesis =>
    rw [(loop_goes_on engine sv turn command goesOn).2, commandsOf_command engine sv turn command, List.map_cons]
    refine ⟨List.cons_prefix_cons.mpr ⟨rfl, hypothesis.1⟩, fun none => ?_⟩
    rw [hypothesis.2 fun h member => none h (List.mem_cons_of_mem _ member)]

/-- The loop is left from inside exactly when a command has stopped the message. -/
theorem readCommands_none_iff (turn : Turn) (msg : Msg) :
    (readCommands engine sv turn msg).1 = none ↔ ∃ h ∈ handled engine sv turn msg, h.Stops := by
  induction turn, msg using loop_induction engine sv with
  | ends turn msg other =>
    obtain ⟨read, none, _⟩ := loop_ends engine sv turn other
    simp [read, none]
  | stops turn msg command stops =>
    obtain ⟨read, one⟩ := loop_stops engine sv turn command stops
    simp [read, one, stops]
  | goesOn turn msg command goesOn hypothesis =>
    obtain ⟨read, first⟩ := loop_goes_on engine sv turn command goesOn
    simp [read, first, hypothesis, goesOn]

/-! ## The usercmds of a message -/

/-- One thing that `Proxy_SV_UserMove` does. -/
inductive Move : Turn → Turn → Prop
  | delta (turn : Turn) (deltaMessage : Int32) : Move turn { turn with cl := { turn.cl with deltaMessage } }
  | acknowledge (turn : Turn) : Move turn { turn with cl := acknowledgeFrame sv turn.cl }
  | print (turn : Turn) (text : CString) : Move turn (turn.log (.comPrintf text))
  | receive (turn : Turn) (cmds : List Usercmd) : Move turn (turn.log (.packetReceived cmds))
  | enter (turn : Turn) (cmd : Usercmd) (primed : turn.cl.state = .csPrimed) :
    Move turn { turn.log (.svClientEnterWorld cmd) with cl := engine.svClientEnterWorld turn.cl cmd }
  | drop (turn : Turn) (reason : CString) : Move turn (turn.dropClient engine reason)
  | think (turn : Turn) (cmd : Usercmd) :
    Move turn { turn.log (.svClientThink cmd) with cl := engine.svClientThink turn.cl cmd }

abbrev Moves : Turn → Turn → Prop := Relation.ReflTransGen (Move engine sv)

/-- `Proxy_SV_UserMove` where it puts the client into the world. -/
def enterWorld (cmds : List Usercmd) (turn : Turn) : Turn :=
  if turn.cl.state = .csPrimed then
    { turn.log (.svClientEnterWorld (cmds.headD .null)) with
      cl := engine.svClientEnterWorld turn.cl (cmds.headD .null) }
  else turn

/-- `Proxy_SV_UserMove` from there on. -/
def moveActive (cmds : List Usercmd) (turn : Turn) : Turn :=
  if sv.svPure ∧ turn.cl.pureAuthentic = 0 then turn.dropClient engine "Cannot validate pure client!".toList
  else if turn.cl.state ≠ .csActive then { turn with cl := { turn.cl with deltaMessage := -1 } }
  else
    thinkAll engine (cmds.getLastD .null).serverTime cmds
      (if sv.proxySvEnableNetStatus then turn.log (.packetReceived cmds) else turn)

theorem thinkAll_moves (lastTime : Int32) (cmds : List Usercmd) (turn : Turn) :
    Moves engine sv turn (thinkAll engine lastTime cmds turn) := by
  induction cmds generalizing turn with
  | nil => exact .refl
  | cons cmd rest hypothesis =>
    rw [thinkAll]
    split
    · exact hypothesis turn
    · exact (hypothesis _).head (Move.think turn cmd)

theorem enterWorld_moves (cmds : List Usercmd) (turn : Turn) :
    Moves engine sv turn (enterWorld engine cmds turn) := by
  rw [enterWorld]
  split
  · rename_i primed
    exact .single (Move.enter turn _ primed)
  · exact .refl

theorem moveActive_moves (cmds : List Usercmd) (turn : Turn) :
    Moves engine sv turn (moveActive engine sv cmds turn) := by
  rw [moveActive]
  split
  · exact .single (Move.drop turn _)
  split
  · exact .single (Move.delta turn (-1))
  split
  · exact (thinkAll_moves engine sv _ cmds _).head (Move.receive turn cmds)
  · exact thinkAll_moves engine sv _ cmds turn

/-- The client with the message that the next snapshot is a delta from. -/
def aimed (turn : Turn) (delta : Bool) : Turn :=
  { turn with cl := { turn.cl with deltaMessage := if delta then turn.cl.messageAcknowledge else -1 } }

/-- The usercmds that `Proxy_SV_UserMove` reads. -/
def packetUsercmds (turn : Turn) (msg : Msg) (delta : Bool) : List Usercmd :=
  readUsercmds engine (usercmdKey engine sv (aimed turn delta).cl) (engine.msgReadByte msg).1.toInt.toNat .null
    (engine.msgReadByte msg).2

/-- `Proxy_SV_UserMove` up to and including the entry step. -/
def entered (turn : Turn) (msg : Msg) (delta : Bool) : Turn :=
  enterWorld engine (packetUsercmds engine sv turn msg delta)
    { aimed turn delta with cl := acknowledgeFrame sv (aimed turn delta).cl }

theorem userMove_eq (turn : Turn) (msg : Msg) (delta : Bool) :
    proxySvUserMove engine sv turn msg delta =
      if (engine.msgReadByte msg).1 < 1 then (aimed turn delta).log (.comPrintf "cmdCount < 1\n".toList)
      else if maxPacketUsercmds < (engine.msgReadByte msg).1 then
        (aimed turn delta).log (.comPrintf "cmdCount > MAX_PACKET_USERCMDS\n".toList)
      else moveActive engine sv (packetUsercmds engine sv turn msg delta) (entered engine sv turn msg delta) := rfl

/-- `Proxy_SV_UserMove` does nothing but moves. -/
theorem userMove_moves (turn : Turn) (msg : Msg) (delta : Bool) :
    Moves engine sv turn (proxySvUserMove engine sv turn msg delta) := by
  rw [userMove_eq]
  have aim : Move engine sv turn (aimed turn delta) := Move.delta turn _
  refine Relation.ReflTransGen.head aim ?_
  split
  · exact .single (Move.print _ _)
  split
  · exact .single (Move.print _ _)
  · have entered := enterWorld_moves engine sv (packetUsercmds engine sv turn msg delta)
      { aimed turn delta with cl := acknowledgeFrame sv (aimed turn delta).cl }
    have moved := moveActive_moves engine sv (packetUsercmds engine sv turn msg delta)
      (MessageSteps.entered engine sv turn msg delta)
    exact (entered.trans moved).head (Move.acknowledge _)

/-! ## A message -/

/-- Where the commands of a message begin and the client then, if `Proxy_SV_ExecuteClientMessage` comes to them. -/
def commandPart (cl : Client) (msg : Msg) : Option (Client × Msg) :=
  match readAcknowledges engine cl msg with
  | (.hanging, _, _, _) => none
  | (.refused, _, _, _) => none
  | (.passed, serverId, cl, msg) =>
    if serverId ≠ sv.serverId ∧ cl.downloadName = [] ∧ contains cl.lastClientCommandString "nextdl".toList = false then
      none
    else some (cl, msg)

def messageCommands (cl : Client) (msg : Msg) : List (Int32 × CString) :=
  match commandPart engine sv cl msg with
  | some (_, rest) => commandsOf engine rest
  | none => []

def messageHandled (cl : Client) (msg : Msg) : List Handled :=
  match commandPart engine sv cl msg with
  | some (cl, rest) => handled engine sv ⟨cl, []⟩ rest
  | none => []

/-- What a message that comes to its commands leaves to be done after them. -/
def afterCommands (read : Option Int32 × Turn × Msg) : Turn :=
  match read with
  | (none, turn, _) => turn
  | (some c, turn, msg) =>
    if c = clcMove then proxySvUserMove engine sv turn msg true
    else if c = clcMoveNoDelta then proxySvUserMove engine sv turn msg false
    else if c ≠ clcEof then
      turn.log (.comPrintf ("WARNING: bad command byte for client ".toList ++ decimal turn.cl.num ++ "\n".toList))
    else turn

theorem readAcknowledges_client (cl : Client) (msg : Msg) :
    ∃ messageAcknowledge reliableAcknowledge, (readAcknowledges engine cl msg).2.2.1 =
      { cl with messageAcknowledge, reliableAcknowledge } := by
  simp only [readAcknowledges]
  split
  · exact ⟨_, _, rfl⟩
  · split <;> exact ⟨_, _, rfl⟩

/-- A message comes to its commands, or at most sends the gamestate to a client that is not active. -/
theorem executeClientMessage_cases (cl : Client) (msg : Msg) :
    ∃ messageAcknowledge reliableAcknowledge, ∃ now : Client, now = { cl with messageAcknowledge, reliableAcknowledge } ∧
      ((∃ rest, commandPart engine sv cl msg = some (now, rest) ∧
          proxySvExecuteClientMessage engine sv cl msg =
            afterCommands engine sv (readCommands engine sv ⟨now, []⟩ rest)) ∨
        commandPart engine sv cl msg = none ∧
          ((proxySvExecuteClientMessage engine sv cl msg).cl = now ∧
              acts (proxySvExecuteClientMessage engine sv cl msg).calls = [] ∨
            cl.state ≠ .csActive ∧
              (proxySvExecuteClientMessage engine sv cl msg).cl = engine.svSendClientGameState now ∧
              acts (proxySvExecuteClientMessage engine sv cl msg).calls = [.svSendClientGameState])) := by
  obtain ⟨messageAcknowledge, reliableAcknowledge, client⟩ := readAcknowledges_client engine cl msg
  refine ⟨messageAcknowledge, reliableAcknowledge, _, rfl, ?_⟩
  rw [← client, commandPart, proxySvExecuteClientMessage]
  rcases outcome : readAcknowledges engine cl msg with ⟨check, serverId, now, rest⟩
  rw [outcome] at client
  cases check with
  | hanging => exact Or.inr ⟨rfl, Or.inl ⟨rfl, rfl⟩⟩
  | refused => exact Or.inr ⟨rfl, Or.inl ⟨rfl, rfl⟩⟩
  | passed =>
    simp only
    split
    · refine Or.inr ⟨rfl, ?_⟩
      split
      · exact Or.inl ⟨rfl, rfl⟩
      · split
        · rename_i dropped
          have state : now.state = cl.state := by
            have same : now = _ := client
            rw [same]
          rw [state] at dropped
          exact Or.inr ⟨dropped.1, rfl, rfl⟩
        · exact Or.inl ⟨rfl, rfl⟩
    · exact Or.inl ⟨rest, rfl, rfl⟩

theorem afterCommands_moves (c : Int32) (turn : Turn) (msg : Msg) :
    Moves engine sv turn (afterCommands engine sv (some c, turn, msg)) := by
  rw [afterCommands]
  split
  · exact userMove_moves engine sv turn msg true
  split
  · exact userMove_moves engine sv turn msg false
  split
  · exact .single (Move.print turn _)
  · exact .refl

theorem afterCommands_none (read : Option Int32 × Turn × Msg) (left : read.1 = none) :
    afterCommands engine sv read = read.2.1 := by
  obtain ⟨_ | c, turn, rest⟩ := read
  · rfl
  · cases left

def sampleServer : Server where
  serverId := 0
  restartedServerId := 0
  checksumFeed := 0
  time := 5000
  milliseconds := 5000
  comClRunning := false
  svFloodProtect := true
  svPure := false
  proxySvPingFix := false
  proxySvEnableNetStatus := false

example : (messageHandled numbersEngine sampleServer sampleClient [0, 1, 1, 4, 1, 4, 1, 4, 3, 4, 2, 5]).map Handled.fate =
    [.executed true, .repeated, .lost] := by decide +kernel

end YbeProxy.MessageSteps
