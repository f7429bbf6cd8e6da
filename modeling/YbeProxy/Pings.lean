import YbeProxy.ActiveClients
import YbeProxy.Runs
import Mathlib.Data.List.Induction

/-!
# Pings

`Proxy_SV_CalcPings` of `Engine/Hooks/server/sv_main.cpp`, and the times that it reads: a message that is sent takes one of
32 slots, and a packet that acknowledges a message fills in the time of the acknowledgement.
-/

namespace YbeProxy.Pings
open YbeProxy.Strings
open YbeProxy.ClientMessage (Client Server Engine Turn acknowledgeFrame proxySvUserMove)
open YbeProxy.MessageSteps (enterWorld moveActive)
open YbeProxy.ServerCommands
open YbeProxy.Runs (trace final)

def packetBackup : Nat := 32

/-! ## The mean -/

/-- Minus one: sent, not acknowledged yet. Both 0: never sent since the slot of the client was cleared. -/
def counted (messageSent messageAcked : Int32) : Bool :=
  !(messageAcked = -1 || (messageSent = 0 && messageAcked = 0))

def countedSlots (cl : ClientT) : List Nat :=
  (List.range packetBackup).filter fun j => counted (cl.messageSent j) (cl.messageAcked j)

def total (cl : ClientT) : Int32 :=
  (countedSlots cl).foldl (fun total j => total + (cl.messageAcked j - cl.messageSent j)) 0

/-- The ping of one client; `svFlagsBot` is none where it has no entity, and says otherwise whether it is a bot. -/
def proxySvCalcPing (proxySvPingFix : Bool) (svFlagsBot : Option Bool) (cl : ClientT) : Int32 :=
  if cl.state ≠ .csActive then 999
  else
    match svFlagsBot with
    | none => 999
    | some true => 0
    | some false =>
      if countedSlots cl = [] then 999
      else
        let ping := total cl / Int32.ofNat (countedSlots cl).length
        let ping := if 999 < ping then 999 else ping
        if proxySvPingFix ∧ ping < 1 then 1 else ping

/-! ## What the functions do to the slots -/

/-- `number & PACKET_MASK`. -/
def slotOf (number : Int32) : Nat := (number &&& 31).toInt.toNat

/-- What is relied on of the engine where it takes a packet: the frames of the client stay. -/
structure KeepsFrames {Msg : Type} (engine : Engine Msg) : Prop where
  drop : ∀ cl reason, (engine.svDropClient cl reason).messageAcked = cl.messageAcked
  enter : ∀ cl cmd, (engine.svClientEnterWorld cl cmd).messageAcked = cl.messageAcked
  think : ∀ cl cmd, (engine.svClientThink cl cmd).messageAcked = cl.messageAcked

/-- The count of usercmds is one that a packet may bring. -/
def bringsUsercmds {Msg : Type} (engine : Engine Msg) (msg : Msg) : Bool :=
  !((engine.msgReadByte msg).1 < 1) && !(ClientMessage.maxPacketUsercmds < (engine.msgReadByte msg).1)

section
variable {Msg : Type} {engine : Engine Msg} (keeps : KeepsFrames engine) (sv : Server)
include keeps

theorem thinkAll_messageAcked (lastTime : Int32) (cmds : List ClientMessage.Usercmd) (turn : Turn) :
    (ClientMessage.thinkAll engine lastTime cmds turn).cl.messageAcked = turn.cl.messageAcked := by
  induction cmds generalizing turn with
  | nil => rfl
  | cons cmd rest hypothesis =>
    rw [ClientMessage.thinkAll]
    split
    · exact hypothesis turn
    · rw [hypothesis]
      exact keeps.think turn.cl cmd

theorem enterWorld_messageAcked (cmds : List ClientMessage.Usercmd) (turn : Turn) :
    (enterWorld engine cmds turn).cl.messageAcked = turn.cl.messageAcked := by
  rw [enterWorld]
  split
  · exact keeps.enter turn.cl _
  · rfl

theorem moveActive_messageAcked (cmds : List ClientMessage.Usercmd) (turn : Turn) :
    (moveActive engine sv cmds turn).cl.messageAcked = turn.cl.messageAcked := by
  rw [moveActive]
  split
  · exact keeps.drop turn.cl _
  split
  · rfl
  · rw [thinkAll_messageAcked keeps]
    split <;> rfl

omit keeps in
theorem acknowledgeFrame_messageAcked (fix : sv.proxySvPingFix = true) (cl : Client) :
    (acknowledgeFrame sv cl).messageAcked =
      if cl.messageAcked (slotOf cl.messageAcknowledge) = -1 then
        Function.update cl.messageAcked (slotOf cl.messageAcknowledge) sv.milliseconds
      else cl.messageAcked := by
  have frame : ClientMessage.frame cl = slotOf cl.messageAcknowledge := rfl
  simp only [acknowledgeFrame, fix, frame, Bool.not_true, Bool.false_or, decide_eq_true_eq, if_true]
  split <;> rfl

/-- A packet writes the slot of the number that it acknowledges, where it brings usercmds and the slot has no time. -/
theorem userMove_messageAcked (fix : sv.proxySvPingFix = true) (turn : Turn) (msg : Msg) (delta : Bool) :
    (proxySvUserMove engine sv turn msg delta).cl.messageAcked =
      if bringsUsercmds engine msg ∧ turn.cl.messageAcked (slotOf turn.cl.messageAcknowledge) = -1 then
        Function.update turn.cl.messageAcked (slotOf turn.cl.messageAcknowledge) sv.milliseconds
      else turn.cl.messageAcked := by
  let aimed : Turn := { turn with cl := { turn.cl with
    deltaMessage := if delta then turn.cl.messageAcknowledge else -1 } }
  let cmds := ClientMessage.readUsercmds engine (ClientMessage.usercmdKey engine sv aimed.cl)
    (engine.msgReadByte msg).1.toInt.toNat .null (engine.msgReadByte msg).2
  let acknowledged : Turn := { aimed with cl := acknowledgeFrame sv aimed.cl }
  have steps : proxySvUserMove engine sv turn msg delta =
      if (engine.msgReadByte msg).1 < 1 then aimed.log (.comPrintf "cmdCount < 1\n".toList)
      else if ClientMessage.maxPacketUsercmds < (engine.msgReadByte msg).1 then
        aimed.log (.comPrintf "cmdCount > MAX_PACKET_USERCMDS\n".toList)
      else moveActive engine sv cmds (enterWorld engine cmds acknowledged) := rfl
  rw [steps, bringsUsercmds]
  by_cases few : (engine.msgReadByte msg).1 < 1
  · simp [few, Turn.log, aimed]
  by_cases many : ClientMessage.maxPacketUsercmds < (engine.msgReadByte msg).1
  · simp [few, many, Turn.log, aimed]
  · rw [if_neg few, if_neg many, moveActive_messageAcked keeps, enterWorld_messageAcked keeps]
    simp only [few, many, decide_false, Bool.not_false, Bool.and_self, true_and]
    exact acknowledgeFrame_messageAcked sv fix aimed.cl

end

/-- What is relied on of the engine where it sends a message: the frames of the client stay. -/
structure SendsFrames (sender : Sender) : Prop where
  sent : ∀ msg cl, (sender.svNetchanTransmit msg cl).1.messageSent = cl.messageSent
  acked : ∀ msg cl, (sender.svNetchanTransmit msg cl).1.messageAcked = cl.messageAcked

theorem writeOldFragments_frames (sender : Sender) (place : CString) (work : Work) :
    (writeOldFragments sender place work).cl.messageSent = work.cl.messageSent ∧
      (writeOldFragments sender place work).cl.messageAcked = work.cl.messageAcked := by
  induction work using writeOldFragments.induct sender place with
  | case1 work unsent _ hypothesis =>
    rw [writeOldFragments, dif_pos unsent]
    exact hypothesis
  | case2 work sent =>
    rw [writeOldFragments, dif_neg sent]
    exact ⟨rfl, rfl⟩

theorem scheduleNext_frames (env : Env) (sender : Sender) (size : Int32) (work : Work) :
    (scheduleNext env sender size work).cl.messageSent = work.cl.messageSent ∧
      (scheduleNext env sender size work).cl.messageAcked = work.cl.messageAcked := by
  rw [scheduleNext]
  split
  · exact ⟨rfl, rfl⟩
  · simp only [scheduleSnapshot]
    split <;> exact ⟨rfl, rfl⟩

/-- The number that a message is sent with: what is left of the message before it goes out first. -/
def sentNumber (sender : Sender) (cl : ClientT) : Int32 :=
  (writeOldFragments sender "[1]".toList ⟨cl, []⟩).cl.netchan.outgoingSequence

theorem sendMessageToClient_frames (env : Env) {sender : Sender} (sends : SendsFrames sender)
    (fix : sender.proxySvPingFix = true) (msg : List Write) (cl : ClientT) :
    (proxySvSendMessageToClient env sender msg ⟨cl, []⟩).cl.messageSent =
        Function.update cl.messageSent (slotOf (sentNumber sender cl)) sender.milliseconds ∧
      (proxySvSendMessageToClient env sender msg ⟨cl, []⟩).cl.messageAcked =
        Function.update cl.messageAcked (slotOf (sentNumber sender cl)) (-1) := by
  obtain ⟨sent, acked⟩ := writeOldFragments_frames sender "[1]".toList ⟨cl, []⟩
  have frame : frameOf (writeOldFragments sender "[1]".toList ⟨cl, []⟩).cl = slotOf (sentNumber sender cl) := rfl
  rw [proxySvSendMessageToClient, (scheduleNext_frames env sender _ _).1, (scheduleNext_frames env sender _ _).2,
    sends.sent, sends.acked]
  constructor
  · split <;> simp only [Work.log, recordMessage, frame, fix, sent, if_true]
  · split <;> simp only [Work.log, recordMessage, frame, acked]

/-! ## Runs -/

/-- A message is sent, or a packet comes that acknowledges a message. -/
inductive Event (Msg : Type)
  | send (env : Env) (sender : Sender) (msg : List Write)
  | packet (engine : Engine Msg) (sv : Server) (messageAcknowledge : Int32) (msg : Msg) (delta : Bool)

inductive Entry
  | sent (number time : Int32)
  | received (number time : Int32)
  deriving DecidableEq

variable {Msg : Type}

def step (cl : ClientT) : Event Msg → Entry × ClientT
  | .send env sender msg =>
    (.sent (sentNumber sender cl) sender.milliseconds, (proxySvSendMessageToClient env sender msg ⟨cl, []⟩).cl)
  | .packet engine sv messageAcknowledge msg delta =>
    (.received messageAcknowledge sv.milliseconds,
      { cl with toClient :=
        (proxySvUserMove engine sv ⟨{ cl.toClient with messageAcknowledge }, []⟩ msg delta).cl })

/-- What was sent and received in a run, in order. -/
def log (cl : ClientT) (events : List (Event Msg)) : List Entry := (trace step cl events).map Prod.snd

/-- `proxy_sv_pingFix` is 1, a packet acknowledges no negative number, and the engine leaves the frames alone. -/
def Event.Documented : Event Msg → Prop
  | .send _ sender _ => sender.proxySvPingFix = true ∧ SendsFrames sender
  | .packet engine sv messageAcknowledge _ _ =>
    sv.proxySvPingFix = true ∧ 0 ≤ messageAcknowledge ∧ KeepsFrames engine

def receivedAt (number : Int32) : Entry → Option Int32
  | .sent _ _ => none
  | .received other time => if other = number then some time else none

/-- For one message: the time that it was sent, and the time of the first packet since then that acknowledges it. -/
def Paired (log : List Entry) (messageSent messageAcked : Int32) : Prop :=
  ∃ before number after, log = before ++ .sent number messageSent :: after ∧
    after.findSome? (receivedAt number) = some messageAcked

/-- A message was sent; since then no other took its slot, and no packet has acknowledged it. -/
def Awaited (log : List Entry) (number : Int32) : Prop :=
  ∃ before time after, log = before ++ .sent number time :: after ∧
    (∀ other time, .sent other time ∈ after → slotOf other ≠ slotOf number) ∧
    after.findSome? (receivedAt number) = none

/-- A packet that gives its slot a time is the first that acknowledges the message in the slot. -/
def Meets (log : List Entry) (cl : ClientT) : Event Msg → Prop
  | .send _ _ _ => True
  | .packet engine sv messageAcknowledge msg _ =>
    bringsUsercmds engine msg = true → cl.messageAcked (slotOf messageAcknowledge) = -1 →
      counted (cl.messageSent (slotOf messageAcknowledge)) sv.milliseconds = true → Awaited log messageAcknowledge

/-- The slots say of the messages sent last when they were sent, and those that count are paired. -/
structure Tells (log : List Entry) (cl : ClientT) : Prop where
  sent : ∀ before number time after, log = before ++ .sent number time :: after →
    (∀ other time, .sent other time ∈ after → slotOf other ≠ slotOf number) → cl.messageSent (slotOf number) = time
  paired : ∀ j, counted (cl.messageSent j) (cl.messageAcked j) = true → Paired log (cl.messageSent j) (cl.messageAcked j)

theorem Paired.concat {log : List Entry} {messageSent messageAcked : Int32} (paired : Paired log messageSent messageAcked)
    (entry : Entry) : Paired (log ++ [entry]) messageSent messageAcked := by
  obtain ⟨before, number, after, rfl, first⟩ := paired
  exact ⟨before, number, after ++ [entry], by simp, by rw [List.findSome?_append, first]; rfl⟩

/-- The last of a list is the entry that it is split at, or one behind it. -/
theorem concat_split {log before after : List Entry} {entry sent : Entry}
    (same : log ++ [entry] = before ++ sent :: after) :
    (after = [] ∧ log = before ∧ entry = sent) ∨ ∃ rest, after = rest ++ [entry] ∧ log = before ++ sent :: rest := by
  rcases List.eq_nil_or_concat after with rfl | ⟨rest, last, rfl⟩
  · obtain ⟨front, back⟩ := List.append_inj' same rfl
    exact Or.inl ⟨rfl, front, (List.cons.inj back).1⟩
  · rw [List.concat_eq_append, ← List.cons_append, ← List.append_assoc] at same
    obtain ⟨front, back⟩ := List.append_inj' same rfl
    obtain rfl := (List.cons.inj back).1
    exact Or.inr ⟨rest, List.concat_eq_append, front⟩

theorem send_tells {log : List Entry} {cl next : ClientT} (tells : Tells log cl) {number time : Int32}
    (sent : next.messageSent = Function.update cl.messageSent (slotOf number) time)
    (acked : next.messageAcked = Function.update cl.messageAcked (slotOf number) (-1)) :
    Tells (log ++ [.sent number time]) next := by
  constructor
  · intro before other at' after split others
    rw [sent]
    rcases concat_split split with ⟨rfl, rfl, same⟩ | ⟨rest, rfl, rfl⟩
    · obtain ⟨rfl, rfl⟩ := Entry.sent.inj same
      exact Function.update_self _ _ _
    · have apart := others number time (List.mem_append_right _ List.mem_cons_self)
      rw [Function.update_of_ne apart.symm]
      exact tells.sent _ _ _ _ rfl fun later at' member => others later at' (List.mem_append_left _ member)
  · intro j counts
    by_cases same : j = slotOf number
    · subst same
      rw [acked, Function.update_self] at counts
      simp [counted] at counts
    · rw [sent, acked, Function.update_of_ne same, Function.update_of_ne same] at counts ⊢
      exact (tells.paired j counts).concat _

theorem packet_tells {log : List Entry} {cl next : ClientT} (tells : Tells log cl) {number time : Int32}
    (sent : next.messageSent = cl.messageSent)
    (acked : next.messageAcked = cl.messageAcked ∨
      next.messageAcked = Function.update cl.messageAcked (slotOf number) time ∧
        (counted (cl.messageSent (slotOf number)) time = true → Awaited log number)) :
    Tells (log ++ [.received number time]) next := by
  constructor
  · intro before other at' after split others
    rw [sent]
    rcases concat_split split with ⟨_, _, same⟩ | ⟨rest, rfl, rfl⟩
    · cases same
    · exact tells.sent _ _ _ _ rfl fun later at' member => others later at' (List.mem_append_left _ member)
  · intro j counts
    rw [sent] at counts ⊢
    rcases acked with same | ⟨written, awaited⟩
    · rw [same] at counts ⊢
      exact (tells.paired j counts).concat _
    by_cases same : j = slotOf number
    · subst same
      rw [written, Function.update_self] at counts ⊢
      obtain ⟨before, at', after, rfl, others, unheard⟩ := awaited counts
      rw [tells.sent before number at' after rfl others]
      refine ⟨before, number, after ++ [.received number time], by simp, ?_⟩
      rw [List.findSome?_append, unheard]
      simp [receivedAt]
    · rw [written, Function.update_of_ne same] at counts ⊢
      exact (tells.paired j counts).concat _

theorem step_tells {cl : ClientT} {log : List Entry} (tells : Tells log cl) {event : Event Msg}
    (documented : event.Documented) (meets : Meets log cl event) :
    Tells (log ++ [(step cl event).1]) (step cl event).2 := by
  cases event with
  | send env sender msg =>
    obtain ⟨fix, sends⟩ := documented
    obtain ⟨sent, acked⟩ := sendMessageToClient_frames env sends fix msg cl
    exact send_tells tells sent acked
  | packet engine sv messageAcknowledge msg delta =>
    obtain ⟨fix, _, keeps⟩ := documented
    have acked := userMove_messageAcked keeps sv fix ⟨{ cl.toClient with messageAcknowledge }, []⟩ msg delta
    refine packet_tells tells rfl ?_
    split at acked
    · rename_i writes
      exact Or.inr ⟨acked, meets writes.1 writes.2⟩
    · exact Or.inl acked

theorem log_concat (cl : ClientT) (events : List (Event Msg)) (event : Event Msg) :
    log cl (events ++ [event]) = log cl events ++ [(step (final step cl events) event).1] := by
  rw [log, Runs.trace_concat, List.map_append, log]
  rfl

/-- The slots of a client are cleared when it connects. -/
def Cleared (cl : ClientT) : Prop := ∀ j, cl.messageSent j = 0 ∧ cl.messageAcked j = 0

theorem run_tells {cl : ClientT} (cleared : Cleared cl) {events : List (Event Msg)}
    (documented : ∀ event ∈ events, event.Documented)
    (meets : ∀ before event after, events = before ++ event :: after →
      Meets (log cl before) (final step cl before) event) :
    Tells (log cl events) (final step cl events) := by
  induction events using List.reverseRecOn with
  | nil =>
    constructor
    · intro before number time after split
      simp [log, trace] at split
    · intro j counts
      simp [final, counted, cleared j] at counts
  | append_singleton events event hypothesis =>
    rw [log_concat, Runs.final_concat]
    refine step_tells ?_ (documented event (List.mem_append_right _ List.mem_cons_self)) (meets events event [] rfl)
    refine hypothesis (fun earlier member => documented earlier (List.mem_append_left _ member)) ?_
    intro before earlier after split
    exact meets before earlier (after ++ [event]) (by simp [split])

/-- In a run where every packet that gives a slot its time is the first to acknowledge the message there, the slots that
count are paired in every state reached. -/
theorem counted_slots_paired {cl : ClientT} (cleared : Cleared cl) {events : List (Event Msg)}
    (documented : ∀ event ∈ events, event.Documented)
    (meets : ∀ before event after, events = before ++ event :: after →
      Meets (log cl before) (final step cl before) event) :
    ∀ before after, events = before ++ after → ∀ j ∈ countedSlots (final step cl before),
      Paired (log cl before) ((final step cl before).messageSent j) ((final step cl before).messageAcked j) := by
  rintro before after rfl j listed
  have tells : Tells (log cl before) (final step cl before) := by
    refine run_tells cleared (fun event member => documented event (List.mem_append_left _ member)) ?_
    rintro earlier event later rfl
    exact meets earlier event (later ++ after) (by simp)
  exact tells.paired j (List.mem_filter.mp listed).2

/-! ## A packet that acknowledges a message not sent yet -/

def freshClient : ClientT :=
  { ClientMessage.sampleClient, ActiveClients.sampleRest with
    messageAcked := fun _ => 0
    netchan := ⟨1, false, 0, 0⟩ }

def countingSender : Sender :=
  { ActiveClients.sampleSender with
    svNetchanTransmit := fun _ cl =>
      ({ cl with netchan := { cl.netchan with outgoingSequence := cl.netchan.outgoingSequence + 1 } }, 101) }

/-- Message 1 is sent, and a packet comes 10 ms later. -/
def pinged (messageAcknowledge : Int32) : List (Event (List Int32)) :=
  [.send ActiveClients.sampleEnv countingSender [],
    .packet ClientMessage.numbersEngine { MessageSteps.sampleServer with proxySvPingFix := true, milliseconds := 5010 }
      messageAcknowledge [1] true]

theorem pinged_documented {messageAcknowledge : Int32} (positive : 0 ≤ messageAcknowledge) :
    ∀ event ∈ pinged messageAcknowledge, event.Documented := by
  have send : (.send ActiveClients.sampleEnv countingSender [] : Event (List Int32)).Documented :=
    ⟨rfl, fun _ _ => rfl, fun _ _ => rfl⟩
  simp only [pinged, List.forall_mem_cons]
  exact ⟨send, ⟨rfl, positive, fun _ _ => rfl, fun _ _ => rfl, fun _ _ => rfl⟩, by simp⟩

theorem sentNumber_freshClient : sentNumber countingSender freshClient = 1 := by
  rw [sentNumber, writeOldFragments, dif_neg (by simp [freshClient])]
  rfl

theorem pinged_log (messageAcknowledge : Int32) :
    log freshClient (pinged messageAcknowledge) = [.sent 1 5000, .received messageAcknowledge 5010] := by
  simp only [log, pinged, trace, step, sentNumber_freshClient, List.map_cons, List.map_nil]
  rfl

/-- Every number in the slot of the message gives it a time. -/
theorem pinged_frames {messageAcknowledge : Int32} (slot : slotOf messageAcknowledge = 1) :
    (final step freshClient (pinged messageAcknowledge)).messageSent 1 = 5000 ∧
      (final step freshClient (pinged messageAcknowledge)).messageAcked 1 = 5010 := by
  obtain ⟨sent, acked⟩ := @sendMessageToClient_frames ActiveClients.sampleEnv countingSender
    ⟨fun _ _ => rfl, fun _ _ => rfl⟩ rfl [] freshClient
  have one : slotOf 1 = 1 := by decide
  rw [sentNumber_freshClient, one] at sent acked
  have packet := @userMove_messageAcked (List Int32) ClientMessage.numbersEngine
    ⟨fun _ _ => rfl, fun _ _ => rfl, fun _ _ => rfl⟩
    { MessageSteps.sampleServer with proxySvPingFix := true, milliseconds := 5010 } rfl
    ⟨{ (proxySvSendMessageToClient ActiveClients.sampleEnv countingSender [] ⟨freshClient, []⟩).cl.toClient with
      messageAcknowledge }, []⟩ [1] true
  simp only [pinged, final, step]
  refine ⟨by rw [sent, Function.update_self]; rfl, ?_⟩
  rw [packet]
  simp only [slot, acked, Function.update_self]
  rw [if_pos ⟨by decide, trivial⟩, Function.update_self]

theorem pinged_counted {messageAcknowledge : Int32} (slot : slotOf messageAcknowledge = 1) :
    1 ∈ countedSlots (final step freshClient (pinged messageAcknowledge)) := by
  obtain ⟨sent, acked⟩ := pinged_frames slot
  rw [countedSlots, List.mem_filter, sent, acked]
  decide

/-- Message 33 would take the slot of message 1. -/
theorem counted_slot_unpaired :
    (Cleared freshClient ∧ ∀ event ∈ pinged 33, event.Documented) ∧
      1 ∈ countedSlots (final step freshClient (pinged 33)) ∧
      ¬ Paired (log freshClient (pinged 33)) ((final step freshClient (pinged 33)).messageSent 1)
        ((final step freshClient (pinged 33)).messageAcked 1) := by
  refine ⟨⟨fun _ => ⟨rfl, rfl⟩, pinged_documented (by decide)⟩, pinged_counted (by decide), ?_⟩
  rintro ⟨before, number, after, split, first⟩
  rw [pinged_log] at split
  cases before with
  | nil =>
    obtain ⟨same, rfl⟩ := List.cons.inj split
    obtain ⟨rfl, _⟩ := Entry.sent.inj same
    cases first
  | cons entry before =>
    have rest := (List.cons.inj split).2
    cases before with
    | nil => cases (List.cons.inj rest).1
    | cons other before => simp at rest

theorem counted_slots_paired_sample :
    1 ∈ countedSlots (final step freshClient (pinged 1)) ∧
      Paired (log freshClient (pinged 1)) ((final step freshClient (pinged 1)).messageSent 1)
        ((final step freshClient (pinged 1)).messageAcked 1) := by
  have counts : 1 ∈ countedSlots (final step freshClient (pinged 1)) := pinged_counted (by decide)
  have documented : ∀ event ∈ pinged 1, event.Documented := pinged_documented (by decide)
  have meets (before : List (Event (List Int32))) (event : Event (List Int32)) (after : List (Event (List Int32)))
      (split : pinged 1 = before ++ event :: after) :
      Meets (log freshClient before) (final step freshClient before) event := by
    cases before with
    | nil =>
      obtain ⟨rfl, _⟩ := List.cons.inj split
      trivial
    | cons first before =>
      obtain ⟨rfl, rest⟩ := List.cons.inj split
      cases before with
      | nil =>
        obtain ⟨rfl, _⟩ := List.cons.inj rest
        intro _ _ _
        refine ⟨[], 5000, [], ?_, by simp, rfl⟩
        simp only [log, trace, step, sentNumber_freshClient, List.map_cons, List.map_nil]
        rfl
      | cons second before => simp at rest
  exact ⟨counts, counted_slots_paired (fun _ => ⟨rfl, rfl⟩) documented meets (pinged 1) [] (by simp) 1 counts⟩

end YbeProxy.Pings
