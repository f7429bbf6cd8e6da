import YbeProxy.NetRuns

/-!
# Round trips and acknowledgements

Which packets add a round trip is decided by the slots of the messages and the last acknowledgement that found its
message: the estimates refine this smaller machine. A client may acknowledge the messages in any order, so what the
last acknowledgement alone remembers is not enough to sample each message once.
-/

namespace YbeProxy.RoundTrips
open YbeProxy.ClientMessage YbeProxy.UsercmdOrder YbeProxy.NetStatus YbeProxy.NetRuns YbeProxy.Runs

/-- The message in each slot, by its sequence and time, and the last acknowledgement that found its message. -/
structure AckState where
  slots : ℕ → Int32 × Int32
  last : Int32

variable {F : Type}

def ackStep (acks : AckState) : NetEvent F → Option RoundTrip × AckState
  | .sent _ message =>
    (none, { acks with slots := Function.update acks.slots message.slot (message.outgoingSequence, message.now) })
  | .received _ packet =>
    let (sequence, time) := acks.slots (slotOf packet.ack)
    if sequence = packet.ack ∧ acks.last ≠ packet.ack then
      let rtt := packet.now - time
      (if 0 ≤ rtt ∧ rtt ≤ 2000 then some (packet.now, rtt) else none, { acks with last := packet.ack })
    else (none, acks)

def noAcks : AckState := ⟨fun _ => (0, 0), 0⟩

/-- The messages and acknowledgements after a run. -/
def acksAfter (events : List (NetEvent F)) : AckState := final ackStep noAcks events

/-! ## The estimates refine it -/

structure Refines (status : ClientNetStatus F) (acks : AckState) : Prop where
  slots : (fun slot => (status.estimate.sentSequence slot, status.estimate.sentTime slot)) = acks.slots
  last : status.estimate.lastAckedSequence = acks.last
  ring : ∃ history, RttRing history status.estimate

variable (floats : Floats F) (simulateClient : Int32 → Int32 → Int32 → F)

theorem zeroed_refines : Refines (zeroed floats) noAcks where
  slots := rfl
  last := rfl
  ring := ⟨_, netRun_rtt floats (fun _ _ _ => floats.ofInt 0) []⟩

theorem snapshotSent_slots (clock : ContinuousClock F) (state : ClientState)
    (outgoingSequence svsTime now : Int32) (e : NetEstimate F) :
    let after := snapshotSent floats clock state outgoingSequence svsTime now e
    after.sentTime = Function.update e.sentTime (slotOf outgoingSequence) now ∧
      after.sentSequence = Function.update e.sentSequence (slotOf outgoingSequence) outgoingSequence ∧
      after.lastAckedSequence = e.lastAckedSequence := by
  simp only [snapshotSent]
  repeat' split
  all_goals exact ⟨rfl, rfl, rfl⟩

theorem sampleRoundTrip_slots (ack now : Int32) (e : NetEstimate F) :
    (sampleRoundTrip ack now e).sentTime = e.sentTime ∧ (sampleRoundTrip ack now e).sentSequence = e.sentSequence ∧
      (sampleRoundTrip ack now e).lastAckedSequence =
        if e.sentSequence (slotOf ack) = ack ∧ e.lastAckedSequence ≠ ack then ack else e.lastAckedSequence := by
  by_cases found : e.sentSequence (slotOf ack) = ack ∧ e.lastAckedSequence ≠ ack
  · rw [if_pos found]
    rw [slotOf] at found
    simp only [sampleRoundTrip, if_pos found]
    split
    all_goals exact ⟨rfl, rfl, rfl⟩
  · rw [if_neg found]
    rw [slotOf] at found
    simp only [sampleRoundTrip, if_neg found, and_self]

theorem ackStep_received (acks : AckState) (clock : ContinuousClock F) (packet : Packet) :
    ackStep acks (.received clock packet) =
      let (sequence, time) := acks.slots (slotOf packet.ack)
      let rtt := packet.now - time
      (if sequence = packet.ack ∧ acks.last ≠ packet.ack ∧ 0 ≤ rtt ∧ rtt ≤ 2000 then some (packet.now, rtt) else none,
        ⟨acks.slots, if sequence = packet.ack ∧ acks.last ≠ packet.ack then packet.ack else acks.last⟩) := by
  simp only [ackStep]
  by_cases found : (acks.slots (slotOf packet.ack)).1 = packet.ack ∧ acks.last ≠ packet.ack
  · simp only [found.1, found.2, true_and, ne_eq, not_false_eq_true, ↓reduceIte]
  · rw [if_neg found, if_neg found, if_neg]
    rintro ⟨held, fresh, _⟩
    exact found ⟨held, fresh⟩

theorem netStep_refines (status : ClientNetStatus F) (acks : AckState) (event : NetEvent F)
    (refines : Refines status acks) :
    (netStep floats simulateClient status event).1 = (ackStep acks event).1 ∧
      Refines (netStep floats simulateClient status event).2 (ackStep acks event).2 := by
  obtain ⟨slots, last, history, ring⟩ := refines
  have kept := netStep_rtt floats simulateClient ring event
  cases event with
  | sent clock message =>
    obtain ⟨_, _, place⟩ := snapshotSent_rtt floats clock message.state message.outgoingSequence message.svsTime
      message.now status.estimate
    obtain ⟨times, sequences, acked⟩ := snapshotSent_slots floats clock message.state message.outgoingSequence
      message.svsTime message.now status.estimate
    refine ⟨if_pos place, ⟨?_, acked.trans last, _, kept⟩⟩
    simp only [netStep, ackStep]
    rw [times, sequences, ← slots]
    exact update_pair _ _ _ (message.outgoingSequence, message.now)
  | received clock packet =>
    have rings := packetReceived_rings floats simulateClient clock packet.svFps packet.now packet.cl packet.cmds status
    obtain ⟨_, gains⟩ := sampleRoundTrip_ring ring packet.cl.messageAcknowledge packet.now
    have answer := (gained_of_same (e := status.estimate) rings.rttTime rings.rttValue rings.rttIndex).trans gains
    obtain ⟨times, sequences, acked⟩ := sampleRoundTrip_slots packet.ack packet.now status.estimate
    rw [ackStep_received, ← slots, ← last]
    refine ⟨answer, ⟨?_, (rings.lastAckedSequence.trans acked), _, kept⟩⟩
    have sentTime := rings.sentTime.trans times
    have sentSequence := rings.sentSequence.trans sequences
    simp only [netStep]
    rw [sentTime, sentSequence]

theorem netRun_refines (events : List (NetEvent F)) :
    Refines (netRun floats simulateClient events) (acksAfter events) := by
  induction events using List.reverseRecOn with
  | nil => exact zeroed_refines floats
  | append_singleton events event refines =>
    rw [netRun_concat, acksAfter, final_concat]
    exact (netStep_refines floats simulateClient _ _ event refines).2

theorem netTrace_eq (events : List (NetEvent F)) :
    netTrace floats simulateClient events = trace ackStep noAcks events := by
  have always : AtEach (netStep floats simulateClient) ackStep (fun _ _ _ => True) (zeroed floats) noAcks events := by
    intro before event after split
    trivial
  refine trace_eq_of_simulates _ _ Refines ?_ events (zeroed_refines floats) always
  intro status acks event refines _
  exact netStep_refines floats simulateClient status acks event refines

/-! ## One sample for each message -/

/-- The message is still in its slot. -/
def Kept (message : Message) (between : List (NetEvent F)) : Prop :=
  ∀ clock later, .sent clock later ∈ between → later.slot ≠ message.slot

/-- A packet acknowledged the message. -/
def Acknowledged (message : Message) (between : List (NetEvent F)) : Prop :=
  ∃ clock packet, .received clock packet ∈ between ∧ packet.ack = message.outgoingSequence

/-- The round trip of a message is sampled at the first packet that acknowledges it while its slot holds it, so no
message is sampled twice. -/
def OneSample (events : List (NetEvent F)) : Prop :=
  ∀ before clock message between arrival packet after,
    events = before ++ .sent clock message :: (between ++ .received arrival packet :: after) →
    Kept message between → packet.ack = message.outgoingSequence →
    (netStep floats simulateClient (netRun floats simulateClient (before ++ .sent clock message :: between))
      (.received arrival packet)).1 ≠ none →
    ¬Acknowledged message between

/-- Where a client acknowledges a message again within two seconds, the acknowledgement before it that found its
message was of the same one. -/
def RepeatsInARow (events : List (NetEvent F)) : Prop :=
  ∀ before clock message between arrival packet after,
    events = before ++ .sent clock message :: (between ++ .received arrival packet :: after) →
    Kept message between → packet.ack = message.outgoingSequence → Acknowledged message between →
    0 ≤ packet.now - message.now ∧ packet.now - message.now ≤ 2000 →
    (acksAfter (before ++ .sent clock message :: between)).last = packet.ack

theorem kept_slot (before : List (NetEvent F)) (clock : ContinuousClock F) {message : Message}
    {between : List (NetEvent F)} (kept : Kept message between) :
    (acksAfter (before ++ .sent clock message :: between)).slots message.slot =
      (message.outgoingSequence, message.now) := by
  induction between using List.reverseRecOn with
  | nil =>
    rw [acksAfter, final_concat]
    exact Function.update_self _ _ _
  | append_singleton between event hypothesis =>
    have before_kept := hypothesis fun clock later member => kept clock later (List.mem_append_left _ member)
    rw [← List.cons_append, ← List.append_assoc, acksAfter, final_concat]
    cases event with
    | sent clock later =>
      have other := kept clock later (List.mem_append_right _ (List.mem_singleton_self _))
      exact (Function.update_of_ne other.symm _ _).trans before_kept
    | received clock packet =>
      rw [ackStep_received]
      exact before_kept

/-- A packet that acknowledges a message in its slot takes a sample exactly if the last acknowledgement was of another
one and the round trip is one of at most two seconds. -/
theorem samples_iff (before : List (NetEvent F)) (clock arrival : ContinuousClock F) {message : Message}
    {between : List (NetEvent F)} (kept : Kept message between) {packet : Packet}
    (acks : packet.ack = message.outgoingSequence) :
    (netStep floats simulateClient (netRun floats simulateClient (before ++ .sent clock message :: between))
        (.received arrival packet)).1 ≠ none ↔
      (acksAfter (before ++ .sent clock message :: between)).last ≠ packet.ack ∧
        0 ≤ packet.now - message.now ∧ packet.now - message.now ≤ 2000 := by
  have slot : (acksAfter (before ++ .sent clock message :: between)).slots (slotOf packet.ack) =
      (message.outgoingSequence, message.now) := by
    rw [acks]
    exact kept_slot before clock kept
  rw [(netStep_refines floats simulateClient _ _ _ (netRun_refines floats simulateClient _)).1, ackStep_received, slot]
  simp only [acks, true_and]
  split <;> simp_all

theorem oneSample_iff (events : List (NetEvent F)) :
    OneSample floats simulateClient events ↔ RepeatsInARow events := by
  constructor
  · intro once before clock message between arrival packet after split kept acks again near
    by_contra other
    exact once before clock message between arrival packet after split kept acks
      ((samples_iff floats simulateClient before clock arrival kept acks).mpr ⟨other, near⟩) again
  · intro repeats before clock message between arrival packet after split kept acks sampled again
    obtain ⟨other, near⟩ := (samples_iff floats simulateClient before clock arrival kept acks).mp sampled
    exact other (repeats before clock message between arrival packet after split kept acks again near)

/-- A message, and the acknowledgement of one. -/
def messageAt (sequence now : Int32) : Message := ⟨.csActive, sequence, 0, now⟩

def ackAt (ack now : Int32) : Packet := ⟨20, now, { sampleClient with messageAcknowledge := ack }, []⟩

def sentAt (sequence now : Int32) : NetEvent ℤ := .sent ⟨0, false⟩ (messageAt sequence now)

def ackedAt (ack now : Int32) : NetEvent ℤ := .received ⟨0, false⟩ (ackAt ack now)

/-- The first message, acknowledged before and after the second one, is sampled twice. -/
theorem message_sampled_twice :
    ¬OneSample wholeFloats (fun _ _ _ => 0)
      [sentAt 1 5000, sentAt 2 5050, ackedAt 1 5100, ackedAt 2 5110, ackedAt 1 5120] := by
  intro once
  have kept : Kept (F := ℤ) (messageAt 1 5000) [sentAt 2 5050, ackedAt 1 5100, ackedAt 2 5110] := by
    intro clock later member
    obtain same : .sent clock later = sentAt 2 5050 := by simpa [ackedAt] using member
    cases same
    decide
  have acks : (ackAt 1 5120).ack = (messageAt 1 5000).outgoingSequence := rfl
  have sampled := (samples_iff wholeFloats (fun _ _ _ => 0) [] ⟨0, false⟩ ⟨0, false⟩ kept acks).mpr (by decide)
  refine once [] ⟨0, false⟩ (messageAt 1 5000) _ ⟨0, false⟩ (ackAt 1 5120) [] rfl kept rfl sampled ?_
  exact ⟨⟨0, false⟩, ackAt 1 5100, List.mem_cons_of_mem _ List.mem_cons_self, rfl⟩

end YbeProxy.RoundTrips
