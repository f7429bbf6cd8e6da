import Mathlib.Data.List.Induction
import YbeProxy.NetStatus
import YbeProxy.RingBuffer

/-!
# Runs of the network estimates

`SnapshotSent` and `PacketReceived` for one client, in any order, from the data that `ClientDisconnect` zeroed. What
the rings hold after a run is told from the calls alone.
-/

namespace YbeProxy.NetRuns
open YbeProxy.ClientMessage YbeProxy.UsercmdOrder YbeProxy.NetStatus YbeProxy.Runs

/-- What `SnapshotSent` reads. -/
structure Message where
  state : ClientState
  outgoingSequence : Int32
  svsTime : Int32
  now : Int32

/-- What `PacketReceived` reads. -/
structure Packet where
  svFps : Int32
  now : Int32
  cl : Client
  cmds : List Usercmd

inductive NetEvent (F : Type) where
  | sent (clock : ContinuousClock F) (message : Message)
  | received (clock : ContinuousClock F) (packet : Packet)

/-- `outgoingSequence & PACKET_MASK`, and the same of an acknowledgement. -/
def slotOf (sequence : Int32) : ℕ := index (sequence &&& 31)

def Message.slot (message : Message) : ℕ := slotOf message.outgoingSequence

def Packet.ack (packet : Packet) : Int32 := packet.cl.messageAcknowledge

/-- A round trip: the time of the packet, and its length. -/
abbrev RoundTrip := Int32 × Int32

-- A test of the entries of a list looks at these. Mathlib would try all the pairs there are.
instance (p : RoundTrip → Prop) [DecidablePred p] (l : List RoundTrip) : Decidable (∀ x ∈ l, p x) := List.decidableBAll p l
instance (p : RoundTrip → Prop) [DecidablePred p] (l : List RoundTrip) : Decidable (∃ x ∈ l, p x) := List.decidableBEx p l

variable {F : Type} (floats : Floats F) (simulateClient : Int32 → Int32 → Int32 → F)

/-- `memset(0)`. -/
def zeroed : ClientNetStatus F where
  estimate :=
    { sentTime := fun _ => 0, sentSequence := fun _ => 0, lastAckedSequence := 0
      packetTime := fun _ => 0, packetCmds := fun _ => 0, packetIndex := 0
      lastSnapshotTime := 0, snapshotInterval := floats.ofInt 0
      rttTime := fun _ => 0, rttValue := fun _ => 0, rttIndex := 0
      delaySum := floats.ofInt 0, delayCount := 0, lateSum := floats.ofInt 0, lateCount := 0
      frameLag := fun _ => 0, lagCount := 0, lastCmdServerTime := 0, windowStart := 0
      simInterval := 0, simFrameMs := 0, simFramesPerPacket := 0, simulated := floats.ofInt 0
      history := fun _ => 0, historyIndex := 0, historyFilled := false }
  netPing := 0
  timenudge := 0
  timenudgeKnown := false

/-- What an update adds to the ring of round trips. -/
def gained (before after : NetEstimate F) : Option RoundTrip :=
  if after.rttIndex = before.rttIndex then none
  else some (after.rttTime (index before.rttIndex), after.rttValue (index before.rttIndex))

def netStep (status : ClientNetStatus F) : NetEvent F → Option RoundTrip × ClientNetStatus F
  | .sent clock message =>
    let estimate := snapshotSent floats clock message.state message.outgoingSequence message.svsTime message.now
      status.estimate
    (gained status.estimate estimate, { status with estimate })
  | .received clock packet =>
    let after := packetReceived floats simulateClient clock packet.svFps packet.now packet.cl packet.cmds status
    (gained status.estimate after.estimate, after)

/-- The state after a run. -/
def netRun (events : List (NetEvent F)) : ClientNetStatus F :=
  final (netStep floats simulateClient) (zeroed floats) events

/-- The events of a run, each with the round trip that it adds. -/
def netTrace (events : List (NetEvent F)) : List (NetEvent F × Option RoundTrip) :=
  trace (netStep floats simulateClient) (zeroed floats) events

/-! ## What each call leaves in the rings -/

/-- The rings, and what the messages alone decide, stay as they are. -/
structure SameRings (a b : NetEstimate F) : Prop where
  sentTime : b.sentTime = a.sentTime
  sentSequence : b.sentSequence = a.sentSequence
  lastAckedSequence : b.lastAckedSequence = a.lastAckedSequence
  packetTime : b.packetTime = a.packetTime
  packetCmds : b.packetCmds = a.packetCmds
  packetIndex : b.packetIndex = a.packetIndex
  rttTime : b.rttTime = a.rttTime
  rttValue : b.rttValue = a.rttValue
  rttIndex : b.rttIndex = a.rttIndex
  snapshotInterval : b.snapshotInterval = a.snapshotInterval

namespace SameRings

theorem refl (e : NetEstimate F) : SameRings e e := ⟨rfl, rfl, rfl, rfl, rfl, rfl, rfl, rfl, rfl, rfl⟩

theorem trans {a b c : NetEstimate F} (first : SameRings a b) (second : SameRings b c) : SameRings a c where
  sentTime := second.sentTime.trans first.sentTime
  sentSequence := second.sentSequence.trans first.sentSequence
  lastAckedSequence := second.lastAckedSequence.trans first.lastAckedSequence
  packetTime := second.packetTime.trans first.packetTime
  packetCmds := second.packetCmds.trans first.packetCmds
  packetIndex := second.packetIndex.trans first.packetIndex
  rttTime := second.rttTime.trans first.rttTime
  rttValue := second.rttValue.trans first.rttValue
  rttIndex := second.rttIndex.trans first.rttIndex
  snapshotInterval := second.snapshotInterval.trans first.snapshotInterval

end SameRings

theorem closeWindow_rings (svFps now : Int32) (status : ClientNetStatus F) :
    SameRings status.estimate (closeWindow floats simulateClient svFps now status).estimate := by
  obtain ⟨_, _, _, _, _, _, _, same, _⟩ := closeWindow_reopened floats simulateClient svFps now status
  rw [same]
  exact ⟨rfl, rfl, rfl, rfl, rfl, rfl, rfl, rfl, rfl, rfl⟩

theorem sampleNewest_rings (clock : ContinuousClock F) (lastUsercmd : Usercmd) (cmds : List Usercmd) (now : Int32)
    (e : NetEstimate F) : SameRings e (sampleNewest floats clock lastUsercmd cmds now e) := by
  simp only [sampleNewest, sampleFrame]
  repeat' split
  all_goals exact ⟨rfl, rfl, rfl, rfl, rfl, rfl, rfl, rfl, rfl, rfl⟩

/-- After its two samples, a packet leaves the rings as they are. -/
theorem packetReceived_rings (clock : ContinuousClock F) (svFps now : Int32) (cl : Client) (cmds : List Usercmd)
    (status : ClientNetStatus F) :
    SameRings
      (samplePacket (newCmds cl.lastUsercmd cmds) now (sampleRoundTrip cl.messageAcknowledge now status.estimate))
      (packetReceived floats simulateClient clock svFps now cl cmds status).estimate := by
  have newest := sampleNewest_rings floats clock cl.lastUsercmd cmds now
    (samplePacket (newCmds cl.lastUsercmd cmds) now (sampleRoundTrip cl.messageAcknowledge now status.estimate))
  simp only [packetReceived]
  split
  · exact newest
  · exact newest.trans (closeWindow_rings floats simulateClient svFps now { status with estimate := _ })

theorem snapshotSent_rtt (clock : ContinuousClock F) (state : ClientState) (outgoingSequence svsTime now : Int32)
    (e : NetEstimate F) :
    let after := snapshotSent floats clock state outgoingSequence svsTime now e
    after.rttTime = e.rttTime ∧ after.rttValue = e.rttValue ∧ after.rttIndex = e.rttIndex := by
  simp only [snapshotSent]
  repeat' split
  all_goals exact ⟨rfl, rfl, rfl⟩

/-! ## Numbers of the code -/

theorem toInt_min (a b : Int32) : (min a b).toInt = min a.toInt b.toInt := by
  change (if a ≤ b then a else b).toInt = _
  by_cases le : a ≤ b
  · rw [if_pos le, min_eq_left (Int32.le_iff_toInt_le.mp le)]
  · rw [if_neg le, min_eq_right]
    rw [Int32.le_iff_toInt_le] at le
    omega

theorem toInt_max (a b : Int32) : (max a b).toInt = max a.toInt b.toInt := by
  change (if a ≤ b then b else a).toInt = _
  by_cases le : a ≤ b
  · rw [if_pos le, max_eq_right (Int32.le_iff_toInt_le.mp le)]
  · rw [if_neg le, max_eq_left]
    rw [Int32.le_iff_toInt_le] at le
    omega

/-! ## The round trips of a run -/

/-- An `int` that is an index of an array of `size` elements. -/
def InRing (size i : Int32) : Prop := 0 ≤ i.toInt ∧ i.toInt < size.toInt

theorem InRing.index_lt {size i : Int32} (inside : InRing size i) : index i < index size := by
  obtain ⟨lower, upper⟩ := inside
  unfold index
  omega

theorem InRing.zero {size : Int32} (positive : 0 < size.toInt) : InRing size 0 := ⟨le_refl 0, positive⟩

/-- `(i + 1) % size`, of an index. -/
theorem InRing.next {size i : Int32} (inside : InRing size i) (small : size.toInt < 2 ^ 31 - 1) :
    InRing size ((i + 1) % size) ∧ index ((i + 1) % size) = (index i + 1) % index size := by
  obtain ⟨lower, upper⟩ := inside
  have one : (1 : Int32).toInt = 1 := rfl
  have succ : (i + 1).toInt = i.toInt + 1 := by
    rw [Int32.toInt_add, one, Int.bmod_eq_of_le (by omega) (by omega)]
  have value : ((i + 1) % size).toInt = (i.toInt + 1) % size.toInt := by
    rw [Int32.toInt_mod, succ, Int.tmod_eq_emod_of_nonneg (by omega)]
  refine ⟨⟨?_, ?_⟩, ?_⟩
  · rw [value]
    exact Int.emod_nonneg _ (by omega)
  · rw [value]
    exact Int.emod_lt_of_pos _ (by omega)
  · unfold index
    rw [value, Int.toNat_emod (by omega) (by omega), Int.toNat_add lower (by decide)]
    rfl

/-- The round trip that a packet samples. -/
def sampled (ack now : Int32) (e : NetEstimate F) : Option RoundTrip :=
  let rtt := now - e.sentTime (slotOf ack)
  if e.sentSequence (slotOf ack) = ack ∧ e.lastAckedSequence ≠ ack ∧ 0 ≤ rtt ∧ rtt ≤ 2000 then some (now, rtt) else none

/-- The ring of round trips, where a history was written in it. -/
structure RttRing (history : List RoundTrip) (e : NetEstimate F) : Prop where
  inside : InRing NetEstimate.rttSamples e.rttIndex
  shows : RingBuffer.Shows 64 (0, 0) history (index e.rttIndex) fun i => (e.rttTime i, e.rttValue i)

/-- The two arrays of a ring are written at one place. -/
theorem update_pair (a b : ℕ → Int32) (i : ℕ) (value : Int32 × Int32) :
    (fun j => (Function.update a i value.1 j, Function.update b i value.2 j)) =
      Function.update (fun j => (a j, b j)) i value := by
  funext j
  by_cases same : j = i
  · subst same
    simp only [Function.update_self]
  · simp only [Function.update_of_ne same]

theorem sampleRoundTrip_none {ack now : Int32} {e : NetEstimate F} (missed : sampled ack now e = none) :
    (sampleRoundTrip ack now e).rttTime = e.rttTime ∧ (sampleRoundTrip ack now e).rttValue = e.rttValue ∧
      (sampleRoundTrip ack now e).rttIndex = e.rttIndex := by
  simp only [sampled, slotOf] at missed
  simp only [sampleRoundTrip]
  split
  · split
    · simp_all
    · exact ⟨rfl, rfl, rfl⟩
  · exact ⟨rfl, rfl, rfl⟩

theorem sampleRoundTrip_some {ack now : Int32} {e : NetEstimate F} {value : RoundTrip}
    (taken : sampled ack now e = some value) :
    (sampleRoundTrip ack now e).rttTime = Function.update e.rttTime (index e.rttIndex) value.1 ∧
      (sampleRoundTrip ack now e).rttValue = Function.update e.rttValue (index e.rttIndex) value.2 ∧
      (sampleRoundTrip ack now e).rttIndex = (e.rttIndex + 1) % NetEstimate.rttSamples := by
  unfold sampled at taken
  extract_lets rtt at taken
  rw [Option.ite_none_right_eq_some] at taken
  obtain ⟨⟨held, fresh, lower, upper⟩, same⟩ := taken
  obtain rfl := Option.some.inj same
  have holds : e.sentSequence (index (ack &&& 31)) = ack ∧ e.lastAckedSequence ≠ ack := ⟨held, fresh⟩
  have bounds : 0 ≤ now - e.sentTime (index (ack &&& 31)) ∧ now - e.sentTime (index (ack &&& 31)) ≤ 2000 :=
    ⟨lower, upper⟩
  simp only [sampleRoundTrip, if_pos holds, if_pos bounds]
  exact ⟨trivial, rfl, trivial⟩

/-- A packet puts its sample, if any, in the ring, and that is what the ring gains. -/
theorem sampleRoundTrip_ring {history : List RoundTrip} {e : NetEstimate F} (ring : RttRing history e)
    (ack now : Int32) :
    RttRing ((sampled ack now e).toList ++ history) (sampleRoundTrip ack now e) ∧
      gained e (sampleRoundTrip ack now e) = sampled ack now e := by
  cases taken : sampled ack now e with
  | none =>
    obtain ⟨times, values, place⟩ := sampleRoundTrip_none taken
    refine ⟨⟨?_, ?_⟩, ?_⟩
    · rw [place]
      exact ring.inside
    · rw [times, values, place]
      exact ring.shows
    · rw [gained, if_pos place]
  | some value =>
    obtain ⟨times, values, place⟩ := sampleRoundTrip_some taken
    obtain ⟨inside, next⟩ := ring.inside.next (by decide)
    refine ⟨⟨?_, ?_⟩, ?_⟩
    · rw [place]
      exact inside
    · rw [times, values, place, next, update_pair]
      exact ring.shows.push value
    · have moves : (index e.rttIndex + 1) % 64 ≠ index e.rttIndex := by
        have bound := ring.shows.next_lt
        omega
      have other : (sampleRoundTrip ack now e).rttIndex ≠ e.rttIndex := by
        intro same
        rw [place] at same
        rw [same] at next
        exact moves next.symm
      rw [gained, if_neg other, times, values, Function.update_self, Function.update_self]

theorem RttRing.of_same {history : List RoundTrip} {a b : NetEstimate F} (ring : RttRing history a)
    (times : b.rttTime = a.rttTime) (values : b.rttValue = a.rttValue) (place : b.rttIndex = a.rttIndex) :
    RttRing history b := by
  refine ⟨?_, ?_⟩
  · rw [place]
    exact ring.inside
  · rw [times, values, place]
    exact ring.shows

theorem gained_of_same {e a b : NetEstimate F} (times : b.rttTime = a.rttTime) (values : b.rttValue = a.rttValue)
    (place : b.rttIndex = a.rttIndex) : gained e b = gained e a := by
  rw [gained, gained, times, values, place]

/-- The round trips that a run recorded, the newest first. -/
def recorded (run : List (NetEvent F × Option RoundTrip)) : List RoundTrip := (run.filterMap Prod.snd).reverse

theorem recorded_concat (run : List (NetEvent F × Option RoundTrip)) (entry : NetEvent F × Option RoundTrip) :
    recorded (run ++ [entry]) = entry.2.toList ++ recorded run := by
  rw [recorded, recorded, List.filterMap_append, List.reverse_append]
  cases answer : entry.2 <;> simp [answer]

theorem netStep_rtt {history : List RoundTrip} {status : ClientNetStatus F} (ring : RttRing history status.estimate)
    (event : NetEvent F) :
    RttRing ((netStep floats simulateClient status event).1.toList ++ history)
      (netStep floats simulateClient status event).2.estimate := by
  cases event with
  | sent clock message =>
    obtain ⟨times, values, place⟩ := snapshotSent_rtt floats clock message.state message.outgoingSequence
      message.svsTime message.now status.estimate
    have none : (netStep floats simulateClient status (.sent clock message)).1 = none := if_pos place
    rw [none]
    exact ring.of_same times values place
  | received clock packet =>
    have rings := packetReceived_rings floats simulateClient clock packet.svFps packet.now packet.cl packet.cmds status
    obtain ⟨pushed, gains⟩ := sampleRoundTrip_ring ring packet.cl.messageAcknowledge packet.now
    have answer := (gained_of_same (e := status.estimate) rings.rttTime rings.rttValue rings.rttIndex).trans gains
    have kept := pushed.of_same rings.rttTime rings.rttValue rings.rttIndex
    rw [← answer] at kept
    exact kept

/-- After a run the ring holds the round trips that it recorded. -/
theorem netRun_rtt (events : List (NetEvent F)) :
    RttRing (recorded (netTrace floats simulateClient events)) (netRun floats simulateClient events).estimate := by
  have fresh : RttRing [] (zeroed floats).estimate :=
    ⟨.zero (by decide), RingBuffer.Shows.fresh (by decide) (0, 0)⟩
  have kept := trace_keeps (netStep floats simulateClient)
    (fun past status => RttRing (recorded past) status.estimate)
    (fun past status event ring => by
      rw [recorded_concat]
      exact netStep_rtt floats simulateClient ring event)
    [] (zeroed floats) events fresh
  rwa [List.nil_append] at kept

/-! ## The packets of a run -/

/-- The packets of a run, each with its time and the usercmds that it counts, the newest first. -/
def packets (events : List (NetEvent F)) : List (Int32 × Int32) :=
  (events.filterMap fun event => match event with
    | .sent _ _ => none
    | .received _ packet => some (packet.now, newCmds packet.cl.lastUsercmd packet.cmds)).reverse

/-- The ring of packets, where a history was written in it. -/
structure PacketRing (history : List (Int32 × Int32)) (e : NetEstimate F) : Prop where
  inside : InRing NetEstimate.packetSamples e.packetIndex
  shows : RingBuffer.Shows 1024 (0, 0) history (index e.packetIndex) fun i => (e.packetTime i, e.packetCmds i)

theorem PacketRing.of_same {history : List (Int32 × Int32)} {a b : NetEstimate F} (ring : PacketRing history a)
    (times : b.packetTime = a.packetTime) (counts : b.packetCmds = a.packetCmds)
    (place : b.packetIndex = a.packetIndex) : PacketRing history b := by
  refine ⟨?_, ?_⟩
  · rw [place]
    exact ring.inside
  · rw [times, counts, place]
    exact ring.shows

theorem sampleRoundTrip_packetTime (ack now : Int32) (e : NetEstimate F) :
    (sampleRoundTrip ack now e).packetTime = e.packetTime := by
  simp only [sampleRoundTrip]
  repeat' split
  all_goals rfl

theorem samplePacket_ring {history : List (Int32 × Int32)} {e : NetEstimate F} (ring : PacketRing history e)
    (cmds now : Int32) : PacketRing ((now, cmds) :: history) (samplePacket cmds now e) := by
  obtain ⟨inside, next⟩ := ring.inside.next (by decide)
  refine ⟨inside, ?_⟩
  simp only [samplePacket]
  rw [next, update_pair _ _ _ (now, cmds)]
  exact ring.shows.push (now, cmds)

theorem snapshotSent_packets (clock : ContinuousClock F) (state : ClientState)
    (outgoingSequence svsTime now : Int32) (e : NetEstimate F) :
    let after := snapshotSent floats clock state outgoingSequence svsTime now e
    after.packetTime = e.packetTime ∧ after.packetCmds = e.packetCmds ∧ after.packetIndex = e.packetIndex := by
  simp only [snapshotSent]
  repeat' split
  all_goals exact ⟨rfl, rfl, rfl⟩

theorem netRun_concat (events : List (NetEvent F)) (event : NetEvent F) :
    netRun floats simulateClient (events ++ [event]) =
      (netStep floats simulateClient (netRun floats simulateClient events) event).2 :=
  final_concat _ _ events event

/-- After a run the ring holds its packets. -/
theorem netRun_packets (events : List (NetEvent F)) :
    PacketRing (packets events) (netRun floats simulateClient events).estimate := by
  induction events using List.reverseRecOn with
  | nil => exact ⟨.zero (by decide), RingBuffer.Shows.fresh (by decide) (0, 0)⟩
  | append_singleton events event ring =>
    rw [netRun_concat, packets, List.filterMap_append, List.reverse_append]
    cases event with
    | sent clock message =>
      obtain ⟨times, counts, place⟩ := snapshotSent_packets floats clock message.state message.outgoingSequence
        message.svsTime message.now (netRun floats simulateClient events).estimate
      exact ring.of_same times counts place
    | received clock packet =>
      have rings := packetReceived_rings floats simulateClient clock packet.svFps packet.now packet.cl packet.cmds
        (netRun floats simulateClient events)
      obtain ⟨counts, place⟩ := sampleRoundTrip_packets packet.cl.messageAcknowledge packet.now
        (netRun floats simulateClient events).estimate
      have before := ring.of_same (sampleRoundTrip_packetTime packet.cl.messageAcknowledge packet.now _) counts place
      exact (samplePacket_ring before _ _).of_same rings.packetTime rings.packetCmds rings.packetIndex

end YbeProxy.NetRuns
