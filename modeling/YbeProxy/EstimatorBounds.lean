import YbeProxy.Binary32
import YbeProxy.NetPing
import YbeProxy.PacketCounts

/-!
# The bounds of the estimator

`SnapshotSent` and `PacketReceived` once more, with a check of every access of an array, of every divisor, and of what is
estimated and simulated. One invariant of the counters, over all the runs of a client, lets every check pass: the checked
run is the run of `NetRuns`.
-/

namespace YbeProxy.EstimatorBounds
open YbeProxy.ClientMessage YbeProxy.UsercmdOrder YbeProxy.NetStatus YbeProxy.NetRuns YbeProxy.RoundTrips
open YbeProxy.Windows YbeProxy.NetPing YbeProxy.Rounding YbeProxy.Binary32 YbeProxy.Runs

/-! ## The checked calls -/

instance (size i : Int32) : Decidable (InRing size i) := inferInstanceAs (Decidable (_ ∧ _))

/-- An element of an array of this size. -/
def read (size : Int32) (array : ℕ → Int32) (i : Int32) : Option Int32 :=
  if InRing size i then some (array (index i)) else none

def write (size : Int32) (array : ℕ → Int32) (i value : Int32) : Option (ℕ → Int32) :=
  if InRing size i then some (Function.update array (index i) value) else none

def divide (dividend divisor : ℚ) : Option ℚ := if divisor = 0 then none else some (binary32.div dividend divisor)

def divideInt (dividend divisor : Int32) : Option Int32 := if divisor = 0 then none else some (dividend / divisor)

def checkedSnapshotSent (clock : ContinuousClock ℚ) (message : Message) (e : NetEstimate ℚ) : Option (NetEstimate ℚ) := do
  let slot := message.outgoingSequence &&& 31
  let sentTime ← write 32 e.sentTime slot message.now
  let sentSequence ← write 32 e.sentSequence slot message.outgoingSequence
  let e := { e with sentTime, sentSequence }
  if message.state = .csActive then
    let interval := message.now - e.lastSnapshotTime
    let snapshotInterval ←
      if e.lastSnapshotTime ≠ 0 ∧ 0 < interval ∧ interval ≤ 1000 then
        (divide (binary32.sub (binary32.ofInt interval) e.snapshotInterval) (binary32.ofInt 8)).map
          (binary32.add e.snapshotInterval)
      else some e.snapshotInterval
    let e := { e with snapshotInterval, lastSnapshotTime := message.now }
    if clock.valid then
      some { e with
        lateSum := binary32.add e.lateSum (binary32.add (binary32.ofInt (message.now - message.svsTime)) clock.offset)
        lateCount := e.lateCount + 1 }
    else some e
  else some e

def checkedRoundTrip (ack now : Int32) (e : NetEstimate ℚ) : Option (NetEstimate ℚ) := do
  let slot := ack &&& 31
  let sentSequence ← read 32 e.sentSequence slot
  if sentSequence = ack ∧ e.lastAckedSequence ≠ ack then
    let sentTime ← read 32 e.sentTime slot
    let rtt := now - sentTime
    let e := { e with lastAckedSequence := ack }
    if 0 ≤ rtt ∧ rtt ≤ 2000 then
      let rttTime ← write NetEstimate.rttSamples e.rttTime e.rttIndex now
      let rttValue ← write NetEstimate.rttSamples e.rttValue e.rttIndex rtt
      some { e with rttTime, rttValue, rttIndex := (e.rttIndex + 1) % NetEstimate.rttSamples }
    else some e
  else some e

def checkedPacket (newCmds now : Int32) (e : NetEstimate ℚ) : Option (NetEstimate ℚ) := do
  let packetTime ← write NetEstimate.packetSamples e.packetTime e.packetIndex now
  let packetCmds ← write NetEstimate.packetSamples e.packetCmds e.packetIndex newCmds
  some { e with packetTime, packetCmds, packetIndex := (e.packetIndex + 1) % NetEstimate.packetSamples }

def checkedFrame (newest : Usercmd) (cmds : List Usercmd) (e : NetEstimate ℚ) : Option (NetEstimate ℚ) := do
  let previous := if 2 ≤ cmds.length then (cmds.dropLast.getLastD .null).serverTime else e.lastCmdServerTime
  let frame := newest.serverTime - previous
  if previous ≠ 0 ∧ 1 ≤ frame ∧ frame ≤ 100 then
    let frameLag ← write NetEstimate.windowSamples e.frameLag e.lagCount frame
    some { e with frameLag, lagCount := e.lagCount + 1 }
  else some e

def checkedNewest (clock : ContinuousClock ℚ) (lastUsercmd : Usercmd) (cmds : List Usercmd) (now : Int32)
    (e : NetEstimate ℚ) : Option (NetEstimate ℚ) := do
  if clock.valid ∧ 0 < cmds.length then
    let newest := cmds.getLastD .null
    let e ←
      if lastUsercmd.serverTime < newest.serverTime ∧ e.delayCount < NetEstimate.windowSamples then
        checkedFrame newest cmds { e with
          delaySum := binary32.add e.delaySum
            (binary32.sub (binary32.ofInt (newest.serverTime - now)) clock.offset)
          delayCount := e.delayCount + 1 }
      else some e
    some (if e.lastCmdServerTime < newest.serverTime then { e with lastCmdServerTime := newest.serverTime } else e)
  else some e

/-- The walk of `CountPackets` from some of its turns on, which ends at the first packet that is too old. -/
def checkedCount (e : NetEstimate ℚ) (now : Int32) : List ℕ → Int32 × Int32 → Option (Int32 × Int32)
  | [], counted => some counted
  | n :: turns, (packets, cmds) => do
    let i := (e.packetIndex - (.ofNat n + 1) + NetEstimate.packetSamples) % NetEstimate.packetSamples
    let packetTime ← read NetEstimate.packetSamples e.packetTime i
    if packetTime ≠ 0 ∧ now - packetTime < 1000 then
      let packetCmds ← read NetEstimate.packetSamples e.packetCmds i
      checkedCount e now turns (packets + 1, cmds + packetCmds)
    else some (packets, cmds)

/-- The loop over the round trips, from some of its turns on. -/
def checkedTrips (e : NetEstimate ℚ) (now : Int32) : List ℕ → Int32 × Int32 × Int32 → Option (Int32 × Int32 × Int32)
  | [], tally => some tally
  | i :: turns, (rttMin, rttCount, rttSum) => do
    let rttTime ← read NetEstimate.rttSamples e.rttTime (.ofNat i)
    if rttTime ≠ 0 ∧ now - rttTime ≤ 4000 then
      let rttValue ← read NetEstimate.rttSamples e.rttValue (.ofNat i)
      checkedTrips e now turns
        (if rttMin < 0 ∨ rttValue < rttMin then rttValue else rttMin, rttCount + 1, rttSum + rttValue)
    else checkedTrips e now turns (rttMin, rttCount, rttSum)

/-- `std::nth_element` gets a range inside the array, with an element of it, which is read then. -/
def checkedFrameMs (e : NetEstimate ℚ) : Option Int32 := do
  guard (0 ≤ e.lagCount ∧ e.lagCount ≤ NetEstimate.windowSamples)
  guard (InRing e.lagCount (e.lagCount / 2))
  some (frameMs e)

/-- The lateness of the messages of a window. -/
def checkedLate (e : NetEstimate ℚ) : Option ℚ :=
  if e.lateCount ≠ 0 then divide e.lateSum (binary32.ofInt e.lateCount) else some (binary32.ofInt 0)

def checkedHold (packetsPerSecond : Int32) : Option ℚ :=
  if 0 < packetsPerSecond then divide (binary32.ofInt 500) (binary32.ofInt packetsPerSecond)
  else some (binary32.ofInt 0)

def checkedInterval (svFps : Int32) (e : NetEstimate ℚ) : Option Int32 :=
  if binary32.lt (binary32.ofInt 0) e.snapshotInterval then some (binary32.lround e.snapshotInterval)
  else divideInt 1000 (max svFps 1)

variable (simulateClient : Int32 → Int32 → Int32 → ℚ)

def checkedNudge (svFps now rttMin rttCount rttSum : Int32) (late : ℚ) (e : NetEstimate ℚ) (status : ClientNetStatus ℚ) :
    Option (ClientNetStatus ℚ) := do
  guard (1 ≤ e.lagCount ∧ 10 ≤ e.delayCount ∧ 1 ≤ rttCount)
  let frameMs ← checkedFrameMs e
  let (packetsPerSecond, cmdsPerSecond) ← checkedCount e now (List.range NetEstimate.packetSamples.toInt.toNat) (0, 0)
  let hold ← checkedHold packetsPerSecond
  let average ← divide (binary32.ofInt rttSum) (binary32.ofInt rttCount)
  let mean := binary32.sub average hold
  let roundTrip := if binary32.lt (binary32.ofInt rttMin) mean then mean else binary32.ofInt rttMin
  let interval := max 1 (← checkedInterval svFps e)
  let after := restarted binary32 now e
  if 100 ≤ interval + 5 then
    some { status with
      estimate := { after with historyIndex := 0, historyFilled := false }
      timenudgeKnown := false }
  else
    let cmdsPerPacket ← divide (binary32.ofInt cmdsPerSecond) (binary32.ofInt (max packetsPerSecond 1))
    let framesPerPacket := max 1 (binary32.lround cmdsPerPacket)
    guard ((1 ≤ interval ∧ interval ≤ 94) ∧ (1 ≤ frameMs ∧ frameMs ≤ 100) ∧ 1 ≤ framesPerPacket)
    let after :=
      if interval ≠ e.simInterval ∨ frameMs ≠ e.simFrameMs ∨ framesPerPacket ≠ e.simFramesPerPacket then
        { after with
          simInterval := interval
          simFrameMs := frameMs
          simFramesPerPacket := framesPerPacket
          simulated := simulateClient interval frameMs framesPerPacket }
      else after
    let delay ← divide e.delaySum (binary32.ofInt e.delayCount)
    let estimate := binary32.neg (binary32.sub (binary32.add (binary32.add delay roundTrip) late) after.simulated)
    let nudge := max (-100) (min 100 (binary32.lround estimate))
    let history ← write 3 e.history e.historyIndex nudge
    let historyIndex := (e.historyIndex + 1) % 3
    let historyFilled := e.historyFilled || historyIndex = 0
    some { status with
      estimate := { after with history, historyIndex, historyFilled }
      timenudge := if historyFilled then median3 (history 0) (history 1) (history 2) else nudge
      timenudgeKnown := true }

def checkedWindow (svFps now : Int32) (status : ClientNetStatus ℚ) : Option (ClientNetStatus ℚ) := do
  let e := status.estimate
  let (rttMin, rttCount, rttSum) ← checkedTrips e now (List.range NetEstimate.rttSamples.toInt.toNat) (-1, 0, 0)
  let status := if 0 ≤ rttMin then { status with netPing := rttMin } else status
  let late ← checkedLate e
  if e.delayCount < 10 ∨ rttMin < 0 ∨ e.lagCount = 0 then some { status with estimate := restarted binary32 now e }
  else checkedNudge simulateClient svFps now rttMin rttCount rttSum late e status

def checkedPacketReceived (clock : ContinuousClock ℚ) (packet : Packet) (status : ClientNetStatus ℚ) :
    Option (ClientNetStatus ℚ) := do
  let e ← checkedRoundTrip packet.ack packet.now status.estimate
  let e ← checkedPacket (newCmds packet.cl.lastUsercmd packet.cmds) packet.now e
  let e ← checkedNewest clock packet.cl.lastUsercmd packet.cmds packet.now e
  let status := { status with estimate := e }
  if packet.now - e.windowStart < 1000 then some status else checkedWindow simulateClient packet.svFps packet.now status

def checkedStep (status : ClientNetStatus ℚ) : NetEvent ℚ → Option (ClientNetStatus ℚ)
  | .sent clock message => do
    let estimate ← checkedSnapshotSent clock message status.estimate
    some { status with estimate }
  | .received clock packet => checkedPacketReceived simulateClient clock packet status

/-- A run in which the first access outside an array, division by zero or unfit simulation is the end. -/
def checkedRun (events : List (NetEvent ℚ)) : Option (ClientNetStatus ℚ) :=
  events.foldlM (checkedStep simulateClient) (zeroed binary32)

/-! ## In range -/

/-- What the rings and the messages keep. -/
structure Rings (e : NetEstimate ℚ) : Prop where
  trips : ∃ history, RttRing history e ∧ ∀ trip ∈ history, 0 ≤ trip.2.toInt
  packets : InRing NetEstimate.packetSamples e.packetIndex
  interval : 0 ≤ e.snapshotInterval ∧ e.snapshotInterval ≤ 1000

/-- What the counters of the window keep, which are advanced apart and reset together. -/
structure Counters (e : NetEstimate ℚ) : Prop where
  lag_nonneg : 0 ≤ e.lagCount.toInt
  lag_le : e.lagCount.toInt ≤ e.delayCount.toInt
  delay_le : e.delayCount.toInt ≤ 128
  frames : ∀ i < index e.lagCount, 1 ≤ (e.frameLag i).toInt ∧ (e.frameLag i).toInt ≤ 100
  history : InRing 3 e.historyIndex

theorem Rings.of_same {a b : NetEstimate ℚ} (rings : Rings a) (same : SameRings a b) : Rings b where
  trips := by
    obtain ⟨history, ring, valid⟩ := rings.trips
    exact ⟨history, ring.of_same same.rttTime same.rttValue same.rttIndex, valid⟩
  packets := by
    rw [same.packetIndex]
    exact rings.packets
  interval := by
    rw [same.snapshotInterval]
    exact rings.interval

theorem ofInt_ne_zero {divisor : Int32} (nonzero : divisor ≠ 0) : binary32.ofInt divisor ≠ 0 := by
  change single divisor.toInt ≠ 0
  have other : divisor.toInt ≠ 0 := fun zero => nonzero (Int32.toInt_inj.mp zero)
  rcases other.lt_or_gt with negative | positive
  · have bound := single_pos (neg_pos.mpr negative)
    rw [Int.cast_neg, single_neg] at bound
    linarith
  · have bound := single_pos positive
    linarith

theorem mask_inRing (x : Int32) : InRing 32 (x &&& 31) := by
  have bits : (x &&& 31).toBitVec.toNat ≤ 31 := by
    rw [Int32.toBitVec_and, BitVec.toNat_and]
    exact Nat.and_le_right
  have value : (x &&& 31).toInt = (x &&& 31).toBitVec.toNat := by
    rw [← Int32.toInt_toBitVec, BitVec.toInt_eq_toNat_of_lt (by omega)]
  rw [InRing, value, show (32 : Int32).toInt = 32 from rfl]
  omega

/-! ## The interval of the snapshots -/

/-- A rounding stays between zero and twice the number. -/
theorem single_between (x : ℚ) : (0 ≤ x → 0 ≤ single x ∧ single x ≤ 2 * x) ∧ (x ≤ 0 → 2 * x ≤ single x ∧ single x ≤ 0) := by
  have near : |single x - x| ≤ |x| := abs_round_sub_le 23 (-149) x
  constructor
  · intro nonneg
    rw [abs_of_nonneg nonneg, abs_le] at near
    constructor <;> linarith
  · intro nonpos
    rw [abs_of_nonpos nonpos, abs_le] at near
    constructor <;> linarith

/-- The average of the intervals stays in the range of the intervals that it takes. -/
theorem average_mem {average : ℚ} (lower : 0 ≤ average) (upper : average ≤ 1000) {interval : Int32}
    (positive : 0 < interval.toInt) (short : interval.toInt ≤ 1000) :
    0 ≤ binary32.add average
        (binary32.div (binary32.sub (binary32.ofInt interval) average) (binary32.ofInt 8)) ∧
      binary32.add average
        (binary32.div (binary32.sub (binary32.ofInt interval) average) (binary32.ofInt 8)) ≤ 1000 := by
  have whole : single interval.toInt = interval.toInt := single_intCast (by rw [abs_le]; constructor <;> omega)
  have eight : single (8 : Int32).toInt = 8 := by
    rw [show (8 : Int32).toInt = 8 from rfl, single_intCast (by norm_num)]
    norm_num
  change 0 ≤ single (average + single (single (single interval.toInt - average) / single (8 : Int32).toInt)) ∧
    single (average + single (single (single interval.toInt - average) / single (8 : Int32).toInt)) ≤ 1000
  rw [whole, eight]
  have least : (0 : ℚ) < interval.toInt := by exact_mod_cast positive
  have most : (interval.toInt : ℚ) ≤ 1000 := by exact_mod_cast short
  -- An eighth of the difference, rounded twice, is less than the difference itself.
  obtain ⟨up, down⟩ := single_between (interval.toInt - average)
  obtain ⟨up', down'⟩ := single_between (single (interval.toInt - average) / 8)
  have bounds : 0 ≤ average + single (single (interval.toInt - average) / 8) ∧
      average + single (single (interval.toInt - average) / 8) ≤ (1000 : ℤ) := by
    push_cast
    rcases le_total 0 ((interval.toInt : ℚ) - average) with rising | falling
    · obtain ⟨y, y'⟩ := up rising
      obtain ⟨z, z'⟩ := up' (by linarith)
      constructor <;> linarith
    · obtain ⟨y, y'⟩ := down falling
      obtain ⟨z, z'⟩ := down' (by linarith)
      constructor <;> linarith
  exact ⟨single_between _ |>.1 bounds.1 |>.1, by exact_mod_cast single_le (n := 1000) (by norm_num) bounds.2⟩

/-! ## Every call keeps the range -/

theorem zeroed_rings : Rings (zeroed binary32).estimate where
  trips := ⟨[], netRun_rtt binary32 (fun _ _ _ => 0) [], by simp⟩
  packets := .zero (by decide)
  interval := by
    change 0 ≤ single (0 : Int32).toInt ∧ single (0 : Int32).toInt ≤ 1000
    rw [show (0 : Int32).toInt = 0 from rfl, single_intCast (by norm_num)]
    norm_num

theorem zeroed_counters : Counters (zeroed binary32).estimate where
  lag_nonneg := le_refl 0
  lag_le := le_refl 0
  delay_le := by decide +revert
  frames i inside := absurd inside (Nat.not_lt_zero i)
  history := .zero (by decide)

theorem snapshotSent_rings {e : NetEstimate ℚ} (rings : Rings e) (clock : ContinuousClock ℚ) (message : Message) :
    Rings (snapshotSent binary32 clock message.state message.outgoingSequence message.svsTime message.now e) := by
  obtain ⟨times, values, place⟩ := snapshotSent_rtt binary32 clock message.state message.outgoingSequence
    message.svsTime message.now e
  obtain ⟨_, _, next⟩ := snapshotSent_packets binary32 clock message.state message.outgoingSequence message.svsTime
    message.now e
  obtain ⟨history, ring, valid⟩ := rings.trips
  refine ⟨⟨history, ring.of_same times values place, valid⟩, ?_, ?_⟩
  · rw [next]
    exact rings.packets
  · obtain ⟨lower, upper⟩ := rings.interval
    by_cases timed : e.lastSnapshotTime ≠ 0 ∧ 0 < message.now - e.lastSnapshotTime ∧
        message.now - e.lastSnapshotTime ≤ 1000
    · have average := average_mem lower upper (Int32.lt_iff_toInt_lt.mp timed.2.1) (Int32.le_iff_toInt_le.mp timed.2.2)
      simp only [snapshotSent, if_pos timed]
      repeat' split
      all_goals first | exact average | exact rings.interval
    · simp only [snapshotSent, if_neg timed]
      repeat' split
      all_goals exact rings.interval

theorem snapshotSent_counters {e : NetEstimate ℚ} (counters : Counters e) (clock : ContinuousClock ℚ)
    (message : Message) :
    Counters (snapshotSent binary32 clock message.state message.outgoingSequence message.svsTime message.now e) := by
  simp only [snapshotSent]
  repeat' split
  all_goals exact { counters with }

theorem sampleRoundTrip_rings {e : NetEstimate ℚ} (rings : Rings e) (ack now : Int32) :
    Rings (sampleRoundTrip ack now e) := by
  obtain ⟨history, ring, valid⟩ := rings.trips
  refine ⟨⟨(sampled ack now e).toList ++ history, (sampleRoundTrip_ring ring ack now).1, ?_⟩, ?_, ?_⟩
  · intro trip member
    rcases List.mem_append.mp member with new | old
    · rw [Option.mem_toList] at new
      obtain ⟨⟨_, _, lower, _⟩, same⟩ := Option.ite_none_right_eq_some.mp new
      obtain rfl := Option.some.inj same
      exact Int32.le_iff_toInt_le.mp lower
    · exact valid trip old
  · rw [(sampleRoundTrip_packets ack now e).2]
    exact rings.packets
  · have kept : (sampleRoundTrip ack now e).snapshotInterval = e.snapshotInterval := by
      simp only [sampleRoundTrip]
      repeat' split
      all_goals rfl
    rw [kept]
    exact rings.interval

theorem samplePacket_rings {e : NetEstimate ℚ} (rings : Rings e) (count now : Int32) :
    Rings (samplePacket count now e) where
  trips := by
    obtain ⟨history, ring, valid⟩ := rings.trips
    exact ⟨history, ring.of_same rfl rfl rfl, valid⟩
  packets := (rings.packets.next (by decide)).1
  interval := rings.interval

theorem samplePacket_counters {e : NetEstimate ℚ} (counters : Counters e) (ack count now : Int32) :
    Counters (samplePacket count now (sampleRoundTrip ack now e)) := by
  simp only [samplePacket, sampleRoundTrip]
  repeat' split
  all_goals exact { counters with }

/-- The frame lag goes into a place below the count of the delays. -/
theorem sampleFrame_counters {e : NetEstimate ℚ} (counters : Counters e) (room : e.lagCount.toInt < e.delayCount.toInt)
    (newest : Usercmd) (cmds : List Usercmd) : Counters (sampleFrame newest cmds e) := by
  obtain ⟨nonneg, le, most, frames, history⟩ := counters
  have one : (1 : Int32).toInt = 1 := rfl
  have next : (e.lagCount + 1).toInt = e.lagCount.toInt + 1 := by
    rw [Int32.toInt_add, one, Int.bmod_eq_of_le (by omega) (by omega)]
  unfold sampleFrame
  extract_lets previous frame
  split
  · rename_i told
    obtain ⟨_, lower, upper⟩ := told
    refine ⟨?_, ?_, most, ?_, history⟩
    · change 0 ≤ (e.lagCount + 1).toInt
      omega
    · change (e.lagCount + 1).toInt ≤ e.delayCount.toInt
      omega
    · intro i inside
      change i < index (e.lagCount + 1) at inside
      change 1 ≤ (Function.update e.frameLag (index e.lagCount) frame i).toInt ∧
        (Function.update e.frameLag (index e.lagCount) frame i).toInt ≤ 100
      by_cases last : i = index e.lagCount
      · rw [last, Function.update_self]
        exact ⟨Int32.le_iff_toInt_le.mp lower, Int32.le_iff_toInt_le.mp upper⟩
      · rw [Function.update_of_ne last]
        apply frames
        unfold index at *
        omega
  · exact ⟨nonneg, le, most, frames, history⟩

/-- One more delay, and at most one more frame lag. -/
theorem delayed_counters {e : NetEstimate ℚ} (counters : Counters e)
    (few : e.delayCount < NetEstimate.windowSamples) (delaySum : ℚ) :
    Counters { e with delaySum, delayCount := e.delayCount + 1 } ∧
      e.lagCount.toInt < (e.delayCount + 1).toInt := by
  obtain ⟨nonneg, le, most, frames, history⟩ := counters
  have bound := Int32.lt_iff_toInt_lt.mp few
  rw [show NetEstimate.windowSamples.toInt = 128 from rfl] at bound
  have next : (e.delayCount + 1).toInt = e.delayCount.toInt + 1 := by
    rw [Int32.toInt_add, show (1 : Int32).toInt = 1 from rfl, Int.bmod_eq_of_le (by omega) (by omega)]
  refine ⟨⟨nonneg, ?_, ?_, frames, history⟩, ?_⟩
  · change e.lagCount.toInt ≤ (e.delayCount + 1).toInt
    omega
  · change (e.delayCount + 1).toInt ≤ 128
    omega
  · omega

theorem sampleNewest_counters {e : NetEstimate ℚ} (counters : Counters e) (clock : ContinuousClock ℚ)
    (lastUsercmd : Usercmd) (cmds : List Usercmd) (now : Int32) :
    Counters (sampleNewest binary32 clock lastUsercmd cmds now e) := by
  unfold sampleNewest
  split
  swap
  · exact counters
  extract_lets newest sampled
  have kept : Counters sampled := by
    unfold sampled
    split
    · rename_i fresh
      obtain ⟨more, room⟩ := delayed_counters counters fresh.2
        (binary32.add e.delaySum (binary32.sub (binary32.ofInt (newest.serverTime - now)) clock.offset))
      exact sampleFrame_counters more room newest cmds
    · exact counters
  split
  · exact { kept with }
  · exact kept

theorem Counters.of_empty {e : NetEstimate ℚ} (lag : e.lagCount = 0) (delay : e.delayCount = 0)
    (history : InRing 3 e.historyIndex) : Counters e where
  lag_nonneg := by
    rw [lag]
    exact le_refl 0
  lag_le := by rw [lag, delay]
  delay_le := by
    rw [delay]
    decide
  frames i inside := by
    rw [lag] at inside
    exact absurd inside (Nat.not_lt_zero i)
  history := history

theorem closeWindow_counters (svFps now : Int32) {status : ClientNetStatus ℚ} (counters : Counters status.estimate) :
    Counters (closeWindow binary32 simulateClient svFps now status).estimate := by
  obtain ⟨_, _, _, _, _, _, _, same, place⟩ := closeWindow_reopened binary32 simulateClient svFps now status
  rw [same]
  refine .of_empty rfl rfl ?_
  rcases place with kept | zero | next
  · rw [kept]
    exact counters.history
  · rw [zero]
    exact .zero (by decide)
  · rw [next]
    exact (counters.history.next (by decide)).1

/-! ## Every check passes -/

theorem read_inside {size i : Int32} (inside : InRing size i) (array : ℕ → Int32) :
    read size array i = some (array (index i)) := if_pos inside

theorem write_inside {size i : Int32} (inside : InRing size i) (array : ℕ → Int32) (value : Int32) :
    write size array i value = some (Function.update array (index i) value) := if_pos inside

theorem divide_ofInt {divisor : Int32} (nonzero : divisor ≠ 0) (dividend : ℚ) :
    divide dividend (binary32.ofInt divisor) = some (binary32.div dividend (binary32.ofInt divisor)) :=
  if_neg (ofInt_ne_zero nonzero)

theorem checkedSnapshotSent_eq (clock : ContinuousClock ℚ) (message : Message) (e : NetEstimate ℚ) :
    checkedSnapshotSent clock message e =
      some (snapshotSent binary32 clock message.state message.outgoingSequence message.svsTime message.now e) := by
  have inside := mask_inRing message.outgoingSequence
  simp only [checkedSnapshotSent, snapshotSent, write_inside inside, divide_ofInt (by decide : (8 : Int32) ≠ 0),
    Option.bind_eq_bind, Option.bind_some, Option.map_some]
  split
  · split
    all_goals split <;> rfl
  · rfl

theorem checkedRoundTrip_eq {e : NetEstimate ℚ} (rings : Rings e) (ack now : Int32) :
    checkedRoundTrip ack now e = some (sampleRoundTrip ack now e) := by
  obtain ⟨history, ring, _⟩ := rings.trips
  simp only [checkedRoundTrip, sampleRoundTrip, read_inside (mask_inRing ack), write_inside ring.inside,
    Option.bind_eq_bind, Option.bind_some]
  split
  · split <;> rfl
  · rfl

theorem checkedPacket_eq {e : NetEstimate ℚ} (rings : Rings e) (newCmds now : Int32) :
    checkedPacket newCmds now e = some (samplePacket newCmds now e) := by
  simp only [checkedPacket, write_inside rings.packets, Option.bind_eq_bind, Option.bind_some]
  rfl

theorem checkedFrame_eq {e : NetEstimate ℚ} (inside : InRing NetEstimate.windowSamples e.lagCount) (newest : Usercmd)
    (cmds : List Usercmd) : checkedFrame newest cmds e = some (sampleFrame newest cmds e) := by
  simp only [checkedFrame, sampleFrame, write_inside inside, Option.bind_eq_bind, Option.bind_some]
  generalize (if 2 ≤ cmds.length then (cmds.dropLast.getLastD .null).serverTime else e.lastCmdServerTime) = previous
  split <;> rfl

theorem checkedNewest_eq {e : NetEstimate ℚ} (counters : Counters e) (clock : ContinuousClock ℚ)
    (lastUsercmd : Usercmd) (cmds : List Usercmd) (now : Int32) :
    checkedNewest clock lastUsercmd cmds now e = some (sampleNewest binary32 clock lastUsercmd cmds now e) := by
  simp only [checkedNewest, sampleNewest]
  split
  swap
  · rfl
  split
  · rename_i room
    have bound := Int32.lt_iff_toInt_lt.mp room.2
    have inside : InRing NetEstimate.windowSamples e.lagCount := ⟨counters.lag_nonneg, counters.lag_le.trans_lt bound⟩
    have framed (delaySum : ℚ) := @checkedFrame_eq { e with delaySum, delayCount := e.delayCount + 1 } inside
    rw [framed]
    rfl
  · rfl

theorem checkedCount_eq (e : NetEstimate ℚ) (now : Int32) {turns : List ℕ}
    (inside : ∀ n ∈ turns, InRing NetEstimate.packetSamples
      ((e.packetIndex - (.ofNat n + 1) + NetEstimate.packetSamples) % NetEstimate.packetSamples))
    (counted : Int32 × Int32) :
    checkedCount e now turns counted =
      some (((turns.map fun n =>
        index ((e.packetIndex - (.ofNat n + 1) + NetEstimate.packetSamples) % NetEstimate.packetSamples)).takeWhile
          fun i => e.packetTime i ≠ 0 && now - e.packetTime i < 1000).foldl
            (fun (packets, cmds) i => (packets + 1, cmds + e.packetCmds i)) counted) := by
  induction turns generalizing counted with
  | nil => rfl
  | cons n turns hypothesis =>
    obtain ⟨first, later⟩ := List.forall_mem_cons.mp inside
    simp only [checkedCount, read_inside first, Option.bind_eq_bind, Option.bind_some, List.map_cons, List.takeWhile_cons]
    by_cases recent : e.packetTime (index ((e.packetIndex - (.ofNat n + 1) + NetEstimate.packetSamples) %
        NetEstimate.packetSamples)) ≠ 0 ∧ now - e.packetTime (index ((e.packetIndex - (.ofNat n + 1) +
          NetEstimate.packetSamples) % NetEstimate.packetSamples)) < 1000
    · rw [if_pos recent, hypothesis later, if_pos (by simpa using recent), List.foldl_cons]
    · rw [if_neg recent, if_neg (by simpa using recent), List.foldl_nil]

theorem checkedCount_packets {e : NetEstimate ℚ} (rings : Rings e) (now : Int32) :
    checkedCount e now (List.range NetEstimate.packetSamples.toInt.toNat) (0, 0) = some (countPackets e now) := by
  refine checkedCount_eq e now (fun n member => ?_) (0, 0)
  have young : n < 1024 := List.mem_range.mp member
  have value := PacketCounts.place_toInt rings.packets young
  have bound := RingBuffer.place_lt (index e.packetIndex) young
  have size : NetEstimate.packetSamples.toInt = 1024 := rfl
  constructor <;> omega

/-- The half of a count is one of its elements. -/
theorem half_inRing {count : Int32} (positive : 1 ≤ count.toInt) : InRing count (count / 2) := by
  have upper := Int32.toInt_lt count
  have half : (count / 2).toInt = count.toInt / 2 := by
    rw [Int32.toInt_div, show (2 : Int32).toInt = 2 from rfl, Int.tdiv_eq_ediv_of_nonneg (by omega),
      Int.bmod_eq_of_le (by omega) (by omega)]
  constructor
  · omega
  · omega

/-- The median of the frame lags is one of them. -/
theorem frameMs_mem {e : NetEstimate ℚ} (counters : Counters e) (positive : 1 ≤ e.lagCount.toInt) :
    1 ≤ (frameMs e).toInt ∧ (frameMs e).toInt ≤ 100 := by
  have inside := (half_inRing positive).index_lt
  have place : index (e.lagCount / 2) < (((List.range (index e.lagCount)).map e.frameLag).mergeSort (· ≤ ·)).length := by
    rwa [List.length_mergeSort, List.length_map, List.length_range]
  rw [frameMs, List.getD_eq_getElem _ _ place]
  obtain ⟨i, young, same⟩ := List.mem_map.mp (List.mem_mergeSort.mp (List.getElem_mem place))
  rw [← same]
  exact counters.frames i (List.mem_range.mp young)

theorem one_le_max (a : Int32) : 1 ≤ (max a 1).toInt := by
  rw [toInt_max, show (1 : Int32).toInt = 1 from rfl]
  omega

theorem one_le_max_one (a : Int32) : 1 ≤ (max 1 a).toInt := by
  rw [toInt_max, show (1 : Int32).toInt = 1 from rfl]
  omega

theorem ne_zero_of_pos {a : Int32} (positive : 1 ≤ a.toInt) : a ≠ 0 := by
  rintro rfl
  exact absurd positive (by decide)

theorem ne_zero_of_lt {a : Int32} (positive : 0 < a) : a ≠ 0 := by
  rintro rfl
  exact absurd positive (by decide)

theorem quotient_mem (divisor : Int32) : 0 ≤ (1000 / max divisor 1).toInt ∧ (1000 / max divisor 1).toInt ≤ 1000 := by
  have positive := one_le_max divisor
  have lower := Int.ediv_nonneg (a := 1000) (by omega) (by omega : 0 ≤ (max divisor 1).toInt)
  have upper := Int.ediv_le_self (a := 1000) (max divisor 1).toInt (by omega)
  have value : (1000 / max divisor 1).toInt = 1000 / (max divisor 1).toInt := by
    rw [Int32.toInt_div, show (1000 : Int32).toInt = 1000 from rfl, Int.tdiv_eq_ediv_of_nonneg (by omega),
      Int.bmod_eq_of_le (by omega) (by omega)]
  omega

/-- The interval of the snapshots that the estimate takes. -/
theorem interval_mem {e : NetEstimate ℚ} (rings : Rings e) (svFps : Int32) :
    let interval := max 1 (if binary32.lt (binary32.ofInt 0) e.snapshotInterval then binary32.lround e.snapshotInterval
      else 1000 / max svFps 1)
    1 ≤ interval.toInt ∧ interval.toInt ≤ 1000 := by
  obtain ⟨lower, upper⟩ := roundAway_mem rings.interval.1 (n := 1000) (by exact_mod_cast rings.interval.2)
  have rounded : (binary32.lround e.snapshotInterval).toInt = roundAway e.snapshotInterval :=
    Int32.toInt_ofInt_of_le (by omega) (by omega)
  have quotient := quotient_mem svFps
  intro interval
  have value : interval.toInt = max 1 (if binary32.lt (binary32.ofInt 0) e.snapshotInterval then
      binary32.lround e.snapshotInterval else 1000 / max svFps 1).toInt := toInt_max _ _
  rw [value]
  split <;> omega

theorem checkedTrips_eq (e : NetEstimate ℚ) (now : Int32) {turns : List ℕ} (inside : ∀ i ∈ turns, i < 64)
    (tally : Int32 × Int32 × Int32) :
    checkedTrips e now turns tally =
      some (((turns.filter (recentCell e now)).map e.rttValue).foldl tallyTrip tally) := by
  induction turns generalizing tally with
  | nil => rfl
  | cons i turns hypothesis =>
    obtain ⟨first, later⟩ := List.forall_mem_cons.mp inside
    have value : (Int32.ofNat i).toInt = i := Int32.toInt_ofNat_of_lt (by omega)
    have place : index (.ofNat i) = i := by rw [index, value, Int.toNat_natCast]
    have size : NetEstimate.rttSamples.toInt = 64 := rfl
    have slot : InRing NetEstimate.rttSamples (.ofNat i) := ⟨by omega, by omega⟩
    simp only [checkedTrips, read_inside slot, place, Option.bind_eq_bind, Option.bind_some, List.filter_cons, recentCell,
      decide_eq_true_eq]
    split
    · rw [hypothesis later, List.map_cons, List.foldl_cons]
      rfl
    · exact hypothesis later tally

theorem checkedTrips_recent (e : NetEstimate ℚ) (now : Int32) :
    checkedTrips e now (List.range NetEstimate.rttSamples.toInt.toNat) (-1, 0, 0) = some (recentRoundTrips e now) := by
  rw [recentRoundTrips_eq]
  exact checkedTrips_eq e now (fun i member => List.mem_range.mp member) (-1, 0, 0)

theorem checkedFrameMs_eq {e : NetEstimate ℚ} (counters : Counters e) (lags : 1 ≤ e.lagCount.toInt) :
    checkedFrameMs e = some (frameMs e) := by
  have most := counters.lag_le.trans counters.delay_le
  have room : 0 ≤ e.lagCount ∧ e.lagCount ≤ NetEstimate.windowSamples :=
    ⟨Int32.le_iff_toInt_le.mpr counters.lag_nonneg, Int32.le_iff_toInt_le.mpr most⟩
  rw [checkedFrameMs, guard, if_pos room, guard, if_pos (half_inRing lags)]
  rfl

theorem checkedLate_eq (e : NetEstimate ℚ) :
    checkedLate e =
      some (if e.lateCount ≠ 0 then binary32.div e.lateSum (binary32.ofInt e.lateCount) else binary32.ofInt 0) := by
  rw [checkedLate]
  split
  · rename_i some
    exact divide_ofInt some _
  · rfl

theorem checkedHold_eq (packetsPerSecond : Int32) :
    checkedHold packetsPerSecond =
      some (if 0 < packetsPerSecond then binary32.div (binary32.ofInt 500) (binary32.ofInt packetsPerSecond)
        else binary32.ofInt 0) := by
  rw [checkedHold]
  split
  · rename_i some
    exact divide_ofInt (ne_zero_of_lt some) _
  · rfl

theorem checkedInterval_eq (svFps : Int32) (e : NetEstimate ℚ) :
    checkedInterval svFps e =
      some (if binary32.lt (binary32.ofInt 0) e.snapshotInterval then binary32.lround e.snapshotInterval
        else 1000 / max svFps 1) := by
  rw [checkedInterval]
  split
  · rfl
  · exact if_neg (ne_zero_of_pos (one_le_max svFps))

theorem checkedNudge_eq {e : NetEstimate ℚ} (rings : Rings e) (counters : Counters e) (svFps now : Int32)
    {rttMin rttCount rttSum : Int32} (status : ClientNetStatus ℚ) (trips : 1 ≤ rttCount.toInt)
    (delays : 10 ≤ e.delayCount.toInt) (lags : 1 ≤ e.lagCount.toInt) :
    checkedNudge simulateClient svFps now rttMin rttCount rttSum
        (if e.lateCount ≠ 0 then binary32.div e.lateSum (binary32.ofInt e.lateCount) else binary32.ofInt 0) e status =
      some (estimateNudge binary32 simulateClient svFps now rttMin rttCount rttSum e status) := by
  have range := interval_mem rings svFps
  have frames := frameMs_mem counters lags
  have reached : 1 ≤ e.lagCount ∧ 10 ≤ e.delayCount ∧ 1 ≤ rttCount :=
    ⟨Int32.le_iff_toInt_le.mpr lags, Int32.le_iff_toInt_le.mpr delays, Int32.le_iff_toInt_le.mpr trips⟩
  have most (packetsPerSecond : Int32) := ne_zero_of_pos (one_le_max packetsPerSecond)
  have delayed : e.delayCount ≠ 0 := ne_zero_of_pos (by omega)
  have counted := checkedCount_packets rings now
  unfold checkedNudge estimateNudge
  generalize countPackets e now = pair at *
  obtain ⟨packetsPerSecond, cmdsPerSecond⟩ := pair
  simp -zeta only [guard, if_pos reached, checkedFrameMs_eq counters lags, counted, checkedHold_eq, checkedInterval_eq,
    divide_ofInt (ne_zero_of_pos trips), divide_ofInt (most _), divide_ofInt delayed, write_inside counters.history,
    Option.bind_eq_bind, Option.bind_some, Option.pure_def]
  extract_lets mean roundTrip interval after framesPerPacket later estimate nudge historyIndex historyFilled
  obtain ⟨positive, short⟩ : 1 ≤ interval.toInt ∧ interval.toInt ≤ 1000 := range
  have packets : 1 ≤ framesPerPacket.toInt := one_le_max_one _
  by_cases wide : 100 ≤ interval + 5
  · rw [if_pos wide, if_pos wide]
  · have narrow : interval.toInt ≤ 94 := by
      rw [Int32.le_iff_toInt_le, Int32.toInt_add, show (5 : Int32).toInt = 5 from rfl,
        show (100 : Int32).toInt = 100 from rfl, Int.bmod_eq_of_le (by omega) (by omega)] at wide
      omega
    have fit : (1 ≤ interval ∧ interval ≤ 94) ∧ (1 ≤ frameMs e ∧ frameMs e ≤ 100) ∧ 1 ≤ framesPerPacket := by
      simp only [Int32.le_iff_toInt_le]
      exact ⟨⟨positive, narrow⟩, frames, packets⟩
    rw [if_neg wide, if_neg wide, if_pos fit]
    rfl

theorem checkedWindow_eq {status : ClientNetStatus ℚ} (rings : Rings status.estimate) (counters : Counters status.estimate)
    (svFps now : Int32) :
    checkedWindow simulateClient svFps now status = some (closeWindow binary32 simulateClient svFps now status) := by
  obtain ⟨history, ring, valid⟩ := rings.trips
  have lengths : ∀ rtt ∈ recentTrips status.estimate now, 0 ≤ rtt.toInt := by
    intro rtt member
    obtain ⟨trip, newer, _, rfl⟩ := (mem_recentTrips ring now rtt).mp member
    exact valid trip (List.mem_of_mem_take newer)
  have least := recentRoundTrips_least status.estimate now lengths
  have count := recentRoundTrips_count status.estimate now
  simp only [checkedWindow, closeWindow, checkedTrips_recent, checkedLate_eq, Option.bind_eq_bind, Option.bind_some]
  generalize recentRoundTrips status.estimate now = told at *
  obtain ⟨rttMin, rttCount, rttSum⟩ := told
  by_cases few : status.estimate.delayCount < 10 ∨ rttMin < 0 ∨ status.estimate.lagCount = 0
  · rw [if_pos few, if_pos few]
  rw [if_neg few, if_neg few]
  simp only [not_or, Int32.not_lt] at few
  obtain ⟨delays, known, lags⟩ := few
  have positive := Int32.le_iff_toInt_le.mp known
  have nonempty : recentTrips status.estimate now ≠ [] := by
    rcases least with ⟨_, none⟩ | ⟨_, attained, _⟩
    · rw [(Prod.mk.inj none).1] at positive
      exact absurd positive (by decide)
    · exact List.ne_nil_of_mem attained
  have lag : status.estimate.lagCount.toInt ≠ 0 := fun zero => lags (Int32.toInt_inj.mp zero)
  have nonneg := counters.lag_nonneg
  exact checkedNudge_eq simulateClient rings counters svFps now _ (count nonempty)
    (Int32.le_iff_toInt_le.mp delays) (by omega)

/-! ## Over a run -/

theorem packetReceived_keeps (clock : ContinuousClock ℚ) (packet : Packet) {status : ClientNetStatus ℚ}
    (rings : Rings status.estimate) (counters : Counters status.estimate) :
    let after := packetReceived binary32 simulateClient clock packet.svFps packet.now packet.cl packet.cmds status
    Rings after.estimate ∧ Counters after.estimate := by
  have acked := sampleRoundTrip_rings rings packet.cl.messageAcknowledge packet.now
  have counted := samplePacket_rings acked (newCmds packet.cl.lastUsercmd packet.cmds) packet.now
  have sampled := sampleNewest_counters (samplePacket_counters counters packet.cl.messageAcknowledge
    (newCmds packet.cl.lastUsercmd packet.cmds) packet.now) clock packet.cl.lastUsercmd packet.cmds packet.now
  refine ⟨counted.of_same (packetReceived_rings binary32 simulateClient clock _ _ _ _ _), ?_⟩
  simp only [packetReceived]
  split
  · exact sampled
  · exact closeWindow_counters simulateClient packet.svFps packet.now sampled

theorem checkedPacketReceived_eq (clock : ContinuousClock ℚ) (packet : Packet) {status : ClientNetStatus ℚ}
    (rings : Rings status.estimate) (counters : Counters status.estimate) :
    checkedPacketReceived simulateClient clock packet status =
      some (packetReceived binary32 simulateClient clock packet.svFps packet.now packet.cl packet.cmds status) := by
  have acked := sampleRoundTrip_rings rings packet.ack packet.now
  have counted := samplePacket_rings acked (newCmds packet.cl.lastUsercmd packet.cmds) packet.now
  have kept := samplePacket_counters counters packet.ack (newCmds packet.cl.lastUsercmd packet.cmds) packet.now
  have sampled := counted.of_same (sampleNewest_rings binary32 clock packet.cl.lastUsercmd packet.cmds packet.now _)
  have bounded := sampleNewest_counters kept clock packet.cl.lastUsercmd packet.cmds packet.now
  simp only [checkedPacketReceived, checkedRoundTrip_eq rings, checkedPacket_eq acked, checkedNewest_eq kept,
    Option.bind_eq_bind, Option.bind_some]
  unfold packetReceived
  extract_lets e counts newest status'
  by_cases young : packet.now - newest.windowStart < 1000
  · rw [if_pos young]
    exact if_pos young
  · rw [if_neg young]
    exact (if_neg young).trans (checkedWindow_eq simulateClient sampled bounded packet.svFps packet.now)

theorem netRun_in_range (events : List (NetEvent ℚ)) :
    Rings (netRun binary32 simulateClient events).estimate ∧
      Counters (netRun binary32 simulateClient events).estimate := by
  induction events using List.reverseRecOn with
  | nil => exact ⟨zeroed_rings, zeroed_counters⟩
  | append_singleton events event hypothesis =>
    obtain ⟨rings, counters⟩ := hypothesis
    rw [netRun_concat]
    cases event with
    | sent clock message => exact ⟨snapshotSent_rings rings clock message, snapshotSent_counters counters clock message⟩
    | received clock packet => exact packetReceived_keeps simulateClient clock packet rings counters


theorem checkedStep_eq {status : ClientNetStatus ℚ} (rings : Rings status.estimate) (counters : Counters status.estimate)
    (event : NetEvent ℚ) :
    checkedStep simulateClient status event = some (netStep binary32 simulateClient status event).2 := by
  cases event with
  | sent clock message =>
    rw [checkedStep, checkedSnapshotSent_eq]
    rfl
  | received clock packet => exact checkedPacketReceived_eq simulateClient clock packet rings counters

theorem checkedRun_eq (events : List (NetEvent ℚ)) :
    checkedRun simulateClient events = some (netRun binary32 simulateClient events) := by
  induction events using List.reverseRecOn with
  | nil => rfl
  | append_singleton events event hypothesis =>
    obtain ⟨rings, counters⟩ := netRun_in_range simulateClient events
    rw [checkedRun] at hypothesis
    rw [checkedRun, List.foldlM_append, hypothesis, netRun_concat, Option.bind_eq_bind, Option.bind_some,
      List.foldlM_cons, checkedStep_eq simulateClient rings counters]
    rfl

/-- In every run of the calls every check passes, whatever the messages and the packets are: the checked run ends as the
run does, with the counters in range. -/
theorem estimator_in_range (events : List (NetEvent ℚ)) :
    checkedRun simulateClient events = some (netRun binary32 simulateClient events) ∧
      Counters (netRun binary32 simulateClient events).estimate :=
  ⟨checkedRun_eq simulateClient events, (netRun_in_range simulateClient events).2⟩

end YbeProxy.EstimatorBounds
