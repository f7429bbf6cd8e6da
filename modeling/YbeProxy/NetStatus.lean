import YbeProxy.UsercmdOrder

/-!
# Network estimates

`SnapshotSent` and `PacketReceived` of `Engine/NetStatus.cpp`: the samples that the messages of a client add to its
rings, and the window of one second that a packet may close. The `float` arithmetic and `SimulateClient` are parameters.
-/

namespace YbeProxy.NetStatus
open YbeProxy.ClientMessage YbeProxy.MessageSteps YbeProxy.Records YbeProxy.UsercmdOrder

/-- The `float` arithmetic that the estimates are made with; `lround` is `(int)std::lround`. -/
structure Floats (F : Type) where
  ofInt : Int32 → F
  add : F → F → F
  sub : F → F → F
  div : F → F → F
  neg : F → F
  lt : F → F → Bool
  lround : F → Int32

namespace NetEstimate

def rttSamples : Int32 := 64
def windowSamples : Int32 := 128
def packetSamples : Int32 := 1024

end NetEstimate

/-- `NetEstimate`. The arrays are told by their elements. -/
structure NetEstimate (F : Type) where
  sentTime : Nat → Int32
  sentSequence : Nat → Int32
  lastAckedSequence : Int32
  packetTime : Nat → Int32
  packetCmds : Nat → Int32
  packetIndex : Int32
  lastSnapshotTime : Int32
  snapshotInterval : F
  rttTime : Nat → Int32
  rttValue : Nat → Int32
  rttIndex : Int32
  delaySum : F
  delayCount : Int32
  lateSum : F
  lateCount : Int32
  frameLag : Nat → Int32
  lagCount : Int32
  lastCmdServerTime : Int32
  windowStart : Int32
  simInterval : Int32
  simFrameMs : Int32
  simFramesPerPacket : Int32
  simulated : F
  history : Nat → Int32
  historyIndex : Int32
  historyFilled : Bool

/-- `ClientNetStatus`. -/
structure ClientNetStatus (F : Type) where
  estimate : NetEstimate F
  netPing : Int32
  timenudge : Int32
  timenudgeKnown : Bool

/-- `continuousClock`. -/
structure ContinuousClock (F : Type) where
  offset : F
  valid : Bool

/-- The element of an array that an `int` names. -/
def index (i : Int32) : Nat := i.toInt.toNat

variable {F : Type} (floats : Floats F) (simulateClient : Int32 → Int32 → Int32 → F)

/-- `SnapshotSent`, for the message `outgoingSequence` of a client. -/
def snapshotSent (clock : ContinuousClock F) (state : ClientState) (outgoingSequence svsTime now : Int32)
    (e : NetEstimate F) : NetEstimate F :=
  let slot := index (outgoingSequence &&& 31)
  let e := { e with
    sentTime := Function.update e.sentTime slot now
    sentSequence := Function.update e.sentSequence slot outgoingSequence }
  -- Only the snapshots: the game state comes at another interval.
  if state = .csActive then
    let interval := now - e.lastSnapshotTime
    let e :=
      if e.lastSnapshotTime ≠ 0 ∧ 0 < interval ∧ interval ≤ 1000 then
        { e with
          snapshotInterval := floats.add e.snapshotInterval
            (floats.div (floats.sub (floats.ofInt interval) e.snapshotInterval) (floats.ofInt 8)) }
      else e
    let e := { e with lastSnapshotTime := now }
    if clock.valid then
      { e with
        lateSum := floats.add e.lateSum (floats.add (floats.ofInt (now - svsTime)) clock.offset)
        lateCount := e.lateCount + 1 }
    else e
  else e

/-! ## The samples of a packet -/

/-- The round trip, from the first packet that acknowledges a snapshot. -/
def sampleRoundTrip (ack now : Int32) (e : NetEstimate F) : NetEstimate F :=
  let slot := index (ack &&& 31)
  if e.sentSequence slot = ack ∧ e.lastAckedSequence ≠ ack then
    let rtt := now - e.sentTime slot
    let e := { e with lastAckedSequence := ack }
    if 0 ≤ rtt ∧ rtt ≤ 2000 then
      { e with
        rttTime := Function.update e.rttTime (index e.rttIndex) now
        rttValue := Function.update e.rttValue (index e.rttIndex) rtt
        rttIndex := (e.rttIndex + 1) % NetEstimate.rttSamples }
    else e
  else e

/-- The usercmds of a packet that are not behind its last one and newer than `lastUsercmd`, which stays as it is. -/
def newCmds (lastUsercmd : Usercmd) (cmds : List Usercmd) : Int32 :=
  cmds.foldl (fun newCmds cmd =>
    if cmd.serverTime ≤ (cmds.getLastD .null).serverTime ∧ lastUsercmd.serverTime < cmd.serverTime then newCmds + 1
    else newCmds) 0

def samplePacket (newCmds now : Int32) (e : NetEstimate F) : NetEstimate F :=
  { e with
    packetTime := Function.update e.packetTime (index e.packetIndex) now
    packetCmds := Function.update e.packetCmds (index e.packetIndex) newCmds
    packetIndex := (e.packetIndex + 1) % NetEstimate.packetSamples }

/-- The frame between the newest usercmd and the one before it. -/
def sampleFrame (newest : Usercmd) (cmds : List Usercmd) (e : NetEstimate F) : NetEstimate F :=
  let previous := if 2 ≤ cmds.length then (cmds.dropLast.getLastD .null).serverTime else e.lastCmdServerTime
  let frame := newest.serverTime - previous
  if previous ≠ 0 ∧ 1 ≤ frame ∧ frame ≤ 100 then
    { e with frameLag := Function.update e.frameLag (index e.lagCount) frame, lagCount := e.lagCount + 1 }
  else e

/-- The delay and the frame lag, from the newest usercmd only. -/
def sampleNewest (clock : ContinuousClock F) (lastUsercmd : Usercmd) (cmds : List Usercmd) (now : Int32)
    (e : NetEstimate F) : NetEstimate F :=
  if clock.valid ∧ 0 < cmds.length then
    let newest := cmds.getLastD .null
    let e :=
      if lastUsercmd.serverTime < newest.serverTime ∧ e.delayCount < NetEstimate.windowSamples then
        sampleFrame newest cmds { e with
          delaySum := floats.add e.delaySum (floats.sub (floats.ofInt (newest.serverTime - now)) clock.offset)
          delayCount := e.delayCount + 1 }
      else e
    if e.lastCmdServerTime < newest.serverTime then { e with lastCmdServerTime := newest.serverTime } else e
  else e

/-! ## The window of a second -/

/-- `CountPackets`: the packets and usercmds of the last second, walking back from the newest. -/
def countPackets (e : NetEstimate F) (now : Int32) : Int32 × Int32 :=
  let ring := (List.range NetEstimate.packetSamples.toInt.toNat).map fun n =>
    index ((e.packetIndex - (.ofNat n + 1) + NetEstimate.packetSamples) % NetEstimate.packetSamples)
  let recent := ring.takeWhile fun i => e.packetTime i ≠ 0 && now - e.packetTime i < 1000
  recent.foldl (fun (packets, cmds) i => (packets + 1, cmds + e.packetCmds i)) (0, 0)

/-- The smallest round trip of the last four seconds (-1 for none), the number of round trips and their sum. -/
def recentRoundTrips (e : NetEstimate F) (now : Int32) : Int32 × Int32 × Int32 :=
  (List.range NetEstimate.rttSamples.toInt.toNat).foldl (fun (rttMin, rttCount, rttSum) i =>
    if e.rttTime i ≠ 0 ∧ now - e.rttTime i ≤ 4000 then
      (if rttMin < 0 ∨ e.rttValue i < rttMin then e.rttValue i else rttMin, rttCount + 1, rttSum + e.rttValue i)
    else (rttMin, rttCount, rttSum)) (-1, 0, 0)

def median3 (a b c : Int32) : Int32 := max (min a b) (min (max a b) c)

/-- The element that `std::nth_element` puts in the middle. The order that it leaves the others in is never read. -/
def frameMs (e : NetEstimate F) : Int32 :=
  (((List.range (index e.lagCount)).map e.frameLag).mergeSort (· ≤ ·)).getD (index (e.lagCount / 2)) 0

/-- The samples of a window that starts again. -/
def restarted (now : Int32) (e : NetEstimate F) : NetEstimate F :=
  { e with
    windowStart := now
    delaySum := floats.ofInt 0
    delayCount := 0
    lateSum := floats.ofInt 0
    lateCount := 0
    lagCount := 0 }

/-- The estimate of the time nudge, with the rounded interval of the snapshots. -/
def estimateNudge (svFps now rttMin rttCount rttSum : Int32) (e : NetEstimate F) (status : ClientNetStatus F) :
    ClientNetStatus F :=
  let late := if e.lateCount ≠ 0 then floats.div e.lateSum (floats.ofInt e.lateCount) else floats.ofInt 0
  let counted := countPackets e now
  let packetsPerSecond := counted.1
  let hold := if 0 < packetsPerSecond then floats.div (floats.ofInt 500) (floats.ofInt packetsPerSecond)
    else floats.ofInt 0
  let mean := floats.sub (floats.div (floats.ofInt rttSum) (floats.ofInt rttCount)) hold
  let roundTrip := if floats.lt (floats.ofInt rttMin) mean then mean else floats.ofInt rttMin
  let interval := max 1 (if floats.lt (floats.ofInt 0) e.snapshotInterval then floats.lround e.snapshotInterval
    else 1000 / max svFps 1)
  let after := restarted floats now e
  if 100 ≤ interval + 5 then
    { status with estimate := { after with historyIndex := 0, historyFilled := false }, timenudgeKnown := false }
  else
    let framesPerPacket := max 1 (floats.lround
      (floats.div (floats.ofInt counted.2) (floats.ofInt (max packetsPerSecond 1))))
    let after :=
      if interval ≠ e.simInterval ∨ frameMs e ≠ e.simFrameMs ∨ framesPerPacket ≠ e.simFramesPerPacket then
        { after with
          simInterval := interval
          simFrameMs := frameMs e
          simFramesPerPacket := framesPerPacket
          simulated := simulateClient interval (frameMs e) framesPerPacket }
      else after
    let delay := floats.div e.delaySum (floats.ofInt e.delayCount)
    let estimate := floats.neg (floats.sub (floats.add (floats.add delay roundTrip) late) after.simulated)
    let nudge := max (-100) (min 100 (floats.lround estimate))
    let history := Function.update e.history (index e.historyIndex) nudge
    let historyIndex := (e.historyIndex + 1) % 3
    let historyFilled := e.historyFilled || historyIndex = 0
    { status with
      estimate := { after with history, historyIndex, historyFilled }
      timenudge := if historyFilled then median3 (history 0) (history 1) (history 2) else nudge
      timenudgeKnown := true }

/-- The end of a window: the net ping, and the time nudge where there is enough to tell it. -/
def closeWindow (svFps now : Int32) (status : ClientNetStatus F) : ClientNetStatus F :=
  let e := status.estimate
  let (rttMin, rttCount, rttSum) := recentRoundTrips e now
  let status := if 0 ≤ rttMin then { status with netPing := rttMin } else status
  if e.delayCount < 10 ∨ rttMin < 0 ∨ e.lagCount = 0 then { status with estimate := restarted floats now e }
  else estimateNudge floats simulateClient svFps now rttMin rttCount rttSum e status

/-- `PacketReceived`. -/
def packetReceived (clock : ContinuousClock F) (svFps now : Int32) (cl : Client) (cmds : List Usercmd)
    (status : ClientNetStatus F) : ClientNetStatus F :=
  let e := sampleRoundTrip cl.messageAcknowledge now status.estimate
  let e := samplePacket (newCmds cl.lastUsercmd cmds) now e
  let e := sampleNewest floats clock cl.lastUsercmd cmds now e
  let status := { status with estimate := e }
  if now - e.windowStart < 1000 then status else closeWindow floats simulateClient svFps now status

/-! ## The end of a window -/

/-- The samples start again. The last results of the simulation and the last nudges may be others. -/
def Reopened (now : Int32) (e after : NetEstimate F) : Prop :=
  ∃ simInterval simFrameMs simFramesPerPacket simulated history historyIndex historyFilled,
    after = { restarted floats now e with
      simInterval, simFrameMs, simFramesPerPacket, simulated, history, historyIndex, historyFilled } ∧
    (historyIndex = e.historyIndex ∨ historyIndex = 0 ∨ historyIndex = (e.historyIndex + 1) % 3)

theorem estimateNudge_reopened (svFps now rttMin rttCount rttSum : Int32) (e : NetEstimate F)
    (status : ClientNetStatus F) :
    Reopened floats now e (estimateNudge floats simulateClient svFps now rttMin rttCount rttSum e status).estimate := by
  unfold estimateNudge
  extract_lets late counted packetsPerSecond hold mean roundTrip interval restart framesPerPacket after delay
  by_cases wide : 100 ≤ interval + 5
  · rw [if_pos wide]
    exact ⟨_, _, _, _, _, _, _, rfl, .inr (.inl rfl)⟩
  · rw [if_neg wide]
    have simulated : ∃ simInterval simFrameMs simFramesPerPacket simulated,
        after = { restart with simInterval, simFrameMs, simFramesPerPacket, simulated } := by
      unfold after
      split
      · exact ⟨_, _, _, _, rfl⟩
      · exact ⟨_, _, _, _, rfl⟩
    obtain ⟨_, _, _, _, same⟩ := simulated
    rw [same]
    exact ⟨_, _, _, _, _, _, _, rfl, .inr (.inr rfl)⟩

theorem closeWindow_reopened (svFps now : Int32) (status : ClientNetStatus F) :
    Reopened floats now status.estimate (closeWindow floats simulateClient svFps now status).estimate := by
  unfold closeWindow
  extract_lets e
  split
  extract_lets pinged
  split
  · exact ⟨_, _, _, _, _, _, _, rfl, .inl rfl⟩
  · exact estimateNudge_reopened floats simulateClient svFps now _ _ _ e _

/-! ## The count of a packet -/

theorem closeWindow_packetCmds (svFps now : Int32) (status : ClientNetStatus F) :
    (closeWindow floats simulateClient svFps now status).estimate.packetCmds = status.estimate.packetCmds := by
  obtain ⟨_, _, _, _, _, _, _, same, _⟩ := closeWindow_reopened floats simulateClient svFps now status
  rw [same]
  rfl

theorem sampleNewest_packetCmds (clock : ContinuousClock F) (lastUsercmd : Usercmd) (cmds : List Usercmd) (now : Int32)
    (e : NetEstimate F) : (sampleNewest floats clock lastUsercmd cmds now e).packetCmds = e.packetCmds := by
  simp only [sampleNewest, sampleFrame]
  repeat' split
  all_goals rfl

theorem sampleRoundTrip_packets (ack now : Int32) (e : NetEstimate F) :
    (sampleRoundTrip ack now e).packetCmds = e.packetCmds ∧ (sampleRoundTrip ack now e).packetIndex = e.packetIndex := by
  simp only [sampleRoundTrip]
  repeat' split
  all_goals exact ⟨rfl, rfl⟩

/-- Whatever else a packet does to the estimates, it records its new usercmds, and no other count. -/
theorem packetReceived_packetCmds (clock : ContinuousClock F) (svFps now : Int32) (cl : Client) (cmds : List Usercmd)
    (status : ClientNetStatus F) :
    (packetReceived floats simulateClient clock svFps now cl cmds status).estimate.packetCmds =
      Function.update status.estimate.packetCmds (index status.estimate.packetIndex)
        (newCmds cl.lastUsercmd cmds) := by
  obtain ⟨counts, place⟩ := sampleRoundTrip_packets cl.messageAcknowledge now status.estimate
  simp only [packetReceived]
  split
  · rw [sampleNewest_packetCmds, samplePacket, counts, place]
  · rw [closeWindow_packetCmds, sampleNewest_packetCmds, samplePacket, counts, place]

/-! ## The count against the usercmds that run -/

theorem foldl_count {α : Type} (test : α → Bool) (xs : List α) (count : Nat) :
    xs.foldl (fun n x => if test x then n + 1 else n) (Int32.ofNat count) =
      Int32.ofNat (count + (xs.filter test).length) := by
  induction xs generalizing count with
  | nil => rfl
  | cons x rest hypothesis =>
    rw [List.foldl_cons, List.filter_cons]
    split
    · have next : Int32.ofNat count + 1 = Int32.ofNat (count + 1) := (Int32.ofNat_add count 1).symm
      rw [next, hypothesis, List.length_cons, Nat.add_assoc, Nat.add_comm 1]
    · exact hypothesis count

theorem newCmds_eq (lastUsercmd : Usercmd) (cmds : List Usercmd) :
    newCmds lastUsercmd cmds = .ofNat (above time (time lastUsercmd) (current cmds)).length := by
  have counted := foldl_count (fun cmd =>
    decide (time lastUsercmd < time cmd) && decide (time cmd ≤ time (cmds.getLastD .null))) cmds 0
  rw [Nat.zero_add, ← List.filter_filter] at counted
  rw [above, current, ← counted, newCmds]
  congr 1
  funext count cmd
  refine if_congr ?_ rfl rfl
  rw [Bool.and_eq_true, decide_eq_true_iff, decide_eq_true_iff, and_comm]
  exact and_congr Int32.lt_iff_toInt_lt Int32.le_iff_toInt_le

theorem newCmds_toInt (lastUsercmd : Usercmd) {cmds : List Usercmd} (few : cmds.length ≤ 32) :
    (newCmds lastUsercmd cmds).toInt = (above time (time lastUsercmd) (current cmds)).length := by
  have kept : (above time (time lastUsercmd) (current cmds)).length ≤ (current cmds).length :=
    List.length_filter_le _ _
  have fresh : (current cmds).length ≤ cmds.length := List.length_filter_le _ _
  rw [newCmds_eq, Int32.toInt_ofNat_of_lt (by omega)]

variable {Msg : Type} {engine : Engine Msg} {sv : Server}

theorem length_readUsercmds (key : Int32) (count : Nat) (oldcmd : Usercmd) (msg : Msg) :
    (readUsercmds engine key count oldcmd msg).length = count := by
  induction count generalizing oldcmd msg with
  | zero => rfl
  | succ count hypothesis => rw [readUsercmds, List.length_cons, hypothesis]

theorem length_packetUsercmds (turn : Turn) {msg : Msg} (delta : Bool) (counted : Counted engine msg) :
    (packetUsercmds engine sv turn msg delta).length ≤ 32 := by
  have most := Int32.le_iff_toInt_le.mp counted.2
  rw [show maxPacketUsercmds.toInt = 32 from rfl] at most
  rw [packetUsercmds, length_readUsercmds]
  omega

/-- `PacketReceived` is called for the usercmds of an admitted packet, and for no others. -/
theorem packetReceived_called (stores : Stores engine) {cl : Client} {msg : Msg} {delta : Bool} {cmds : List Usercmd}
    (called : .packetReceived cmds ∈ (proxySvUserMove engine sv ⟨cl, []⟩ msg delta).calls) :
    Counted engine msg ∧ Admitted sv (entered engine sv ⟨cl, []⟩ msg delta).cl ∧
      cmds = packetUsercmds engine sv ⟨cl, []⟩ msg delta := by
  have unentered : .packetReceived cmds ∉ (entered engine sv ⟨cl, []⟩ msg delta).calls := by
    by_cases primed : cl.state = .csPrimed
    · simp [entered_primed engine sv ⟨cl, []⟩ msg delta primed]
    · simp [(entered_other engine sv ⟨cl, []⟩ msg delta primed).1]
  by_cases counted : Counted engine msg
  · rw [userMove_counted engine sv ⟨cl, []⟩ delta counted] at called
    by_cases admitted : Admitted sv (entered engine sv ⟨cl, []⟩ msg delta).cl
    · rw [(moveActive_runs sv stores _ _ admitted).1, received] at called
      refine ⟨counted, admitted, ?_⟩
      split at called
      · simpa [unentered] using called
      · simp [unentered] at called
    · rw [moveActive] at called
      split at called
      · simp [Turn.dropClient, Turn.log, unentered] at called
      · rename_i pure
        rw [if_pos fun active => admitted ⟨pure, active⟩] at called
        exact absurd called unentered
  · rw [userMove_eq] at called
    split at called
    · simp [Turn.log, aimed] at called
    split at called
    · simp [Turn.log, aimed] at called
    · rename_i few many
      exact absurd ⟨Int32.not_lt.mp few, Int32.not_lt.mp many⟩ counted

/-- The usercmds of a packet that are newer than the last one run have ascending times. -/
def NewAscend (lastUsercmd : Usercmd) (cmds : List Usercmd) : Prop :=
  (above time (time lastUsercmd) (current cmds)).Pairwise fun a b => time a < time b

instance (lastUsercmd : Usercmd) (cmds : List Usercmd) : Decidable (NewAscend lastUsercmd cmds) :=
  inferInstanceAs (Decidable (List.Pairwise _ _))

/-- The count that a packet records is that of its `SV_ClientThink` calls exactly when its new usercmds ascend: of two
with one time, or of one that goes back, the loop runs only the first. -/
theorem newCmds_eq_thoughts_iff (stores : Stores engine) (floats : Floats F) (simulateClient : Int32 → Int32 → Int32 → F)
    (clock : ContinuousClock F) (svFps now : Int32) (status : ClientNetStatus F) (cl : Client) (msg : Msg) (delta : Bool)
    (cmds : List Usercmd)
    (called : .packetReceived cmds ∈ (proxySvUserMove engine sv ⟨cl, []⟩ msg delta).calls) :
    let start := (entered engine sv ⟨cl, []⟩ msg delta).cl
    let recorded := packetReceived floats simulateClient clock svFps now start cmds status
    (recorded.estimate.packetCmds (index status.estimate.packetIndex)).toInt =
        (thoughts (proxySvUserMove engine sv ⟨cl, []⟩ msg delta).calls).length ↔
      NewAscend start.lastUsercmd cmds := by
  intro start recorded
  obtain ⟨counted, admitted, rfl⟩ := packetReceived_called stores called
  have run : thoughts (proxySvUserMove engine sv ⟨cl, []⟩ msg delta).calls =
      records time (time start.lastUsercmd) (current (packetUsercmds engine sv ⟨cl, []⟩ msg delta)) := by
    rw [userMove_counted engine sv ⟨cl, []⟩ delta counted, (moveActive_runs sv stores _ _ admitted).1, thoughts_append,
      thoughts_append, entered_thoughts, thoughts_received, thoughts_map]
    rfl
  rw [packetReceived_packetCmds, Function.update_self,
    newCmds_toInt _ (length_packetUsercmds ⟨cl, []⟩ delta counted), run, Int.natCast_inj]
  exact length_above_eq_iff _ _

/-- The arithmetic on whole numbers, which is all that a packet below comes to. -/
def wholeFloats : Floats ℤ where
  ofInt := Int32.toInt
  add := (· + ·)
  sub := (· - ·)
  div := Int.tdiv
  neg := Neg.neg
  lt a b := decide (a < b)
  lround := Int32.ofInt

/-- `memset(0)`, in the middle of a window. -/
def zeroStatus : ClientNetStatus ℤ where
  estimate :=
    { sentTime := fun _ => 0, sentSequence := fun _ => 0, lastAckedSequence := 0
      packetTime := fun _ => 0, packetCmds := fun _ => 0, packetIndex := 0
      lastSnapshotTime := 0, snapshotInterval := 0
      rttTime := fun _ => 0, rttValue := fun _ => 0, rttIndex := 0
      delaySum := 0, delayCount := 0, lateSum := 0, lateCount := 0
      frameLag := fun _ => 0, lagCount := 0, lastCmdServerTime := 0, windowStart := 4500
      simInterval := 0, simFrameMs := 0, simFramesPerPacket := 0, simulated := 0
      history := fun _ => 0, historyIndex := 0, historyFilled := false }
  netPing := 0
  timenudge := 0
  timenudgeKnown := false

def watchingServer : Server := { sampleServer with proxySvEnableNetStatus := true }

def packetStart (msg : List Int32) : Client := (entered timesEngine watchingServer ⟨sampleClient, []⟩ msg true).cl

def packetCalls (msg : List Int32) : List Call :=
  (proxySvUserMove timesEngine watchingServer ⟨sampleClient, []⟩ msg true).calls

def recordedCount (msg : List Int32) (cmds : List Usercmd) : Int32 :=
  (packetReceived wholeFloats (fun _ _ _ => 0) ⟨0, false⟩ 20 5000 (packetStart msg) cmds zeroStatus).estimate.packetCmds 0

/-- The first usercmd is a repeated one. -/
theorem newCmds_eq_thoughts_ascending :
    let cmds := packetUsercmds timesEngine watchingServer ⟨sampleClient, []⟩ [3, 0, 110, 120] true
    (recordedCount [3, 0, 110, 120] cmds).toInt = (thoughts (packetCalls [3, 0, 110, 120])).length :=
  (newCmds_eq_thoughts_iff (fun _ _ => rfl) wholeFloats (fun _ _ _ => 0) ⟨0, false⟩ 20 5000 zeroStatus sampleClient
    [3, 0, 110, 120] true _ (List.mem_of_mem_head? rfl)).mpr (by decide)

/-- Two usercmds with one time count twice and run once. -/
theorem repeated_counted_twice :
    let cmds := packetUsercmds timesEngine watchingServer ⟨sampleClient, []⟩ [3, 110, 110, 120] true
    .packetReceived cmds ∈ packetCalls [3, 110, 110, 120] ∧
      recordedCount [3, 110, 110, 120] cmds = 3 ∧ (thoughts (packetCalls [3, 110, 110, 120])).length = 2 := by
  refine ⟨List.mem_of_mem_head? rfl, ?_, ?_⟩
  · decide
  · decide

end YbeProxy.NetStatus
