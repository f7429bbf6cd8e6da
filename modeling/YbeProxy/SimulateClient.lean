import YbeProxy.Binary32
import YbeProxy.WhileLoop

/-!
# The simulated client

`SimulateClient` runs the frames of a client until it received enough snapshots and sent enough packets. On unbounded
whole numbers both of its loops end for every interval, frame length and number of frames per packet; in the ranges of
its caller every `int` that it computes fits in 32 bits.
-/

namespace YbeProxy.SimulateClient
open YbeProxy.WhileLoop YbeProxy.Rounding YbeProxy.Binary32

def phases : ℤ := 4
def warmSnapshots : ℤ := 30
def snapshots : ℤ := 130
def packets : ℤ := 10

/-- The variables of the function, those of a phase last. `ints` gathers every `int` that was computed. -/
structure Sim where
  -- A `double`, which holds a sum of `int`s exactly below 2^53.
  delaySum : ℤ
  delayCount : ℤ
  rttMin : ℤ
  rttSum : ℤ
  rttCount : ℤ
  realtime : ℤ
  snapshots : ℤ
  snapTime : ℤ
  newSnapshot : Bool
  serverTimeDelta : ℤ
  extrapolated : Bool
  clServerTime : ℤ
  lastAcked : ℤ
  packets : ℤ
  frame : ℤ
  ints : List ℤ

/-- A snapshot that arrived before this frame. -/
def arrive (interval : ℤ) (s : Sim) : Sim :=
  { s with
    snapTime := s.snapshots * interval
    newSnapshot := true
    snapshots := s.snapshots + 1
    ints := [s.snapshots * interval, s.snapshots + 1] ++ s.ints }

def arrivals (interval : ℤ) : ℕ → Sim → Option Sim :=
  loop (fun s => decide (s.snapshots * interval ≤ s.realtime)) (fun _ s => some (arrive interval s))

/-- The round trip of a packet that acknowledges a new snapshot. -/
def acknowledge (s : Sim) : Sim :=
  if s.snapTime ≠ s.lastAcked then
    let rtt := s.realtime - s.snapTime
    { s with
      lastAcked := s.snapTime
      rttSum := s.rttSum + rtt
      rttCount := s.rttCount + 1
      rttMin := if s.rttMin < 0 ∨ rtt < s.rttMin then rtt else s.rttMin
      ints := [rtt, s.rttSum + rtt, s.rttCount + 1] ++ s.ints }
  else s

/-- `CL_SendCmd`: the usercmd holds `cl.serverTime` of the previous frame. -/
def sendCmd (framesPerPacket : ℤ) (s : Sim) : Sim :=
  if warmSnapshots < s.snapshots ∧ s.frame % framesPerPacket = 0 then
    acknowledge { s with
      delaySum := s.delaySum + (s.clServerTime - s.realtime)
      delayCount := s.delayCount + 1
      packets := s.packets + 1
      ints := [s.clServerTime - s.realtime, s.delayCount + 1, s.packets + 1] ++ s.ints }
  else s

/-- `CL_AdjustTimeDelta`. -/
def adjustTimeDelta (s : Sim) : Sim :=
  if s.newSnapshot then
    let newDelta := s.snapTime - s.realtime
    let deltaDelta := |newDelta - s.serverTimeDelta|
    let s := { s with
      newSnapshot := false
      ints := [newDelta, newDelta - s.serverTimeDelta, deltaDelta] ++ s.ints }
    if 500 < deltaDelta then { s with serverTimeDelta := newDelta }
    else if 100 < deltaDelta then
      { s with
        serverTimeDelta := (s.serverTimeDelta + newDelta) >>> (1 : ℕ)
        ints := [s.serverTimeDelta + newDelta] ++ s.ints }
    else if s.extrapolated then
      { s with
        extrapolated := false
        serverTimeDelta := s.serverTimeDelta - 2
        ints := [s.serverTimeDelta - 2] ++ s.ints }
    else
      { s with
        serverTimeDelta := s.serverTimeDelta + 1
        ints := [s.serverTimeDelta + 1] ++ s.ints }
  else s

/-- `CL_SetCGameTime`: the time never goes back. -/
def setCGameTime (s : Sim) : Sim :=
  { s with
    clServerTime := max s.clServerTime (s.realtime + s.serverTimeDelta)
    extrapolated := s.extrapolated || decide (s.snapTime - 5 ≤ s.realtime + s.serverTimeDelta)
    ints := [s.realtime + s.serverTimeDelta, s.snapTime - 5] ++ s.ints }

/-- `++frame, realtime += frameMs`, after the rest of a frame; its last test of the snapshots is noted with it. -/
def nextFrame (interval frameMs : ℤ) (s : Sim) : Sim :=
  { s with
    frame := s.frame + 1
    realtime := s.realtime + frameMs
    ints := [s.snapshots * interval, s.frame + 1, s.realtime + frameMs] ++ s.ints }

def runFrame (interval frameMs framesPerPacket : ℤ) (fuel : ℕ) (s : Sim) : Option Sim :=
  (arrivals interval fuel s).map fun s =>
    nextFrame interval frameMs (setCGameTime (adjustTimeDelta (sendCmd framesPerPacket s)))

def startPhase (interval frameMs phase : ℤ) (s : Sim) : Sim :=
  { s with
    realtime := phase * frameMs / phases
    snapshots := 0
    snapTime := 0
    newSnapshot := false
    serverTimeDelta := -interval - 5
    extrapolated := false
    clServerTime := 0
    lastAcked := -1
    packets := 0
    frame := 0
    ints := [phase * frameMs, phase * frameMs / phases, -interval, -interval - 5] ++ s.ints }

/-- The loop of a phase goes on. -/
def unfinished (s : Sim) : Bool := s.snapshots < snapshots || s.packets < packets

def runPhase (interval frameMs framesPerPacket phase : ℤ) (fuel : ℕ) (s : Sim) : Option Sim :=
  loop unfinished (runFrame interval frameMs framesPerPacket) fuel (startPhase interval frameMs phase s)

def fresh : Sim where
  delaySum := 0
  delayCount := 0
  rttMin := -1
  rttSum := 0
  rttCount := 0
  realtime := 0
  snapshots := 0
  snapTime := 0
  newSnapshot := false
  serverTimeDelta := 0
  extrapolated := false
  clServerTime := 0
  lastAcked := -1
  packets := 0
  frame := 0
  ints := []

def runPhases (interval frameMs framesPerPacket : ℤ) : List ℤ → ℕ → Sim → Option Sim
  | [], _, s => some s
  | phase :: rest, fuel, s =>
    (runPhase interval frameMs framesPerPacket phase fuel s).bind (runPhases interval frameMs framesPerPacket rest fuel)

/-- The delay and the round trip that the totals tell; `double` has 53 bits of significand. -/
def told (frameMs framesPerPacket : ℤ) (s : Sim) : ℚ :=
  let hold := single (single (framesPerPacket * frameMs : ℤ) / 2)
  let delay := single (round 52 (-1074) (s.delaySum / s.delayCount))
  single (delay + max (single s.rttMin) (single (single (single s.rttSum / single s.rttCount) - hold)))

/-- The loops of `SimulateClient`. -/
def totals (interval frameMs framesPerPacket : ℤ) (fuel : ℕ) : Option Sim :=
  runPhases interval frameMs framesPerPacket [0, 1, 2, 3] fuel fresh

def simulateClient (interval frameMs framesPerPacket : ℤ) (fuel : ℕ) : Option ℚ :=
  (totals interval frameMs framesPerPacket fuel).map (told frameMs framesPerPacket)

/-! ## What a phase keeps -/

/-- The variables of a phase at the start of a frame, where it began with `d` delays and `r` round trips. -/
structure Running (interval d r : ℤ) (s : Sim) : Prop where
  time : 0 ≤ s.realtime
  frames : 0 ≤ s.frame
  snaps : 0 ≤ s.snapshots
  snap_nonneg : 0 ≤ s.snapTime
  snap_le : s.snapTime ≤ s.realtime
  newest : s.snapshots = 0 ∨ s.snapshots * interval = s.snapTime + interval
  sent : 0 ≤ s.packets
  delays : s.delayCount = d + s.packets
  trips : s.packets = 0 ∧ s.lastAcked = -1 ∧ s.rttCount = r ∨ r + 1 ≤ s.rttCount
  least : 0 < s.rttCount → 0 ≤ s.rttMin

/-- The loop of the snapshots ends after the first that is later than the frame. -/
theorem arrivals_ends {interval d r : ℤ} (positive : 1 ≤ interval) {s : Sim} (running : Running interval d r s) :
    ∃ n time new ints, Ends (fun fuel => arrivals interval fuel s)
        { s with snapshots := n, snapTime := time, newSnapshot := new, ints := ints ++ s.ints } ∧
      Running interval d r { s with snapshots := n, snapTime := time, newSnapshot := new, ints := ints ++ s.ints } ∧
      s.snapshots ≤ n ∧ s.realtime < n * interval ∧ ∀ i ∈ ints, 0 ≤ i ∧ i ≤ s.realtime + 1 := by
  let Inv (t : Sim) : Prop := ∃ n time new ints,
    t = { s with snapshots := n, snapTime := time, newSnapshot := new, ints := ints ++ s.ints } ∧
      Running interval d r t ∧ s.snapshots ≤ n ∧ ∀ i ∈ ints, 0 ≤ i ∧ i ≤ s.realtime + 1
  have turn (t : Sim) (kept : Inv t) (more : decide (t.snapshots * interval ≤ t.realtime) = true) :
      ∃ next, Ends (fun _ => some (arrive interval t)) next ∧ Inv next ∧
        (next.realtime + 1 - next.snapshots * interval).toNat < (t.realtime + 1 - t.snapshots * interval).toNat := by
    obtain ⟨n, time, new, ints, rfl, inside, later, small⟩ := kept
    have due : n * interval ≤ s.realtime := of_decide_eq_true more
    have count : 0 ≤ n := inside.snaps
    have grows : n ≤ n * interval := le_mul_of_one_le_right count positive
    have next : (n + 1) * interval = n * interval + interval := by ring
    refine ⟨_, .pure _, ⟨n + 1, n * interval, true, [n * interval, n + 1] ++ ints, ?_, ?_, by omega, ?_⟩, ?_⟩
    · simp [arrive]
    · exact ⟨inside.time, inside.frames, by change 0 ≤ n + 1; omega, by change 0 ≤ n * interval; omega, due,
        .inr next, inside.sent, inside.delays, inside.trips, inside.least⟩
    · intro i member
      rcases List.mem_append.mp member with new | old
      · simp only [List.mem_cons, List.not_mem_nil, or_false] at new
        rcases new with rfl | rfl
        · omega
        · omega
      · exact small i old
    · change (s.realtime + 1 - (n + 1) * interval).toNat < (s.realtime + 1 - n * interval).toNat
      omega
  obtain ⟨result, ends, ⟨n, time, new, ints, rfl, inside, later, small⟩, done⟩ := loop_ends Inv _ turn s
    ⟨s.snapshots, s.snapTime, s.newSnapshot, [], rfl, running, le_refl _, by simp⟩
  exact ⟨n, time, new, ints, ends, inside, later, not_le.mp (of_decide_eq_false done), small⟩

/-- A packet is sent in every `framesPerPacket`th frame, once enough snapshots arrived. -/
abbrev Sends (framesPerPacket : ℤ) (s : Sim) : Prop := warmSnapshots < s.snapshots ∧ s.frame % framesPerPacket = 0

/-- A packet that is sent is counted, and the first one behind a snapshot takes the round trip of the snapshot. -/
theorem sendCmd_cases (framesPerPacket : ℤ) (s : Sim) :
    (¬ Sends framesPerPacket s ∧ sendCmd framesPerPacket s = s) ∨
      Sends framesPerPacket s ∧ ∃ acked sum count least ints,
        sendCmd framesPerPacket s = { s with
          delaySum := s.delaySum + (s.clServerTime - s.realtime), delayCount := s.delayCount + 1,
          packets := s.packets + 1, lastAcked := acked, rttSum := sum, rttCount := count, rttMin := least,
          ints := ints ++ ([s.clServerTime - s.realtime, s.delayCount + 1, s.packets + 1] ++ s.ints) } ∧
        (s.snapTime = s.lastAcked ∧ acked = s.lastAcked ∧ sum = s.rttSum ∧ count = s.rttCount ∧ least = s.rttMin ∧
            ints = [] ∨
          s.snapTime ≠ s.lastAcked ∧ acked = s.snapTime ∧ sum = s.rttSum + (s.realtime - s.snapTime) ∧
            count = s.rttCount + 1 ∧
            least = (if s.rttMin < 0 ∨ s.realtime - s.snapTime < s.rttMin then s.realtime - s.snapTime else s.rttMin) ∧
            ints = [s.realtime - s.snapTime, s.rttSum + (s.realtime - s.snapTime), s.rttCount + 1]) := by
  unfold sendCmd
  split
  · rename_i sends
    refine .inr ⟨sends, ?_⟩
    unfold acknowledge
    split
    · rename_i other
      exact ⟨_, _, _, _, _, rfl, .inr ⟨other, rfl, rfl, rfl, rfl, rfl⟩⟩
    · rename_i same
      exact ⟨_, _, _, _, [], rfl, .inl ⟨not_not.mp same, rfl, rfl, rfl, rfl, rfl⟩⟩
  · rename_i waits
    exact .inl ⟨waits, rfl⟩

theorem sendCmd_running {interval d r : ℤ} {s : Sim} (running : Running interval d r s)
    (framesPerPacket : ℤ) : Running interval d r (sendCmd framesPerPacket s) := by
  obtain ⟨time, frames, snaps, nonneg, le, newest, sent, delays, trips, least⟩ := running
  rcases sendCmd_cases framesPerPacket s with ⟨_, equal⟩ | ⟨_, acked, sum, count, smallest, ints, equal, cases⟩
  · rw [equal]
    exact ⟨time, frames, snaps, nonneg, le, newest, sent, delays, trips, least⟩
  · rw [equal]
    refine ⟨time, frames, snaps, nonneg, le, newest, ?_, ?_, .inr ?_, ?_⟩
    · change 0 ≤ s.packets + 1
      omega
    · change s.delayCount + 1 = d + (s.packets + 1)
      omega
    · change r + 1 ≤ count
      rcases cases with ⟨same, _, _, rfl, _⟩ | ⟨_, _, _, rfl, _⟩ <;> omega
    · intro positive
      change 0 ≤ smallest
      rcases cases with ⟨_, _, _, rfl, rfl, _⟩ | ⟨_, _, _, _, rfl, _⟩
      · exact least positive
      · split <;> omega

theorem sendCmd_frame (framesPerPacket : ℤ) (s : Sim) :
    (sendCmd framesPerPacket s).realtime = s.realtime ∧ (sendCmd framesPerPacket s).snapshots = s.snapshots ∧
      (sendCmd framesPerPacket s).snapTime = s.snapTime ∧ (sendCmd framesPerPacket s).frame = s.frame ∧
      (sendCmd framesPerPacket s).packets = s.packets + (if Sends framesPerPacket s then 1 else 0) ∧
      (sendCmd framesPerPacket s).serverTimeDelta = s.serverTimeDelta ∧
      (sendCmd framesPerPacket s).clServerTime = s.clServerTime := by
  rcases sendCmd_cases framesPerPacket s with ⟨waits, equal⟩ | ⟨sends, acked, sum, count, smallest, ints, equal, _⟩
  · rw [equal, if_neg waits]
    exact ⟨rfl, rfl, rfl, rfl, (add_zero _).symm, rfl, rfl⟩
  · rw [equal, if_pos sends]
    exact ⟨rfl, rfl, rfl, rfl, rfl, rfl, rfl⟩

/-- `CL_AdjustTimeDelta` keeps the difference near that of the newest snapshot. -/
theorem adjustTimeDelta_spec (s : Sim) :
    ∃ new delta extrapolated ints, adjustTimeDelta s = { s with
        newSnapshot := new, serverTimeDelta := delta, extrapolated := extrapolated, ints := ints ++ s.ints } ∧
      (-94 ≤ s.snapTime - s.realtime → s.snapTime ≤ s.realtime →
        -196 ≤ s.serverTimeDelta → s.serverTimeDelta ≤ 101 →
        (-196 ≤ delta ∧ delta ≤ 101) ∧ ∀ i ∈ ints, -1000 ≤ i ∧ i ≤ 1000) := by
  unfold adjustTimeDelta
  split
  · extract_lets newDelta deltaDelta noted
    have wide : deltaDelta = |newDelta - s.serverTimeDelta| := rfl
    have kept : noted.serverTimeDelta = s.serverTimeDelta := rfl
    have halved (a : ℤ) : a >>> (1 : ℕ) = a / 2 := Int.shiftRight_eq_div_pow a 1
    rw [abs_eq_max_neg] at wide
    split
    · refine ⟨_, _, _, [newDelta, newDelta - s.serverTimeDelta, deltaDelta], rfl, ?_⟩
      simp only [List.forall_mem_cons, List.not_mem_nil, false_implies, implies_true, and_true]
      omega
    split
    · refine ⟨_, _, _, [s.serverTimeDelta + newDelta, newDelta, newDelta - s.serverTimeDelta, deltaDelta], rfl, ?_⟩
      simp only [halved, List.forall_mem_cons, List.not_mem_nil, false_implies, implies_true, and_true]
      omega
    split
    · refine ⟨_, _, _, [s.serverTimeDelta - 2, newDelta, newDelta - s.serverTimeDelta, deltaDelta], rfl, ?_⟩
      simp only [List.forall_mem_cons, List.not_mem_nil, false_implies, implies_true, and_true]
      omega
    · refine ⟨_, _, _, [s.serverTimeDelta + 1, newDelta, newDelta - s.serverTimeDelta, deltaDelta], rfl, ?_⟩
      simp only [List.forall_mem_cons, List.not_mem_nil, false_implies, implies_true, and_true]
      omega
  · refine ⟨_, _, _, [], rfl, ?_⟩
    intro _ _ low high
    exact ⟨⟨low, high⟩, by simp⟩

/-! ## The frames that are left -/

/-- The frames to the next one in which a packet can be sent. -/
def wait (framesPerPacket : ℤ) (s : Sim) : ℕ := (-s.frame % framesPerPacket).toNat

/-- What the snapshots and the packets of a phase still need. -/
def missing (interval : ℤ) (s : Sim) : ℕ :=
  (snapshots * interval - s.realtime).toNat + (packets - s.packets).toNat + (snapshots - s.snapshots).toNat

def remaining (interval framesPerPacket : ℤ) (s : Sim) : ℕ :=
  missing interval s * framesPerPacket.toNat + wait framesPerPacket s

theorem wait_lt {framesPerPacket : ℤ} (positive : 1 ≤ framesPerPacket) (s : Sim) :
    wait framesPerPacket s < framesPerPacket.toNat := by
  have below := Int.emod_lt_of_pos (-s.frame) (by omega : 0 < framesPerPacket)
  unfold wait
  omega

theorem wait_zero {framesPerPacket : ℤ} (positive : 1 ≤ framesPerPacket) {s : Sim} (now : wait framesPerPacket s = 0) :
    s.frame % framesPerPacket = 0 := by
  have nonneg := Int.emod_nonneg (-s.frame) (by omega : framesPerPacket ≠ 0)
  unfold wait at now
  exact Int.emod_eq_zero_of_dvd (Int.dvd_neg.mp (Int.dvd_of_emod_eq_zero (by omega)))

/-- One frame later the wait is one shorter. -/
theorem wait_next {framesPerPacket : ℤ} (positive : 1 ≤ framesPerPacket) {s next : Sim} (later : next.frame = s.frame + 1)
    (waits : wait framesPerPacket s ≠ 0) : wait framesPerPacket next + 1 = wait framesPerPacket s := by
  have nonneg := Int.emod_nonneg (-s.frame) (by omega : framesPerPacket ≠ 0)
  have below := Int.emod_lt_of_pos (-s.frame) (by omega : 0 < framesPerPacket)
  have split := Int.emod_add_mul_ediv (-s.frame) framesPerPacket
  unfold wait at *
  have less : -next.frame % framesPerPacket = -s.frame % framesPerPacket - 1 := by
    have equal : -next.frame = (-s.frame % framesPerPacket - 1) + framesPerPacket * (-s.frame / framesPerPacket) := by
      omega
    rw [equal, Int.add_mul_emod_self_left]
    exact Int.emod_eq_of_lt (by omega) (by omega)
  omega

/-- A frame needs less than the one before, or as much after a shorter wait. -/
theorem remaining_lt {interval framesPerPacket : ℤ} (positive : 1 ≤ framesPerPacket) {s next : Sim}
    (later : next.frame = s.frame + 1) (less : missing interval next ≤ missing interval s)
    (progress : missing interval next < missing interval s ∨ wait framesPerPacket s ≠ 0) :
    remaining interval framesPerPacket next < remaining interval framesPerPacket s := by
  have short := wait_lt positive next
  unfold remaining
  by_cases waits : wait framesPerPacket s = 0
  · have smaller := Nat.mul_le_mul_right framesPerPacket.toNat (Nat.succ_le_of_lt (progress.resolve_right (not_not.mpr waits)))
    rw [Nat.succ_mul] at smaller
    omega
  · have one := wait_next positive later waits
    have smaller := Nat.mul_le_mul_right framesPerPacket.toNat less
    omega

/-! ## The `int`s of a phase -/

def IsInt (i : ℤ) : Prop := -2 ^ 31 ≤ i ∧ i < 2 ^ 31

/-- The variables in the ranges of the caller, after at most `limit` delays. -/
structure Fits (limit : ℤ) (s : Sim) : Prop where
  limit_le : limit ≤ 1600000
  frames : 0 ≤ s.frame ∧ s.frame ≤ 400000
  time : 0 ≤ s.realtime ∧ s.realtime ≤ 100 + 100 * s.frame
  delta : -196 ≤ s.serverTimeDelta ∧ s.serverTimeDelta ≤ 101
  server : 0 ≤ s.clServerTime ∧ s.clServerTime ≤ s.realtime + 101
  delays : 0 ≤ s.packets ∧ s.packets ≤ s.delayCount ∧ s.delayCount ≤ limit
  trips : 0 ≤ s.rttCount ∧ s.rttCount ≤ s.delayCount
  sum : 0 ≤ s.rttSum ∧ s.rttSum ≤ 94 * s.rttCount
  ints : ∀ i ∈ s.ints, IsInt i

/-- The newest snapshot of a frame is the last that is not later than it. -/
def Newest (s : Sim) : Prop := 0 ≤ s.snapTime ∧ s.snapTime ≤ s.realtime ∧ s.realtime ≤ s.snapTime + 94

theorem forall_mem_append {more old : List ℤ} (new : ∀ i ∈ more, IsInt i) (kept : ∀ i ∈ old, IsInt i) :
    ∀ i ∈ more ++ old, IsInt i := by
  intro i member
  rcases List.mem_append.mp member with first | second
  · exact new i first
  · exact kept i second

theorem sendCmd_fits {limit : ℤ} {s : Sim} (newest : Newest s) (fits : Fits limit s) (more : limit + 1 ≤ 1600000)
    (framesPerPacket : ℤ) : Fits (limit + 1) (sendCmd framesPerPacket s) := by
  obtain ⟨nonneg, le, near⟩ := newest
  obtain ⟨limit_le, frames, time, delta, server, delays, trips, sum, ints⟩ := fits
  rcases sendCmd_cases framesPerPacket s with ⟨_, equal⟩ | ⟨_, acked, total, count, smallest, new, equal, cases⟩
  · rw [equal]
    exact ⟨more, frames, time, delta, server, by omega, trips, sum, ints⟩
  · have sent : ∀ i ∈ [s.clServerTime - s.realtime, s.delayCount + 1, s.packets + 1], IsInt i := by
      simp only [List.forall_mem_cons, List.not_mem_nil, false_implies, implies_true, and_true, IsInt]
      omega
    rw [equal]
    rcases cases with ⟨_, _, rfl, rfl, _, rfl⟩ | ⟨_, _, rfl, rfl, _, rfl⟩
    · exact ⟨more, frames, time, delta, server, by simp only; omega, by simp only; omega, sum,
        forall_mem_append (by simp) (forall_mem_append sent ints)⟩
    · refine ⟨more, frames, time, delta, server, by simp only; omega, by simp only; omega, by simp only; omega, ?_⟩
      refine forall_mem_append ?_ (forall_mem_append sent ints)
      simp only [List.forall_mem_cons, List.not_mem_nil, false_implies, implies_true, and_true, IsInt]
      omega

theorem adjustTimeDelta_fits {limit : ℤ} {s : Sim} (newest : Newest s) (fits : Fits limit s) :
    Fits limit (adjustTimeDelta s) := by
  obtain ⟨nonneg, le, near⟩ := newest
  obtain ⟨limit_le, frames, time, delta, server, delays, trips, sum, ints⟩ := fits
  obtain ⟨new, adjusted, extrapolated, noted, equal, inside⟩ := adjustTimeDelta_spec s
  obtain ⟨within, small⟩ := inside (by omega) le delta.1 delta.2
  rw [equal]
  refine ⟨limit_le, frames, time, within, server, delays, trips, sum, forall_mem_append ?_ ints⟩
  intro i member
  have := small i member
  unfold IsInt
  omega

theorem setCGameTime_fits {limit : ℤ} {s : Sim} (newest : Newest s) (fits : Fits limit s) :
    Fits limit (setCGameTime s) := by
  obtain ⟨nonneg, le, near⟩ := newest
  obtain ⟨limit_le, frames, time, delta, server, delays, trips, sum, ints⟩ := fits
  unfold setCGameTime
  refine ⟨limit_le, frames, time, delta, by simp only; omega, delays, trips, sum, forall_mem_append ?_ ints⟩
  simp only [List.forall_mem_cons, List.not_mem_nil, false_implies, implies_true, and_true, IsInt]
  omega

theorem nextFrame_fits {limit interval frameMs : ℤ} {s : Sim} (newest : Newest s) (fits : Fits limit s)
    (positive : 1 ≤ frameMs) (short : frameMs ≤ 100) (last : s.frame + 1 ≤ 400000)
    (next : 0 ≤ s.snapshots * interval ∧ s.snapshots * interval ≤ s.snapTime + 94) :
    Fits limit (nextFrame interval frameMs s) := by
  obtain ⟨nonneg, le, near⟩ := newest
  obtain ⟨limit_le, frames, time, delta, server, delays, trips, sum, ints⟩ := fits
  unfold nextFrame
  refine ⟨limit_le, by simp only; omega, by simp only; omega, delta, by simp only; omega, delays, trips, sum,
    forall_mem_append ?_ ints⟩
  simp only [List.forall_mem_cons, List.not_mem_nil, false_implies, implies_true, and_true, IsInt]
  omega

/-! ## One frame -/

/-- The arguments that the caller can pass. -/
structure InRange (interval frameMs framesPerPacket : ℤ) : Prop where
  interval_le : interval ≤ 94
  frameMs_le : frameMs ≤ 100
  framesPerPacket_le : framesPerPacket ≤ 32

theorem adjustTimeDelta_running {interval d r : ℤ} {s : Sim} (running : Running interval d r s) :
    Running interval d r (adjustTimeDelta s) ∧ (adjustTimeDelta s).realtime = s.realtime ∧
      (adjustTimeDelta s).snapshots = s.snapshots ∧ (adjustTimeDelta s).snapTime = s.snapTime ∧
      (adjustTimeDelta s).frame = s.frame ∧ (adjustTimeDelta s).packets = s.packets := by
  obtain ⟨new, adjusted, extrapolated, noted, equal, _⟩ := adjustTimeDelta_spec s
  obtain ⟨time, frames, snaps, nonneg, le, newest, sent, delays, trips, least⟩ := running
  rw [equal]
  exact ⟨⟨time, frames, snaps, nonneg, le, newest, sent, delays, trips, least⟩, rfl, rfl, rfl, rfl, rfl⟩

theorem nextFrame_running {interval frameMs d r : ℤ} {s : Sim} (positive : 1 ≤ frameMs) (running : Running interval d r s) :
    Running interval d r (nextFrame interval frameMs (setCGameTime s)) := by
  obtain ⟨time, frames, snaps, nonneg, le, newest, sent, delays, trips, least⟩ := running
  refine ⟨?_, ?_, snaps, nonneg, ?_, newest, sent, delays, trips, least⟩
  · change 0 ≤ s.realtime + frameMs
    omega
  · change 0 ≤ s.frame + 1
    omega
  · change s.snapTime ≤ s.realtime + frameMs
    omega

section Frame
variable {interval frameMs framesPerPacket d r : ℤ}

/-- A frame ends, and brings the phase nearer to its end. -/
theorem runFrame_spec (interval_pos : 1 ≤ interval) (frameMs_pos : 1 ≤ frameMs) (framesPerPacket_pos : 1 ≤ framesPerPacket)
    {s : Sim} (running : Running interval d r s) (more : unfinished s = true) :
    ∃ next, Ends (fun fuel => runFrame interval frameMs framesPerPacket fuel s) next ∧ Running interval d r next ∧
      remaining interval framesPerPacket next < remaining interval framesPerPacket s ∧ next.frame = s.frame + 1 ∧
      (InRange interval frameMs framesPerPacket → s.frame + 1 ≤ 400000 → d + s.frame + 1 ≤ 1600000 →
        Fits (d + s.frame) s → Fits (d + next.frame) next) := by
  obtain ⟨n, snapTime, new, noted, ends, arrived, later, early, small⟩ := arrivals_ends interval_pos running
  set t : Sim := { s with snapshots := n, snapTime := snapTime, newSnapshot := new, ints := noted ++ s.ints } with arrivals
  obtain ⟨time, snaps, newest, frame, packets, _, _⟩ := sendCmd_frame framesPerPacket t
  have sent := sendCmd_running arrived framesPerPacket
  set u := sendCmd framesPerPacket t with sendCmd
  obtain ⟨adjusted, time', snaps', newest', frame', packets'⟩ := adjustTimeDelta_running sent
  set v := adjustTimeDelta u with adjust
  have final := nextFrame_running frameMs_pos adjusted
  set next := nextFrame interval frameMs (setCGameTime v)
  have frames : next.frame = s.frame + 1 := congrArg (· + 1) (frame'.trans frame)
  have clock : next.realtime = s.realtime + frameMs := congrArg (· + frameMs) (time'.trans time)
  have count : next.snapshots = n := snaps'.trans snaps
  have sendings : next.packets = s.packets + (if Sends framesPerPacket t then 1 else 0) := packets'.trans packets
  have more' : s.snapshots < snapshots ∨ s.packets < SimulateClient.packets := by simpa [unfinished] using more
  refine ⟨next, ends.map _, final, remaining_lt framesPerPacket_pos frames ?_ ?_, frames, ?_⟩
  · unfold missing
    split at sendings <;> omega
  · by_cases waits : wait framesPerPacket s = 0
    · left
      unfold missing
      by_cases passed : snapshots * interval ≤ s.realtime
      · have enough : snapshots < n := lt_of_mul_lt_mul_right (passed.trans_lt early) (by omega)
        have warm : warmSnapshots < n := lt_trans (by decide) enough
        have sends : Sends framesPerPacket t := ⟨warm, wait_zero framesPerPacket_pos waits⟩
        rw [if_pos sends] at sendings
        rcases more' with few | few <;> omega
      · split at sendings <;> omega
    · exact .inr waits
  · rintro ⟨interval_le, frameMs_le, _⟩ last limit fits
    have newestIs : n * interval = snapTime + interval := by
      rcases arrived.newest with zero | equal
      · have none : n = 0 := zero
        rw [none, zero_mul] at early
        exact absurd early (not_lt.mpr running.time)
      · exact equal
    have nonneg : 0 ≤ snapTime := arrived.snap_nonneg
    have le : snapTime ≤ s.realtime := arrived.snap_le
    have near : Newest t := ⟨nonneg, le, by change s.realtime ≤ snapTime + 94; omega⟩
    have fits_t : Fits (d + s.frame) t := by
      refine { fits with ints := forall_mem_append ?_ fits.ints }
      intro i member
      have inside := small i member
      have := fits.time
      have := fits.frames
      unfold IsInt
      omega
    have fits_u := sendCmd_fits near fits_t (by omega) framesPerPacket
    have near_u : Newest u := by simpa only [Newest, newest, time] using near
    have near_v : Newest v := by simpa only [Newest, newest', time'] using near_u
    have fits_v := setCGameTime_fits near_v (adjustTimeDelta_fits near_u fits_u)
    have last_v : (setCGameTime v).frame + 1 ≤ 400000 := by
      change v.frame + 1 ≤ 400000
      rw [frame', frame]
      exact last
    have fits_next := nextFrame_fits (s := setCGameTime v) near_v fits_v frameMs_pos frameMs_le last_v (by
      change 0 ≤ v.snapshots * interval ∧ v.snapshots * interval ≤ v.snapTime + 94
      rw [snaps', snaps, newest', newest]
      change 0 ≤ n * interval ∧ n * interval ≤ snapTime + 94
      omega)
    rwa [frames, ← add_assoc]

end Frame

/-! ## The phases -/

/-- The totals after `n` phases. -/
structure Counted (n : ℤ) (s : Sim) : Prop where
  delays : 10 * n ≤ s.delayCount
  trips : n ≤ s.rttCount
  least : 0 < s.rttCount → 0 ≤ s.rttMin

/-- The totals after `n` phases in the ranges of the caller. -/
structure Kept (n : ℤ) (s : Sim) : Prop where
  delays : s.delayCount ≤ 400000 * n
  trips : s.rttCount ≤ s.delayCount
  sum : 0 ≤ s.rttSum ∧ s.rttSum ≤ 94 * s.rttCount
  ints : ∀ i ∈ s.ints, IsInt i

section Phase
variable {interval frameMs framesPerPacket phase n : ℤ} {s : Sim}

theorem startPhase_running (phase_nonneg : 0 ≤ phase) (frameMs_pos : 1 ≤ frameMs) (counted : Counted n s) :
    Running interval s.delayCount s.rttCount (startPhase interval frameMs phase s) := by
  have start : 0 ≤ phase * frameMs / phases := Int.ediv_nonneg (mul_nonneg phase_nonneg (by omega)) (by decide)
  exact ⟨start, le_refl _, le_refl _, le_refl _, start, .inl rfl, le_refl _, (add_zero _).symm, .inl ⟨rfl, rfl, rfl⟩,
    counted.least⟩

theorem startPhase_fits (phase_nonneg : 0 ≤ phase) (phase_lt : phase < 4) (interval_pos : 1 ≤ interval)
    (frameMs_pos : 1 ≤ frameMs) (ranges : InRange interval frameMs framesPerPacket) (nonneg : 0 ≤ n) (early : n < 4)
    (counted : Counted n s) (kept : Kept n s) :
    Fits (s.delayCount + 0) (startPhase interval frameMs phase s) := by
  obtain ⟨interval_le, frameMs_le, _⟩ := ranges
  obtain ⟨many, trips, least⟩ := counted
  obtain ⟨delays, trips', sum, ints⟩ := kept
  have product_nonneg : 0 ≤ phase * frameMs := mul_nonneg phase_nonneg (by omega)
  have product_le : phase * frameMs ≤ 3 * 100 := mul_le_mul (by omega) frameMs_le (by omega) (by decide)
  unfold startPhase phases
  refine ⟨by omega, by simp only; omega, by simp only; omega, by simp only; omega, by simp only; omega,
    by simp only; omega, by simp only; omega, sum, forall_mem_append ?_ ints⟩
  simp only [List.forall_mem_cons, List.not_mem_nil, false_implies, implies_true, and_true, IsInt]
  omega

theorem startPhase_remaining (phase_nonneg : 0 ≤ phase) (interval_pos : 1 ≤ interval) (frameMs_pos : 1 ≤ frameMs)
    (framesPerPacket_pos : 1 ≤ framesPerPacket) (ranges : InRange interval frameMs framesPerPacket) :
    remaining interval framesPerPacket (startPhase interval frameMs phase s) ≤ 400000 := by
  obtain ⟨interval_le, _, framesPerPacket_le⟩ := ranges
  have start : 0 ≤ phase * frameMs / phases := Int.ediv_nonneg (mul_nonneg phase_nonneg (by omega)) (by decide)
  have missing_le : missing interval (startPhase interval frameMs phase s) ≤ 12360 := by
    change (130 * interval - phase * frameMs / phases).toNat + (10 - 0 : ℤ).toNat + (130 - 0 : ℤ).toNat ≤ 12360
    omega
  have short := wait_lt framesPerPacket_pos (startPhase interval frameMs phase s)
  have product := Nat.mul_le_mul missing_le (by omega : framesPerPacket.toNat ≤ 32)
  unfold remaining
  omega

/-- A phase ends with at least ten delays and one round trip more. -/
theorem runPhase_spec (phase_nonneg : 0 ≤ phase) (phase_lt : phase < 4) (interval_pos : 1 ≤ interval)
    (frameMs_pos : 1 ≤ frameMs) (framesPerPacket_pos : 1 ≤ framesPerPacket) (nonneg : 0 ≤ n) (early : n < 4)
    (counted : Counted n s) :
    ∃ next, Ends (fun fuel => runPhase interval frameMs framesPerPacket phase fuel s) next ∧ Counted (n + 1) next ∧
      (InRange interval frameMs framesPerPacket → Kept n s → Kept (n + 1) next) := by
  let Inv (t : Sim) : Prop := Running interval s.delayCount s.rttCount t ∧
    (InRange interval frameMs framesPerPacket → Kept n s →
      Fits (s.delayCount + t.frame) t ∧ t.frame + remaining interval framesPerPacket t ≤ 400000)
  have turn (t : Sim) (inside : Inv t) (more : unfinished t = true) :
      ∃ next, Ends (fun fuel => runFrame interval frameMs framesPerPacket fuel t) next ∧ Inv next ∧
        remaining interval framesPerPacket next < remaining interval framesPerPacket t := by
    obtain ⟨running, fitting⟩ := inside
    obtain ⟨next, ends, kept, less, frames, fits⟩ :=
      runFrame_spec interval_pos frameMs_pos framesPerPacket_pos running more
    refine ⟨next, ends, ⟨kept, ?_⟩, less⟩
    intro ranges initially
    obtain ⟨fits_t, left⟩ := fitting ranges initially
    have := initially.delays
    exact ⟨fits ranges (by omega) (by omega) fits_t, by omega⟩
  have start : Running interval s.delayCount s.rttCount (startPhase interval frameMs phase s) :=
    startPhase_running phase_nonneg frameMs_pos counted
  have starts : Inv (startPhase interval frameMs phase s) := by
    refine ⟨start, ?_⟩
    intro ranges kept
    refine ⟨startPhase_fits phase_nonneg phase_lt interval_pos frameMs_pos ranges nonneg early counted kept, ?_⟩
    have := startPhase_remaining (s := s) phase_nonneg interval_pos frameMs_pos framesPerPacket_pos ranges
    change 0 + (remaining interval framesPerPacket (startPhase interval frameMs phase s) : ℤ) ≤ 400000
    omega
  obtain ⟨result, ends, ⟨running, fitting⟩, done⟩ := loop_ends Inv _ turn _ starts
  have enough : snapshots ≤ result.snapshots ∧ packets ≤ result.packets := by simpa [unfinished] using done
  have sent : 10 ≤ result.packets := enough.2
  have delays := running.delays
  have trips : s.rttCount + 1 ≤ result.rttCount := by
    rcases running.trips with ⟨none, _⟩ | some
    · omega
    · exact some
  obtain ⟨many, received, _⟩ := counted
  refine ⟨result, ends, ⟨by omega, by omega, running.least⟩, ?_⟩
  intro ranges kept
  obtain ⟨fits, left⟩ := fitting ranges kept
  have := kept.delays
  have := fits.delays
  exact ⟨by omega, fits.trips.2, fits.sum, fits.ints⟩

end Phase

section Phases
variable {interval frameMs framesPerPacket : ℤ}

theorem runPhases_spec (interval_pos : 1 ≤ interval) (frameMs_pos : 1 ≤ frameMs)
    (framesPerPacket_pos : 1 ≤ framesPerPacket) (list : List ℤ) (inside : ∀ phase ∈ list, 0 ≤ phase ∧ phase < 4) (n : ℤ)
    (nonneg : 0 ≤ n) (few : n + list.length ≤ 4) (s : Sim) (counted : Counted n s) :
    ∃ next, Ends (fun fuel => runPhases interval frameMs framesPerPacket list fuel s) next ∧
      Counted (n + list.length) next ∧
      (InRange interval frameMs framesPerPacket → Kept n s → Kept (n + list.length) next) := by
  induction list generalizing n s with
  | nil => exact ⟨s, .pure s, by simpa using counted, fun _ kept => by simpa using kept⟩
  | cons phase rest hypothesis =>
    rw [List.length_cons, Nat.cast_succ] at *
    obtain ⟨first, rest_inside⟩ := List.forall_mem_cons.mp inside
    obtain ⟨next, ends, counted', kept'⟩ := runPhase_spec (n := n) first.1 first.2 interval_pos frameMs_pos
      framesPerPacket_pos nonneg (by omega) counted
    obtain ⟨last, ends', counted'', kept''⟩ := hypothesis rest_inside (n + 1) (by omega) (by omega) next counted'
    refine ⟨last, ends.bind ends', ?_, ?_⟩
    · rwa [add_comm (rest.length : ℤ) 1, ← add_assoc]
    · intro ranges kept
      rw [add_comm (rest.length : ℤ) 1, ← add_assoc]
      exact kept'' ranges (kept' ranges kept)

/-- Enough fuel ends both loops, with delays and round trips to divide by; in the ranges of the caller no `int`
overflows. -/
theorem simulateClient_ends (interval_pos : 1 ≤ interval) (frameMs_pos : 1 ≤ frameMs)
    (framesPerPacket_pos : 1 ≤ framesPerPacket) :
    ∃ s, Ends (totals interval frameMs framesPerPacket) s ∧
      Ends (simulateClient interval frameMs framesPerPacket) (told frameMs framesPerPacket s) ∧
      40 ≤ s.delayCount ∧ 4 ≤ s.rttCount ∧ 0 ≤ s.rttMin ∧
      (interval ≤ 94 → frameMs ≤ 100 → framesPerPacket ≤ 32 → ∀ i ∈ s.ints, -2 ^ 31 ≤ i ∧ i < 2 ^ 31) := by
  obtain ⟨s, ends, counted, kept⟩ := runPhases_spec interval_pos frameMs_pos framesPerPacket_pos [0, 1, 2, 3]
    (by decide) 0 (le_refl _) (by decide) fresh ⟨by decide, by decide, by decide⟩
  obtain ⟨delays, trips, least⟩ := counted
  change 10 * 4 ≤ s.delayCount at delays
  change 4 ≤ s.rttCount at trips
  refine ⟨s, ends, ends.map _, delays, trips, least (by omega), ?_⟩
  intro interval_le frameMs_le framesPerPacket_le
  exact (kept ⟨interval_le, frameMs_le, framesPerPacket_le⟩ ⟨by decide, by decide, by decide, by simp [fresh]⟩).ints

theorem simulateClient_ends_fast :
    ∃ s, Ends (totals 50 8 1) s ∧ Ends (simulateClient 50 8 1) (told 8 1 s) ∧
      40 ≤ s.delayCount ∧ 4 ≤ s.rttCount ∧ 0 ≤ s.rttMin ∧ ∀ i ∈ s.ints, -2 ^ 31 ≤ i ∧ i < 2 ^ 31 := by
  obtain ⟨s, ends, ends', delays, trips, least, ints⟩ :=
    simulateClient_ends (by decide : (1 : ℤ) ≤ 50) (by decide : (1 : ℤ) ≤ 8) (by decide : (1 : ℤ) ≤ 1)
  exact ⟨s, ends, ends', delays, trips, least, ints (by decide) (by decide) (by decide)⟩

end Phases

end YbeProxy.SimulateClient
