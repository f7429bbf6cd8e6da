import YbeProxy.RoundTrips
import YbeProxy.Windows

/-!
# The net ping

A packet that closes the window stores the smallest round trip that its ring holds of the last four seconds. The ring
has 64 places, so that is the smallest of all of them only where a newer one did not take its place.
-/

namespace YbeProxy.NetPing
open YbeProxy.ClientMessage YbeProxy.UsercmdOrder YbeProxy.NetStatus YbeProxy.NetRuns YbeProxy.RoundTrips YbeProxy.Windows
open YbeProxy.Runs

variable {F : Type}

/-! ## The smallest of the ring -/

/-- One more round trip in the smallest, the number and the sum. -/
def tallyTrip (tally : Int32 × Int32 × Int32) (rtt : Int32) : Int32 × Int32 × Int32 :=
  (if tally.1 < 0 ∨ rtt < tally.1 then rtt else tally.1, tally.2.1 + 1, tally.2.2 + rtt)

/-- The cell of the ring holds a round trip of the last four seconds. -/
def recentCell (e : NetEstimate F) (now : Int32) (i : ℕ) : Bool := e.rttTime i ≠ 0 ∧ now - e.rttTime i ≤ 4000

def recentTrips (e : NetEstimate F) (now : Int32) : List Int32 :=
  ((List.range 64).filter (recentCell e now)).map e.rttValue

theorem recentRoundTrips_eq (e : NetEstimate F) (now : Int32) :
    recentRoundTrips e now = (recentTrips e now).foldl tallyTrip (-1, 0, 0) := by
  rw [recentTrips, List.foldl_map, List.foldl_filter]
  simp only [recentCell, decide_eq_true_eq]
  rfl

theorem recentRoundTrips_congr {a b : NetEstimate F} (times : b.rttTime = a.rttTime) (values : b.rttValue = a.rttValue)
    (now : Int32) : recentRoundTrips b now = recentRoundTrips a now := by
  unfold recentRoundTrips
  rw [times, values]

theorem foldl_tallyTrip_least (trips : List Int32) {tally : Int32 × Int32 × Int32} (known : 0 ≤ tally.1.toInt)
    (valid : ∀ rtt ∈ trips, 0 ≤ rtt.toInt) :
    (trips.foldl tallyTrip tally).1 ∈ tally.1 :: trips ∧
      ∀ rtt ∈ tally.1 :: trips, (trips.foldl tallyTrip tally).1.toInt ≤ rtt.toInt := by
  induction trips generalizing tally with
  | nil => simp
  | cons rtt rest hypothesis =>
    have next : (tallyTrip tally rtt).1 = if rtt < tally.1 then rtt else tally.1 := by
      have not_negative : ¬tally.1 < 0 := by
        rw [Int32.not_lt, Int32.le_iff_toInt_le]
        exact known
      simp only [tallyTrip, not_negative, false_or]
    have positive := valid rtt List.mem_cons_self
    have others : ∀ later ∈ rest, 0 ≤ later.toInt := fun later member => valid later (List.mem_cons_of_mem rtt member)
    rw [List.foldl_cons]
    by_cases smaller : rtt < tally.1
    · rw [if_pos smaller] at next
      obtain ⟨attained, least⟩ := hypothesis (next ▸ positive) others
      rw [next] at attained least
      refine ⟨List.mem_cons_of_mem _ attained, ?_⟩
      rw [List.forall_mem_cons] at least ⊢
      have bound := Int32.lt_iff_toInt_lt.mp smaller
      exact ⟨by omega, List.forall_mem_cons.mpr least⟩
    · rw [if_neg smaller] at next
      obtain ⟨attained, least⟩ := hypothesis (next ▸ known) others
      rw [next] at attained least
      rw [List.forall_mem_cons] at least
      have bound := Int32.le_iff_toInt_le.mp (Int32.not_lt.mp smaller)
      refine ⟨?_, ?_⟩
      · rcases List.mem_cons.mp attained with same | later
        · rw [same]
          exact List.mem_cons_self
        · exact List.mem_cons_of_mem _ (List.mem_cons_of_mem _ later)
      · exact List.forall_mem_cons.mpr ⟨least.1, List.forall_mem_cons.mpr ⟨by omega, least.2⟩⟩

/-- The smallest round trip that the ring tells, which is that of none where no cell is recent. -/
theorem recentRoundTrips_least (e : NetEstimate F) (now : Int32)
    (valid : ∀ rtt ∈ recentTrips e now, 0 ≤ rtt.toInt) :
    recentTrips e now = [] ∧ recentRoundTrips e now = (-1, 0, 0) ∨
      0 ≤ (recentRoundTrips e now).1.toInt ∧ (recentRoundTrips e now).1 ∈ recentTrips e now ∧
        ∀ rtt ∈ recentTrips e now, (recentRoundTrips e now).1.toInt ≤ rtt.toInt := by
  rw [recentRoundTrips_eq]
  cases found : recentTrips e now with
  | nil => exact .inl ⟨rfl, rfl⟩
  | cons rtt rest =>
    rw [found] at valid
    have positive := valid rtt List.mem_cons_self
    have first : (tallyTrip (-1, 0, 0) rtt).1 = rtt := by
      have none : (-1 : Int32) < 0 := by decide
      simp only [tallyTrip, none, true_or, ↓reduceIte]
    have known : 0 ≤ (tallyTrip (-1, 0, 0) rtt).1.toInt := by rwa [first]
    obtain ⟨attained, least⟩ := foldl_tallyTrip_least rest known fun later member =>
      valid later (List.mem_cons_of_mem rtt member)
    rw [first] at attained least
    exact .inr ⟨valid _ attained, attained, least⟩

theorem foldl_tallyTrip_count (trips : List Int32) (tally : Int32 × Int32 × Int32) :
    (trips.foldl tallyTrip tally).2.1 = tally.2.1 + .ofNat trips.length := by
  induction trips generalizing tally with
  | nil => exact (Int32.add_zero _).symm
  | cons rtt rest hypothesis =>
    rw [List.foldl_cons, hypothesis, tallyTrip, List.length_cons, Int32.ofNat_add, Int32.add_assoc, Int32.add_comm 1]
    rfl

/-- Where the ring tells a smallest round trip, it tells how many there are. -/
theorem recentRoundTrips_count (e : NetEstimate F) (now : Int32) (nonempty : recentTrips e now ≠ []) :
    1 ≤ (recentRoundTrips e now).2.1.toInt := by
  have some := List.length_pos_iff.mpr nonempty
  have few : (recentTrips e now).length ≤ 64 := by
    rw [recentTrips, List.length_map]
    exact (List.length_filter_le _ _).trans List.length_range.le
  rw [recentRoundTrips_eq, foldl_tallyTrip_count, Int32.zero_add, Int32.toInt_ofNat_of_lt (by omega)]
  omega

/-! ## The ping of a packet -/

variable (floats : Floats F) (simulateClient : Int32 → Int32 → Int32 → F)

theorem estimateNudge_netPing (svFps now rttMin rttCount rttSum : Int32) (e : NetEstimate F)
    (status : ClientNetStatus F) :
    (estimateNudge floats simulateClient svFps now rttMin rttCount rttSum e status).netPing = status.netPing := by
  unfold estimateNudge
  extract_lets late counted packetsPerSecond hold mean roundTrip interval restart framesPerPacket after delay
  split <;> rfl

theorem closeWindow_netPing (svFps now : Int32) (status : ClientNetStatus F) :
    (closeWindow floats simulateClient svFps now status).netPing =
      if 0 ≤ (recentRoundTrips status.estimate now).1 then (recentRoundTrips status.estimate now).1
      else status.netPing := by
  unfold closeWindow
  extract_lets e
  split
  rename_i rttMin rttCount rttSum told
  extract_lets pinged
  have ping : pinged.netPing = if 0 ≤ rttMin then rttMin else status.netPing := by
    unfold pinged
    split <;> rfl
  rw [told, ← ping]
  split
  · rfl
  · exact estimateNudge_netPing floats simulateClient svFps now _ _ _ e _

/-- A packet that closes the window stores the smallest recent round trip of the ring that it leaves. -/
theorem packetReceived_netPing (clock : ContinuousClock F) (svFps now : Int32) (cl : Client) (cmds : List Usercmd)
    {status : ClientNetStatus F} (closes : Closes status now) :
    let after := packetReceived floats simulateClient clock svFps now cl cmds status
    0 ≤ (recentRoundTrips after.estimate now).1 → after.netPing = (recentRoundTrips after.estimate now).1 := by
  intro after known
  have start := samples_windowStart floats clock cl.messageAcknowledge (newCmds cl.lastUsercmd cmds) now cl.lastUsercmd
    cmds status.estimate
  have late : ¬now - status.estimate.windowStart < 1000 := closes
  have closed : after = closeWindow floats simulateClient svFps now { status with
      estimate := sampleNewest floats clock cl.lastUsercmd cmds now (samplePacket (newCmds cl.lastUsercmd cmds) now
        (sampleRoundTrip cl.messageAcknowledge now status.estimate)) } := by
    simp only [after, packetReceived, start, if_neg late]
  have rings := closeWindow_rings floats simulateClient svFps now { status with
      estimate := sampleNewest floats clock cl.lastUsercmd cmds now (samplePacket (newCmds cl.lastUsercmd cmds) now
        (sampleRoundTrip cl.messageAcknowledge now status.estimate)) }
  rw [closed, recentRoundTrips_congr rings.rttTime rings.rttValue] at known ⊢
  rw [closeWindow_netPing, if_pos known]

/-! ## The smallest of the last four seconds -/

def eventTime : NetEvent F → Int32
  | .sent _ message => message.now
  | .received _ packet => packet.now

/-- Positive times that do not go back. -/
structure Timely (events : List (NetEvent F)) : Prop where
  positive : ∀ event ∈ events, 0 < (eventTime event).toInt
  ordered : events.Pairwise fun a b => (eventTime a).toInt ≤ (eventTime b).toInt

/-- The round trip was recorded in the last four seconds. -/
def InWindow (now : Int32) (trip : RoundTrip) : Prop :=
  now.toInt - 4000 ≤ trip.1.toInt ∧ trip.1.toInt ≤ now.toInt

instance (now : Int32) (trip : RoundTrip) : Decidable (InWindow now trip) := inferInstanceAs (Decidable (_ ∧ _))

/-- The ping is the smallest of the round trips recorded in the last four seconds. -/
def IsSmallest (now : Int32) (history : List RoundTrip) (ping : Int32) : Prop :=
  (∃ trip ∈ history, InWindow now trip ∧ trip.2 = ping) ∧
    ∀ trip ∈ history, InWindow now trip → ping.toInt ≤ trip.2.toInt

/-- No round trip of the last four seconds that 64 newer ones follow is smaller than all of the last 64. -/
def SmallestKept (now : Int32) (history : List RoundTrip) : Prop :=
  ∀ trip ∈ history.drop 64, InWindow now trip →
    ∃ kept ∈ history.take 64, InWindow now kept ∧ kept.2.toInt ≤ trip.2.toInt

instance (now : Int32) (history : List RoundTrip) : Decidable (SmallestKept now history) :=
  inferInstanceAs (Decidable (∀ _ ∈ _, _ → ∃ _ ∈ _, _))

/-- A round trip comes at the time of its packet and is one of at most two seconds. -/
theorem ackStep_trip {acks : AckState} {event : NetEvent F} {trip : RoundTrip}
    (sampled : (ackStep acks event).1 = some trip) :
    trip.1 = eventTime event ∧ 0 ≤ trip.2.toInt ∧ trip.2.toInt ≤ 2000 := by
  cases event with
  | sent clock message => cases sampled
  | received clock packet =>
    rw [ackStep_received] at sampled
    obtain ⟨⟨_, _, lower, upper⟩, same⟩ := Option.ite_none_right_eq_some.mp sampled
    obtain rfl := Option.some.inj same
    exact ⟨rfl, Int32.le_iff_toInt_le.mp lower, Int32.le_iff_toInt_le.mp upper⟩

theorem netTrace_trip {events : List (NetEvent F)} {entry : NetEvent F × Option RoundTrip}
    (member : entry ∈ netTrace floats simulateClient events) {trip : RoundTrip} (sampled : entry.2 = some trip) :
    trip.1 = eventTime entry.1 ∧ 0 ≤ trip.2.toInt ∧ trip.2.toInt ≤ 2000 := by
  rw [netTrace_eq] at member
  obtain ⟨before, after, _, answer⟩ := mem_trace ackStep member
  exact ackStep_trip (answer.symm.trans sampled)

theorem mem_events {events : List (NetEvent F)} {entry : NetEvent F × Option RoundTrip}
    (member : entry ∈ netTrace floats simulateClient events) : entry.1 ∈ events := by
  have place := List.mem_map_of_mem (f := Prod.fst) member
  rwa [netTrace, trace_fst] at place

/-- The round trips of a timely run are positive in time, not negative in length, and the newer ones first. -/
theorem recorded_valid {events : List (NetEvent F)} (timely : Timely events) :
    (∀ trip ∈ recorded (netTrace floats simulateClient events), 0 < trip.1.toInt ∧ 0 ≤ trip.2.toInt) ∧
      (recorded (netTrace floats simulateClient events)).Pairwise fun a b => b.1.toInt ≤ a.1.toInt := by
  constructor
  · intro trip member
    obtain ⟨entry, inside, sampled⟩ := List.mem_filterMap.mp (List.mem_reverse.mp member)
    obtain ⟨time, lower, _⟩ := netTrace_trip floats simulateClient inside sampled
    rw [time]
    exact ⟨timely.positive entry.1 (mem_events floats simulateClient inside), lower⟩
  · rw [recorded, List.pairwise_reverse, List.pairwise_filterMap]
    have ordered := timely.ordered
    rw [← trace_fst (netStep floats simulateClient) (zeroed floats) events, List.pairwise_map] at ordered
    refine ordered.imp_of_mem ?_
    intro a b inside later order trip sampled next resampled
    rw [(netTrace_trip floats simulateClient inside sampled).1, (netTrace_trip floats simulateClient later resampled).1]
    exact order

/-- The recent cells of the ring are the recent ones of the last 64 round trips. -/
theorem mem_recentTrips {history : List RoundTrip} {e : NetEstimate F} (ring : RttRing history e) (now rtt : Int32) :
    rtt ∈ recentTrips e now ↔ ∃ trip ∈ history.take 64, (trip.1 ≠ 0 ∧ now - trip.1 ≤ 4000) ∧ trip.2 = rtt := by
  rw [← ring.shows.exists_cell_iff (by simp)]
  simp only [recentTrips, recentCell, List.mem_map, List.mem_filter, List.mem_range, decide_eq_true_eq, and_assoc]

theorem inWindow_iff {now : Int32} {trip : RoundTrip} (positive : 0 < trip.1.toInt)
    (past : trip.1.toInt ≤ now.toInt) : InWindow now trip ↔ trip.1 ≠ 0 ∧ now - trip.1 ≤ 4000 := by
  have upper := Int32.toInt_lt now
  have seconds : (4000 : Int32).toInt = 4000 := rfl
  have timed : trip.1 ≠ 0 := by
    intro zero
    rw [zero] at positive
    exact absurd positive (by decide)
  rw [InWindow, Int32.le_iff_toInt_le, Int32.toInt_sub, seconds, Int.bmod_eq_of_le (by omega) (by omega)]
  constructor
  · rintro ⟨lower, _⟩
    exact ⟨timed, by omega⟩
  · rintro ⟨_, bound⟩
    omega

/-- The smallest recent round trip of a ring against those of its whole history. -/
theorem smallest_iff {history : List RoundTrip} {e : NetEstimate F} (ring : RttRing history e) {now ping : Int32}
    (valid : ∀ trip ∈ history, 0 < trip.1.toInt ∧ 0 ≤ trip.2.toInt)
    (ordered : history.Pairwise fun a b => b.1.toInt ≤ a.1.toInt) (past : ∀ trip ∈ history, trip.1.toInt ≤ now.toInt)
    (recent : ∃ trip ∈ history, InWindow now trip)
    (stored : 0 ≤ (recentRoundTrips e now).1 → ping = (recentRoundTrips e now).1) :
    IsSmallest now history ping ↔ SmallestKept now history := by
  have window {trip : RoundTrip} (member : trip ∈ history) : InWindow now trip ↔ trip.1 ≠ 0 ∧ now - trip.1 ≤ 4000 :=
    inWindow_iff (valid trip member).1 (past trip member)
  have told {trip : RoundTrip} (newer : trip ∈ history.take 64) (inside : InWindow now trip) :
      trip.2 ∈ recentTrips e now :=
    (mem_recentTrips ring now trip.2).mpr ⟨trip, newer, (window (List.mem_of_mem_take newer)).mp inside, rfl⟩
  have nonempty : recentTrips e now ≠ [] := by
    obtain ⟨trip, member, inside⟩ := recent
    cases history with
    | nil => cases member
    | cons newest rest =>
      have later : trip.1.toInt ≤ newest.1.toInt := by
        rcases List.mem_cons.mp member with rfl | older
        · exact le_refl _
        · exact List.rel_of_pairwise_cons ordered older
      have latest : InWindow now newest := ⟨inside.1.trans later, past newest List.mem_cons_self⟩
      exact List.ne_nil_of_mem (told List.mem_cons_self latest)
  have lengths : ∀ rtt ∈ recentTrips e now, 0 ≤ rtt.toInt := by
    intro rtt member
    obtain ⟨trip, newer, _, rfl⟩ := (mem_recentTrips ring now rtt).mp member
    exact (valid trip (List.mem_of_mem_take newer)).2
  rcases recentRoundTrips_least e now lengths with ⟨none, _⟩ | ⟨positive, attained, least⟩
  · exact absurd none nonempty
  rw [← stored (Int32.le_iff_toInt_le.mpr positive)] at attained least
  obtain ⟨smallest, newer, recently, length⟩ := (mem_recentTrips ring now ping).mp attained
  have inside := (window (List.mem_of_mem_take newer)).mpr recently
  constructor
  · rintro ⟨_, bound⟩ trip older inWindow
    refine ⟨smallest, newer, inside, ?_⟩
    rw [length]
    exact bound trip (List.mem_of_mem_drop older) inWindow
  · intro kept
    refine ⟨⟨smallest, List.mem_of_mem_take newer, inside, length⟩, ?_⟩
    intro trip member inWindow
    rw [← List.take_append_drop 64 history] at member
    rcases List.mem_append.mp member with newer | older
    · exact least trip.2 (told newer inWindow)
    · obtain ⟨other, newer, inWindow, smaller⟩ := kept trip older inWindow
      exact (least other.2 (told newer inWindow)).trans smaller

/-- The ping of a packet that closes the window is the smallest round trip of the last four seconds exactly where one
of the last 64 is as small as every older one. -/
theorem netPing_smallest_iff (events : List (NetEvent F)) (clock : ContinuousClock F) (packet : Packet)
    (timely : Timely (events ++ [.received clock packet]))
    (closes : Closes (netRun floats simulateClient events) packet.now)
    (recent : ∃ trip ∈ recorded (netTrace floats simulateClient (events ++ [.received clock packet])),
      InWindow packet.now trip) :
    IsSmallest packet.now (recorded (netTrace floats simulateClient (events ++ [.received clock packet])))
        (netRun floats simulateClient (events ++ [.received clock packet])).netPing ↔
      SmallestKept packet.now (recorded (netTrace floats simulateClient (events ++ [.received clock packet]))) := by
  have ring := netRun_rtt floats simulateClient (events ++ [.received clock packet])
  obtain ⟨valid, ordered⟩ := recorded_valid floats simulateClient timely
  refine smallest_iff ring valid ordered ?_ recent ?_
  · intro trip member
    obtain ⟨entry, inside, sampled⟩ := List.mem_filterMap.mp (List.mem_reverse.mp member)
    rw [(netTrace_trip floats simulateClient inside sampled).1]
    rcases List.mem_append.mp (mem_events floats simulateClient inside) with before | last
    · exact (List.pairwise_append.mp timely.ordered).2.2 _ before _ (List.mem_singleton_self _)
    · rw [List.mem_singleton.mp last]
      exact le_refl _
  · rw [netRun_concat]
    exact packetReceived_netPing floats simulateClient clock packet.svFps packet.now packet.cl packet.cmds closes

/-- Round trips of 40, of 25 and, at the end of the window, of 60 ms. -/
def calmRun : List (NetEvent ℤ) := [sentAt 1 5000, ackedAt 1 5040, sentAt 2 5100, ackedAt 2 5125, sentAt 3 6020]

theorem netPing_smallest_sample :
    IsSmallest 6080 (recorded (netTrace wholeFloats (fun _ _ _ => 0) (calmRun ++ [ackedAt 3 6080])))
      (netRun wholeFloats (fun _ _ _ => 0) (calmRun ++ [ackedAt 3 6080])).netPing := by
  have closes : Closes (netRun wholeFloats (fun _ _ _ => 0) calmRun) 6080 := by
    rw [Closes, netRun_windowStart]
    decide
  have trips : recorded (netTrace wholeFloats (fun _ _ _ => 0) (calmRun ++ [ackedAt 3 6080])) =
      [(6080, 60), (5125, 25), (5040, 40)] := by
    rw [netTrace_eq]
    decide
  refine (netPing_smallest_iff wholeFloats (fun _ _ _ => 0) calmRun ⟨0, false⟩ (ackAt 3 6080) ⟨by decide, by decide⟩ closes
    ?_).mpr ?_
  · exact ⟨(6080, 60), trips ▸ List.mem_cons_self, by decide⟩
  · exact trips ▸ (by decide : SmallestKept 6080 [(6080, 60), (5125, 25), (5040, 40)])

/-- A message every 30 ms, the first acknowledged after 10 ms and the other ones after 25. -/
def busyRun : List (NetEvent ℤ) :=
  (List.range 67).flatMap (fun k =>
    [sentAt (.ofNat (k + 1)) (.ofNat (1000 + 30 * k)),
      ackedAt (.ofNat (k + 1)) (.ofNat (if k = 0 then 1010 else 1025 + 30 * k))]) ++ [sentAt 68 3010]

/-- The smallest round trip of two seconds, with 67 newer ones. -/
theorem smallest_overwritten :
    Timely (busyRun ++ [ackedAt 68 3035]) ∧ Closes (netRun wholeFloats (fun _ _ _ => 0) busyRun) 3035 ∧
      (∃ trip ∈ recorded (netTrace wholeFloats (fun _ _ _ => 0) (busyRun ++ [ackedAt 68 3035])), InWindow 3035 trip) ∧
      ¬IsSmallest 3035 (recorded (netTrace wholeFloats (fun _ _ _ => 0) (busyRun ++ [ackedAt 68 3035])))
        (netRun wholeFloats (fun _ _ _ => 0) (busyRun ++ [ackedAt 68 3035])).netPing := by
  have closes : Closes (netRun wholeFloats (fun _ _ _ => 0) busyRun) 3035 := by
    rw [Closes, netRun_windowStart]
    decide +kernel
  have ring := netRun_rtt wholeFloats (fun _ _ _ => 0) (busyRun ++ [ackedAt 68 3035])
  have stored := packetReceived_netPing wholeFloats (fun _ _ _ => 0) ⟨0, false⟩ 20 3035 (ackAt 68 3035).cl [] closes
  rw [netTrace_eq] at ring ⊢
  have recent : ∃ trip ∈ recorded (trace ackStep noAcks (busyRun ++ [ackedAt 68 3035])), InWindow 3035 trip := by
    decide +kernel
  refine ⟨⟨by decide +kernel, by decide +kernel⟩, closes, recent, ?_⟩
  rw [netRun_concat] at ring ⊢
  intro smallest
  have kept := (smallest_iff ring (by decide +kernel) (by decide +kernel) (by decide +kernel) recent stored).mp smallest
  exact absurd kept (by decide +kernel)

end YbeProxy.NetPing
