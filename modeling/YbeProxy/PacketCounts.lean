import YbeProxy.NetRuns

/-!
# The packets of the last second

`CountPackets` walks the ring of packets back from the newest one and stops at the first that is a second old. Its test
is a difference of two `int` clocks, which wraps where they lie 2^31 ms apart.
-/

namespace YbeProxy.PacketCounts
open YbeProxy.ClientMessage YbeProxy.UsercmdOrder YbeProxy.NetStatus YbeProxy.NetRuns

/-! ## Walks that stop -/

section Walks
variable {α : Type} (p q : α → Bool)

/-- The elements that a walk looks at: those that pass, and the first one that does not. -/
def examined : List α → List α
  | [] => []
  | a :: rest => if q a then a :: examined rest else [a]

/-- Two walks take the same elements exactly if their tests agree where one of them looks. -/
theorem takeWhile_eq_iff (l : List α) : l.takeWhile p = l.takeWhile q ↔ ∀ a ∈ examined q l, p a = q a := by
  induction l with
  | nil => simp [examined]
  | cons a rest hypothesis =>
    rw [examined, List.takeWhile_cons, List.takeWhile_cons]
    cases passes : q a with
    | true =>
      cases agrees : p a with
      | true => simp [hypothesis, agrees, passes]
      | false => simp [agrees, passes]
    | false =>
      cases agrees : p a with
      | true => simp [agrees, passes]
      | false => simp [agrees, passes]

theorem mem_of_mem_examined {l : List α} {a : α} (member : a ∈ examined q l) : a ∈ l := by
  induction l with
  | nil => cases member
  | cons b rest hypothesis =>
    rw [examined] at member
    split at member
    · rcases List.mem_cons.mp member with rfl | later
      · exact List.mem_cons_self
      · exact List.mem_cons_of_mem b (hypothesis later)
    · obtain rfl := List.mem_singleton.mp member
      exact List.mem_cons_self

/-- Two walks along one list that take as many elements take the same ones. -/
theorem takeWhile_eq_of_length {l : List α} (same : (l.takeWhile p).length = (l.takeWhile q).length) :
    l.takeWhile p = l.takeWhile q := by
  have inside : l.takeWhile p <+: l.takeWhile q :=
    List.prefix_of_prefix_length_le (List.takeWhile_prefix p) (List.takeWhile_prefix q) same.le
  exact inside.eq_of_length same

variable {q}

/-- In an order that the test goes along, a walk takes all that pass. -/
theorem takeWhile_eq_filter {l : List α} (ordered : l.Pairwise fun a b => q b = true → q a = true) :
    l.takeWhile q = l.filter q := by
  induction l with
  | nil => rfl
  | cons a rest hypothesis =>
    obtain ⟨first, tail⟩ := List.pairwise_cons.mp ordered
    cases passes : q a with
    | true => rw [List.takeWhile_cons_of_pos passes, List.filter_cons_of_pos passes, hypothesis tail]
    | false =>
      have none : rest.filter q = [] := by
        apply List.filter_eq_nil_iff.mpr
        intro b member later
        rw [first b member later] at passes
        cases passes
      rw [List.takeWhile_cons_of_neg (by simp [passes]), List.filter_cons_of_neg (by simp [passes]), none]

end Walks

/-! ## What the walk counts -/

/-- The number of some packets, and the sum of their usercmds. -/
def tally (run : List (Int32 × Int32)) : Int32 × Int32 := (.ofNat run.length, (run.map Prod.snd).sum)

theorem foldl_tally (run : List (Int32 × Int32)) (count sum : Int32) :
    run.foldl (fun (counted : Int32 × Int32) packet => (counted.1 + 1, counted.2 + packet.2)) (count, sum) =
      (count + (tally run).1, sum + (tally run).2) := by
  induction run generalizing count sum with
  | nil => simp [tally]
  | cons packet rest hypothesis =>
    rw [List.foldl_cons, hypothesis]
    simp only [tally, List.length_cons, List.map_cons, List.sum_cons, Int32.ofNat_add, Int32.add_assoc]
    rw [Int32.add_comm 1]
    rfl

theorem tally_takeWhile_eq_iff (p q : Int32 × Int32 → Bool) {run : List (Int32 × Int32)} (few : run.length ≤ 1024) :
    tally (run.takeWhile p) = tally (run.takeWhile q) ↔ run.takeWhile p = run.takeWhile q := by
  have bound (test : Int32 × Int32 → Bool) : (run.takeWhile test).length ≤ 1024 :=
    (List.takeWhile_prefix test).length_le.trans few
  constructor
  · intro same
    have lengths := congrArg (fun counted => counted.1.toInt) same
    have one := bound p
    have other := bound q
    simp only [tally] at lengths
    rw [Int32.toInt_ofNat_of_lt (by omega), Int32.toInt_ofNat_of_lt (by omega)] at lengths
    exact takeWhile_eq_of_length p q (by omega)
  · intro same
    rw [same]

/-- The test of the walk. -/
def counts (now : Int32) (packet : Int32 × Int32) : Bool := packet.1 ≠ 0 && now - packet.1 < 1000

/-- `(packetIndex - n + PacketSamples) % PacketSamples`. -/
theorem place_toInt {i : Int32} (inside : InRing NetEstimate.packetSamples i) {n : ℕ} (young : n < 1024) :
    ((i - (.ofNat n + 1) + NetEstimate.packetSamples) % NetEstimate.packetSamples).toInt =
      RingBuffer.place 1024 (index i) n := by
  obtain ⟨lower, upper⟩ := inside
  have size : NetEstimate.packetSamples.toInt = 1024 := rfl
  have one : (1 : Int32).toInt = 1 := rfl
  rw [size] at upper
  have steps : (Int32.ofNat n + 1).toInt = n + 1 := by
    rw [Int32.toInt_add, one, Int32.toInt_ofNat_of_lt (by omega), Int.bmod_eq_of_le (by omega) (by omega)]
  have back : (i - (Int32.ofNat n + 1)).toInt = i.toInt - (n + 1) := by
    rw [Int32.toInt_sub, steps, Int.bmod_eq_of_le (by omega) (by omega)]
  have round : (i - (Int32.ofNat n + 1) + NetEstimate.packetSamples).toInt = i.toInt + (1023 - n) := by
    rw [Int32.toInt_add, back, size, Int.bmod_eq_of_le (by omega) (by omega)]
    omega
  rw [Int32.toInt_mod, round, size, Int.tmod_eq_emod_of_nonneg (by omega), index, RingBuffer.place]
  omega

theorem place_index {i : Int32} (inside : InRing NetEstimate.packetSamples i) {n : ℕ} (young : n < 1024) :
    index ((i - (.ofNat n + 1) + NetEstimate.packetSamples) % NetEstimate.packetSamples) =
      RingBuffer.place 1024 (index i) n := by
  rw [index, place_toInt inside young, Int.toNat_natCast]

variable {F : Type} {history : List (Int32 × Int32)} {e : NetEstimate F}

theorem takeWhile_blank (now : Int32) (history : List (Int32 × Int32)) (size : ℕ) :
    ((history ++ List.replicate size (0, 0)).take size).takeWhile (counts now) =
      (history.take size).takeWhile (counts now) := by
  rw [List.take_append, List.takeWhile_append]
  split
  · rw [List.take_replicate, List.takeWhile_replicate, if_neg (by simp [counts]), List.append_nil]
    rename_i all
    exact ((List.takeWhile_prefix _).eq_of_length all).symm
  · rfl

/-- The walk counts the newest packets up to the first that its test stops at. -/
theorem countPackets_eq (ring : PacketRing history e) (now : Int32) :
    countPackets e now = tally ((history.take 1024).takeWhile (counts now)) := by
  have cells : (List.range 1024).map (fun n => index
        ((e.packetIndex - (.ofNat n + 1) + NetEstimate.packetSamples) % NetEstimate.packetSamples)) =
      (List.range 1024).map (RingBuffer.place 1024 (index e.packetIndex)) := by
    apply List.map_congr_left
    intro n member
    exact place_index ring.inside (List.mem_range.mp member)
  have walk : ((List.range 1024).map (RingBuffer.place 1024 (index e.packetIndex))).map
      (fun i => (e.packetTime i, e.packetCmds i)) = (history ++ List.replicate 1024 (0, 0)).take 1024 := by
    rw [List.map_map]
    exact ring.shows.walk
  have counted := foldl_tally ((history.take 1024).takeWhile (counts now)) 0 0
  rw [← takeWhile_blank, ← walk, List.takeWhile_map, List.foldl_map, Int32.zero_add, Int32.zero_add] at counted
  rw [← takeWhile_blank, ← walk, List.takeWhile_map, ← cells]
  rw [← cells] at counted
  unfold countPackets
  rw [show NetEstimate.packetSamples.toInt.toNat = 1024 from rfl]
  generalize (List.range 1024).map _ = spots at counted ⊢
  exact counted

/-! ## Exactly the last second -/

/-- The packet is less than 1000 ms before `now`, or after it. -/
def inLastSecond (now : Int32) (packet : Int32 × Int32) : Bool := now.toInt - packet.1.toInt < 1000

/-- The `int` difference of two clocks is on the same side of 1000 as that of the times. -/
def InReach (now time : Int32) : Prop :=
  now.toInt - time.toInt < 2 ^ 31 ∧ (-2 ^ 31 ≤ now.toInt - time.toInt ∨ now.toInt - time.toInt < 1000 - 2 ^ 32)

instance (now time : Int32) : Decidable (InReach now time) := inferInstanceAs (Decidable (_ ∧ _))

theorem counts_eq_iff (now : Int32) {packet : Int32 × Int32} (timed : packet.1 ≠ 0) :
    counts now packet = inLastSecond now packet ↔ InReach now packet.1 := by
  have lower := Int32.le_toInt now
  have upper := Int32.toInt_lt now
  have earliest := Int32.le_toInt packet.1
  have latest := Int32.toInt_lt packet.1
  have second : (1000 : Int32).toInt = 1000 := rfl
  rw [counts, inLastSecond, decide_eq_true timed, Bool.true_and, decide_eq_decide, Int32.lt_iff_toInt_lt, second,
    Int32.toInt_sub, InReach, Int.bmod_def]
  split <;> omega

/-- The newest packets first, each at or after the one before it. -/
def InOrder (history : List (Int32 × Int32)) : Prop := history.Pairwise fun a b => b.1.toInt ≤ a.1.toInt

instance (history : List (Int32 × Int32)) : Decidable (InOrder history) := inferInstanceAs (Decidable (List.Pairwise _ _))

/-- The packets of the last second, or the newest 1024 of them. -/
def lastSecond (now : Int32) (history : List (Int32 × Int32)) : List (Int32 × Int32) :=
  (history.filter (inLastSecond now)).take 1024

theorem lastSecond_eq (now : Int32) (ordered : InOrder history) :
    lastSecond now history = (history.take 1024).takeWhile (inLastSecond now) := by
  have closed : history.Pairwise fun a b => inLastSecond now b = true → inLastSecond now a = true := by
    refine ordered.imp ?_
    intro a b older recent
    have bound := of_decide_eq_true recent
    exact decide_eq_true (by omega)
  rw [lastSecond, ← takeWhile_eq_filter closed, List.take_takeWhile]

variable (floats : Floats F) (simulateClient : Int32 → Int32 → Int32 → F)

/-- `CountPackets` counts the last second exactly where none of the packets that it has to look at, the newest 1024 as
far as the first that is a second old, has a time that the difference of the clocks wraps at. -/
theorem countPackets_exact_iff (events : List (NetEvent F)) (now : Int32) (ordered : InOrder (packets events))
    (timed : ∀ packet ∈ packets events, packet.1 ≠ 0) :
    countPackets (netRun floats simulateClient events).estimate now = tally (lastSecond now (packets events)) ↔
      ∀ packet ∈ examined (inLastSecond now) ((packets events).take 1024), InReach now packet.1 := by
  have few : ((packets events).take 1024).length ≤ 1024 := List.length_take_le 1024 _
  rw [countPackets_eq (netRun_packets floats simulateClient events), lastSecond_eq now ordered,
    tally_takeWhile_eq_iff _ _ few, takeWhile_eq_iff]
  refine forall₂_congr ?_
  intro packet member
  exact counts_eq_iff now (timed packet (List.mem_of_mem_take (mem_of_mem_examined _ member)))

/-- A packet at a time, with one new usercmd. -/
def packetAt (now : Int32) : NetEvent ℤ :=
  .received ⟨0, false⟩ ⟨20, now, sampleClient, [{ Usercmd.null with serverTime := 110 }]⟩

theorem countPackets_exact_recent :
    countPackets (netRun wholeFloats (fun _ _ _ => 0) [packetAt 3000, packetAt 4600, packetAt 5000]).estimate 5500 =
      tally (lastSecond 5500 (packets [packetAt 3000, packetAt 4600, packetAt 5000])) :=
  (countPackets_exact_iff wholeFloats (fun _ _ _ => 0) [packetAt 3000, packetAt 4600, packetAt 5000] 5500 (by decide)
    (by decide)).mpr (by decide)

/-- A packet from 3 000 000 seconds before is counted among those of the last second. -/
theorem old_packet_counted :
    let events := [packetAt (-2000000000)]
    InOrder (packets events) ∧ (∀ packet ∈ packets events, packet.1 ≠ 0) ∧ lastSecond 1000000000 (packets events) = [] ∧
      (countPackets (netRun wholeFloats (fun _ _ _ => 0) events).estimate 1000000000).1 = 1 := by
  intro events
  refine ⟨by decide, by decide, by decide, ?_⟩
  rw [countPackets_eq (netRun_packets wholeFloats (fun _ _ _ => 0) events)]
  decide

end YbeProxy.PacketCounts
