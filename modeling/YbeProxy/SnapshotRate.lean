import YbeProxy.Binary32
import YbeProxy.NetRuns

/-!
# The rate of the snapshots

`GetRates` takes the oldest and the newest of the messages of the last second from values that it starts with: the
clock, and zero. They are neutral only where some message was sent after the clock was zero, and none after it wrapped.
-/

namespace YbeProxy.SnapshotRate
open YbeProxy.NetStatus YbeProxy.NetRuns YbeProxy.Rounding YbeProxy.Binary32

/-- `NetRates`. -/
structure NetRates where
  packets : Int32
  fps : Int32
  snaps : Int32
  rate : Int32

/-- The messages of the last second: how many, their bytes, and the extremes of their times. -/
structure SentTally where
  count : Int32
  bytes : Int32
  oldest : Int32
  newest : Int32

variable {F : Type}

/-- The slot holds a message sent less than 1000 ms before. -/
def counted (e : NetEstimate F) (now : Int32) (i : ℕ) : Bool := e.sentSequence i ≠ 0 && now - e.sentTime i < 1000

/-- The loop over the slots; `messageSize` is that of `client->frames`. -/
def tallySent (e : NetEstimate F) (messageSize : ℕ → Int32) (now : Int32) : SentTally :=
  (List.range 32).foldl (fun tally i =>
    if counted e now i then
      { count := tally.count + 1
        -- 48 bytes of header, as `SV_RateMsec` counts.
        bytes := tally.bytes + (messageSize i + 48)
        oldest := min tally.oldest (e.sentTime i)
        newest := max tally.newest (e.sentTime i) }
    else tally) ⟨0, 0, now, 0⟩

/-- `perSecond`; `mul` is the product of two `float`s. -/
def perSecond (floats : Floats F) (mul : F → F → F) (tally : SentTally) : F :=
  if 2 ≤ tally.count ∧ tally.oldest < tally.newest then
    floats.div (mul (floats.ofInt (tally.count - 1)) (floats.ofInt 1000)) (floats.ofInt (tally.newest - tally.oldest))
  else floats.ofInt tally.count

/-- `GetRates`. -/
def getRates (floats : Floats F) (mul : F → F → F) (e : NetEstimate F) (messageSize : ℕ → Int32) (now : Int32) :
    NetRates :=
  let (packets, fps) := countPackets e now
  let tally := tallySent e messageSize now
  let perSecond := perSecond floats mul tally
  { packets, fps
    snaps := floats.lround perSecond
    rate :=
      if tally.count ≠ 0 then
        floats.lround (mul (floats.div (floats.ofInt tally.bytes) (floats.ofInt tally.count)) perSecond)
      else 0 }

/-! ## The extremes of the times -/

/-- The times of the messages that count. -/
def sentTimes (e : NetEstimate F) (now : Int32) : List Int32 :=
  ((List.range 32).filter (counted e now)).map e.sentTime

/-- The difference of the greatest and the least of some numbers. -/
def spread : List ℤ → ℤ
  | [] => 0
  | a :: rest => rest.foldl max a - rest.foldl min a

/-- The times since the messages were sent. -/
def elapsed (e : NetEstimate F) (now : Int32) : List ℤ := (sentTimes e now).map fun time => (now - time).toInt

/-- The greatest of the times and zero, less the least of the times and the clock. -/
def widened (now : Int32) (times : List Int32) : ℤ :=
  (times.map Int32.toInt).foldl max 0 - (times.map Int32.toInt).foldl min now.toInt

/-- The rate of `n` messages over a span of so many milliseconds. -/
def rateOver (n : ℕ) (span : ℤ) : ℤ := if span = 0 then n else roundAway ((n - 1 : ℤ) * 1000 / span)

/-- The span that `GetRates` divides by, as the difference of two `int`s, or 0 where it takes none. -/
def codeSpan (now : Int32) (times : List Int32) : ℤ :=
  if 0 < widened now times then (widened now times).bmod (2 ^ 32) else 0

theorem foldl_tally (e : NetEstimate F) (messageSize : ℕ → Int32) (slots : List ℕ) (start : SentTally) :
    let tally := slots.foldl (fun (tally : SentTally) i =>
      { count := tally.count + 1
        bytes := tally.bytes + (messageSize i + 48)
        oldest := min tally.oldest (e.sentTime i)
        newest := max tally.newest (e.sentTime i) }) start
    tally.count = start.count + .ofNat slots.length ∧
      tally.oldest.toInt = ((slots.map e.sentTime).map Int32.toInt).foldl min start.oldest.toInt ∧
      tally.newest.toInt = ((slots.map e.sentTime).map Int32.toInt).foldl max start.newest.toInt := by
  induction slots generalizing start with
  | nil => simp
  | cons i rest hypothesis =>
    obtain ⟨count, oldest, newest⟩ := hypothesis
      ⟨start.count + 1, start.bytes + (messageSize i + 48), min start.oldest (e.sentTime i),
        max start.newest (e.sentTime i)⟩
    refine ⟨count.trans ?_, oldest.trans ?_, newest.trans ?_⟩
    · rw [List.length_cons, Int32.ofNat_add, Int32.add_assoc, Int32.add_comm 1]
      rfl
    · rw [toInt_min]
      rfl
    · rw [toInt_max]
      rfl

theorem tallySent_eq (e : NetEstimate F) (messageSize : ℕ → Int32) (now : Int32) :
    (tallySent e messageSize now).count = .ofNat (sentTimes e now).length ∧
      (tallySent e messageSize now).oldest.toInt = ((sentTimes e now).map Int32.toInt).foldl min now.toInt ∧
      (tallySent e messageSize now).newest.toInt = ((sentTimes e now).map Int32.toInt).foldl max 0 := by
  have folded := foldl_tally e messageSize ((List.range 32).filter (counted e now)) ⟨0, 0, now, 0⟩
  rw [List.foldl_filter] at folded
  obtain ⟨count, oldest, newest⟩ := folded
  refine ⟨?_, oldest, newest⟩
  rw [sentTimes, List.length_map]
  exact count.trans (Int32.zero_add _)

/-! ## The rate that the code tells -/

def product (a b : ℚ) : ℚ := single (a * b)

theorem length_sentTimes (e : NetEstimate F) (now : Int32) : (sentTimes e now).length ≤ 32 := by
  rw [sentTimes, List.length_map]
  exact (List.length_filter_le _ _).trans (List.length_range).le

/-- Sixteen bits hold the whole number nearest to a rate. -/
theorem roundAway_rate {n : ℕ} (few : n ≤ 32) (positive : 1 ≤ n) {d : ℤ} (nonzero : d ≠ 0) :
    |roundAway (((n - 1 : ℤ) * 1000 : ℤ) / d)| ≤ 2 ^ 16 := by
  have bound := abs_roundAway_le (((n - 1 : ℤ) * 1000 : ℤ) / d : ℚ)
  have one : (1 : ℚ) ≤ |(d : ℚ)| := by exact_mod_cast Int.one_le_abs nonzero
  have top : |(((n - 1 : ℤ) * 1000 : ℤ) : ℚ)| ≤ 31000 := by
    have whole : |(n - 1 : ℤ) * 1000| ≤ 31000 := by
      rw [abs_le]
      constructor <;> omega
    exact_mod_cast whole
  have quotient : |(((n - 1 : ℤ) * 1000 : ℤ) / d : ℚ)| ≤ 31000 := by
    rw [abs_div, div_le_iff₀ (by linarith)]
    linarith
  have whole : |(roundAway (((n - 1 : ℤ) * 1000 : ℤ) / d) : ℚ)| ≤ 2 ^ 16 := by linarith
  exact_mod_cast whole

theorem toInt_lround {x : ℚ} (small : |roundAway x| ≤ 2 ^ 16) : (binary32.lround x).toInt = roundAway x := by
  rw [abs_le] at small
  change (Int32.ofInt (roundAway x)).toInt = _
  exact Int32.toInt_ofInt_of_le (by omega) (by omega)

/-- The `float` of a count of messages goes back to the count. -/
theorem lround_count {count : Int32} {n : ℕ} (few : n ≤ 32) (number : count.toInt = n) :
    (binary32.lround (binary32.ofInt count)).toInt = n := by
  have exact : roundAway (binary32.ofInt count) = n := by
    change roundAway (single count.toInt) = n
    rw [number, single_intCast (by rw [abs_le]; constructor <;> omega), roundAway_intCast]
  rw [toInt_lround (by rw [exact, abs_le]; constructor <;> omega), exact]

/-- The quotient of the rate goes to the whole number nearest to the exact one. -/
theorem lround_rate {count span : Int32} {n : ℕ} (few : n ≤ 32) (positive : 1 ≤ n) (number : count.toInt = n)
    (nonzero : span.toInt ≠ 0) :
    (binary32.lround (binary32.div (product (binary32.ofInt (count - 1)) (binary32.ofInt 1000))
      (binary32.ofInt span))).toInt = roundAway (((n - 1 : ℤ) * 1000 : ℤ) / span.toInt) := by
  have one : (1 : Int32).toInt = 1 := rfl
  have fewer : (count - 1).toInt = n - 1 := by
    rw [Int32.toInt_sub, number, one, Int.bmod_eq_of_le (by omega) (by omega)]
  have dividend : product (binary32.ofInt (count - 1)) (binary32.ofInt 1000) = ((n - 1 : ℤ) * 1000 : ℤ) := by
    change single (single (count - 1).toInt * single (1000 : Int32).toInt) = _
    rw [fewer, single_intCast (by rw [abs_le]; constructor <;> omega), show (1000 : Int32).toInt = 1000 from rfl,
      single_intCast (by norm_num), ← Int.cast_mul, single_intCast (by rw [abs_le]; constructor <;> omega)]
  have exact : roundAway (binary32.div (product (binary32.ofInt (count - 1)) (binary32.ofInt 1000))
      (binary32.ofInt span)) = roundAway (((n - 1 : ℤ) * 1000 : ℤ) / span.toInt) := by
    rw [dividend]
    exact roundAway_quotient (by omega) (by omega) nonzero
  rw [toInt_lround (by rw [exact]; exact roundAway_rate few positive nonzero), exact]

/-- The rate that `GetRates` tells is the exact one over the span that it divides by. -/
theorem snaps_eq (e : NetEstimate ℚ) (messageSize : ℕ → Int32) (now : Int32) :
    (getRates binary32 product e messageSize now).snaps.toInt =
      if 2 ≤ (sentTimes e now).length then
        rateOver (sentTimes e now).length (codeSpan now (sentTimes e now))
      else (sentTimes e now).length := by
  obtain ⟨count, oldest, newest⟩ := tallySent_eq e messageSize now
  have few := length_sentTimes e now
  have number : (tallySent e messageSize now).count.toInt = (sentTimes e now).length := by
    rw [count, Int32.toInt_ofNat_of_lt (by omega)]
  have wide : (tallySent e messageSize now).newest.toInt - (tallySent e messageSize now).oldest.toInt =
      widened now (sentTimes e now) := by
    rw [oldest, newest, widened]
  have snaps : (getRates binary32 product e messageSize now).snaps =
      binary32.lround (perSecond binary32 product (tallySent e messageSize now)) := by
    unfold getRates
    split
    rfl
  have divides : (2 ≤ (tallySent e messageSize now).count ∧
        (tallySent e messageSize now).oldest < (tallySent e messageSize now).newest) ↔
      2 ≤ (sentTimes e now).length ∧ 0 < widened now (sentTimes e now) := by
    rw [Int32.le_iff_toInt_le, Int32.lt_iff_toInt_lt, show (2 : Int32).toInt = 2 from rfl, number]
    omega
  rw [snaps, perSecond]
  by_cases several : 2 ≤ (sentTimes e now).length
  swap
  · rw [if_neg several, if_neg fun holds => several (divides.mp holds).1, lround_count few number]
  rw [if_pos several, rateOver, codeSpan]
  by_cases apart : 0 < widened now (sentTimes e now)
  swap
  · rw [if_neg apart, if_pos rfl, if_neg fun holds => apart (divides.mp holds).2, lround_count few number]
  have span : ((tallySent e messageSize now).newest - (tallySent e messageSize now).oldest).toInt =
      (widened now (sentTimes e now)).bmod (2 ^ 32) := by
    rw [Int32.toInt_sub, wide]
  have nonzero : (widened now (sentTimes e now)).bmod (2 ^ 32) ≠ 0 := by
    have lower := Int32.le_toInt (tallySent e messageSize now).oldest
    have upper := Int32.toInt_lt (tallySent e messageSize now).newest
    rw [Int.bmod_def]
    split <;> omega
  rw [if_pos apart, if_neg nonzero, if_pos (divides.mpr ⟨several, apart⟩),
    lround_rate few (by omega) number (by rwa [span]), span]
  push_cast
  rfl

/-! ## Exactly the elapsed times -/

theorem foldl_max_greatest (a : ℤ) (l : List ℤ) : l.foldl max a ∈ a :: l ∧ ∀ x ∈ a :: l, x ≤ l.foldl max a :=
  List.max?_eq_some_iff.mp List.max?_cons'

theorem foldl_min_least (a : ℤ) (l : List ℤ) : l.foldl min a ∈ a :: l ∧ ∀ x ∈ a :: l, l.foldl min a ≤ x :=
  List.min?_eq_some_iff.mp List.min?_cons'

/-- The extremes of some numbers tell their spread. -/
theorem spread_eq {l : List ℤ} {least greatest : ℤ} (low : least ∈ l) (high : greatest ∈ l)
    (lower : ∀ x ∈ l, least ≤ x) (upper : ∀ x ∈ l, x ≤ greatest) : spread l = greatest - least := by
  cases l with
  | nil => cases low
  | cons a rest =>
    obtain ⟨top, above⟩ := foldl_max_greatest a rest
    obtain ⟨bottom, below⟩ := foldl_min_least a rest
    rw [spread, le_antisymm (upper _ top) (above _ high), le_antisymm (below _ low) (lower _ bottom)]

theorem spread_of_few {l : List ℤ} (few : l.length < 2) : spread l = 0 := by
  rcases l with _ | ⟨a, _ | ⟨b, rest⟩⟩
  · rfl
  · exact sub_self a
  · rw [List.length_cons, List.length_cons] at few
    omega

/-- The values that the extremes start with are neutral, and no difference of the times wraps. -/
structure Neutral (now : Int32) (times : List Int32) : Prop where
  nonneg : ∃ time ∈ times, 0 ≤ time.toInt
  past : ∃ time ∈ times, time.toInt ≤ now.toInt
  close : ∀ a ∈ now :: times, ∀ b ∈ now :: times, a.toInt - b.toInt < 2 ^ 31

/-- A start that is not past all the times leaves the extreme one of them. -/
theorem exists_newest {times : List Int32} (nonneg : ∃ time ∈ times, 0 ≤ time.toInt) :
    ∃ time ∈ times, time.toInt = (times.map Int32.toInt).foldl max 0 := by
  obtain ⟨late, later, nonneg⟩ := nonneg
  obtain ⟨top, above⟩ := foldl_max_greatest 0 (times.map Int32.toInt)
  rcases List.mem_cons.mp top with zero | inside
  · exact ⟨late, later,
      le_antisymm (above _ (List.mem_cons_of_mem 0 (List.mem_map_of_mem later))) (zero.le.trans nonneg)⟩
  · exact List.mem_map.mp inside

theorem exists_oldest {now : Int32} {times : List Int32} (past : ∃ time ∈ times, time.toInt ≤ now.toInt) :
    ∃ time ∈ times, time.toInt = (times.map Int32.toInt).foldl min now.toInt := by
  obtain ⟨early, earlier, past⟩ := past
  obtain ⟨bottom, below⟩ := foldl_min_least now.toInt (times.map Int32.toInt)
  rcases List.mem_cons.mp bottom with same | inside
  · exact ⟨early, earlier,
      le_antisymm (past.trans same.ge) (below _ (List.mem_cons_of_mem _ (List.mem_map_of_mem earlier)))⟩
  · exact List.mem_map.mp inside

theorem codeSpan_of_neutral {e : NetEstimate F} {now : Int32} (neutral : Neutral now (sentTimes e now)) :
    codeSpan now (sentTimes e now) = spread (elapsed e now) := by
  obtain ⟨⟨late, later, nonneg⟩, ⟨early, earlier, past⟩, close⟩ := neutral
  obtain ⟨_, above⟩ := foldl_max_greatest 0 ((sentTimes e now).map Int32.toInt)
  obtain ⟨_, below⟩ := foldl_min_least now.toInt ((sentTimes e now).map Int32.toInt)
  have listed {time : Int32} (member : time ∈ sentTimes e now) : time.toInt ∈ (sentTimes e now).map Int32.toInt :=
    List.mem_map_of_mem member
  obtain ⟨newest, newer, latest⟩ := exists_newest ⟨late, later, nonneg⟩
  obtain ⟨oldest, older, first⟩ := exists_oldest ⟨early, earlier, past⟩
  rw [← latest] at above
  rw [← first] at below
  have exact {time : Int32} (member : time ∈ sentTimes e now) : (now - time).toInt = now.toInt - time.toInt := by
    have after := close now List.mem_cons_self time (List.mem_cons_of_mem now member)
    have before := close time (List.mem_cons_of_mem now member) now List.mem_cons_self
    rw [Int32.toInt_sub, Int.bmod_eq_of_le (by omega) (by omega)]
  have spans : spread (elapsed e now) = (now.toInt - oldest.toInt) - (now.toInt - newest.toInt) := by
    apply spread_eq
    · exact exact newer ▸ List.mem_map_of_mem (f := fun time => (now - time).toInt) newer
    · exact exact older ▸ List.mem_map_of_mem (f := fun time => (now - time).toInt) older
    · intro x member
      obtain ⟨time, inside, rfl⟩ := List.mem_map.mp member
      have bound := above _ (List.mem_cons_of_mem 0 (listed inside))
      rw [exact inside]
      omega
    · intro x member
      obtain ⟨time, inside, rfl⟩ := List.mem_map.mp member
      have bound := below _ (List.mem_cons_of_mem _ (listed inside))
      rw [exact inside]
      omega
  have order := above _ (List.mem_cons_of_mem 0 (listed older))
  have near := close newest (List.mem_cons_of_mem now newer) oldest (List.mem_cons_of_mem now older)
  have wide : widened now (sentTimes e now) = newest.toInt - oldest.toInt := by rw [widened, ← latest, ← first]
  rw [codeSpan, wide, spans]
  split
  · rw [Int.bmod_eq_of_le (by omega) (by omega)]
    omega
  · omega

/-- A difference of two `int`s is the exact one, or wraps once. -/
theorem toInt_sub_cases (a b : Int32) :
    ((a - b).toInt = a.toInt - b.toInt ∧ -2 ^ 31 ≤ a.toInt - b.toInt ∧ a.toInt - b.toInt < 2 ^ 31) ∨
      ((a - b).toInt = a.toInt - b.toInt - 2 ^ 32 ∧ 2 ^ 31 ≤ a.toInt - b.toInt) ∨
      ((a - b).toInt = a.toInt - b.toInt + 2 ^ 32 ∧ a.toInt - b.toInt < -2 ^ 31) := by
  have aLow := a.le_toInt
  have aHigh := a.toInt_lt
  have bLow := b.le_toInt
  have bHigh := b.toInt_lt
  rw [Int32.toInt_sub, Int.bmod_def]
  split <;> omega

theorem spread_extremes {l : List ℤ} (nonempty : l ≠ []) :
    ∃ least ∈ l, ∃ greatest ∈ l, (∀ x ∈ l, least ≤ x ∧ x ≤ greatest) ∧ spread l = greatest - least := by
  cases l with
  | nil => exact absurd rfl nonempty
  | cons a rest =>
    obtain ⟨top, above⟩ := foldl_max_greatest a rest
    obtain ⟨bottom, below⟩ := foldl_min_least a rest
    exact ⟨_, bottom, _, top, fun x member => ⟨below x member, above x member⟩, rfl⟩

/-- Where the extremes do not start neutral, or a difference wraps, the code takes another span than that of the elapsed
times. -/
theorem neutral_of_codeSpan {e : NetEstimate F} {now : Int32} (nonempty : sentTimes e now ≠ [])
    (same : codeSpan now (sentTimes e now) = spread (elapsed e now)) : Neutral now (sentTimes e now) := by
  obtain ⟨top, above⟩ := foldl_max_greatest 0 ((sentTimes e now).map Int32.toInt)
  obtain ⟨bottom, below⟩ := foldl_min_least now.toInt ((sentTimes e now).map Int32.toInt)
  have newestTime := @exists_newest (sentTimes e now)
  have oldestTime := @exists_oldest now (sentTimes e now)
  rw [codeSpan, widened] at same
  generalize ((sentTimes e now).map Int32.toInt).foldl max 0 = newest at *
  generalize ((sentTimes e now).map Int32.toInt).foldl min now.toInt = oldest at *
  have least {time : Int32} (member : time ∈ sentTimes e now) : oldest ≤ time.toInt :=
    below _ (List.mem_cons_of_mem _ (List.mem_map_of_mem member))
  have greatest {time : Int32} (member : time ∈ sentTimes e now) : time.toInt ≤ newest :=
    above _ (List.mem_cons_of_mem _ (List.mem_map_of_mem member))
  have clock := below now.toInt List.mem_cons_self
  have zero := above 0 List.mem_cons_self
  obtain ⟨_, lateMember, _, earlyMember, between, spans⟩ := @spread_extremes (elapsed e now) (by simpa [elapsed] using nonempty)
  obtain ⟨late, later, rfl⟩ := List.mem_map.mp lateMember
  obtain ⟨early, earlier, rfl⟩ := List.mem_map.mp earlyMember
  have low : -2 ^ 31 ≤ oldest := by
    rcases List.mem_cons.mp bottom with rfl | inside
    · exact now.le_toInt
    · obtain ⟨time, _, rfl⟩ := List.mem_map.mp inside
      exact time.le_toInt
  have high : newest < 2 ^ 31 := by
    rcases List.mem_cons.mp top with rfl | inside
    · norm_num
    · obtain ⟨time, _, rfl⟩ := List.mem_map.mp inside
      exact time.toInt_lt
  have order := (between _ lateMember).2
  have notBefore := least earlier
  have notAfter := greatest earlier
  -- A span that wraps is negative, which that of the elapsed times is not.
  have span : newest - oldest < 2 ^ 31 ∧ newest - oldest = (now - early).toInt - (now - late).toInt := by
    rw [spans] at same
    split at same
    · rw [Int.bmod_def] at same
      split at same <;> omega
    · omega
  obtain ⟨short, spans⟩ := span
  have nonneg : ∃ time ∈ sentTimes e now, 0 ≤ time.toInt := by
    rcases List.mem_cons.mp top with rfl | inside
    · by_contra none
      simp only [not_exists, not_and, not_le] at none
      have before := none late later
      have before' := none early earlier
      have bound := least later
      have start := toInt_sub_cases now early
      have stop := toInt_sub_cases now late
      omega
    · obtain ⟨time, member, rfl⟩ := List.mem_map.mp inside
      exact ⟨time, member, zero⟩
  have past : ∃ time ∈ sentTimes e now, time.toInt ≤ now.toInt := by
    rcases List.mem_cons.mp bottom with rfl | inside
    · by_contra none
      simp only [not_exists, not_and, not_le] at none
      have after := none late later
      have after' := none early earlier
      have bound := greatest later
      have start := toInt_sub_cases now early
      have stop := toInt_sub_cases now late
      omega
    · obtain ⟨time, member, rfl⟩ := List.mem_map.mp inside
      exact ⟨time, member, clock⟩
  obtain ⟨last, lastMember, rfl⟩ := newestTime nonneg
  obtain ⟨first, firstMember, rfl⟩ := oldestTime past
  have passed {time : Int32} (member : time ∈ sentTimes e now) :
      (now - late).toInt ≤ (now - time).toInt ∧ (now - time).toInt ≤ (now - early).toInt :=
    between _ (List.mem_map_of_mem (f := fun time => (now - time).toInt) member)
  have near : now.toInt - first.toInt < 2 ^ 31 := by
    have start := toInt_sub_cases now first
    have stop := toInt_sub_cases now last
    have range := passed firstMember
    have range' := passed lastMember
    have most := now.toInt_lt
    omega
  refine ⟨nonneg, past, ?_⟩
  simp only [List.forall_mem_cons]
  refine ⟨⟨by omega, fun b member => ?_⟩, fun a member => ⟨?_, fun b other => ?_⟩⟩
  · have bound := least member
    omega
  · have bound := greatest member
    omega
  · have bound := greatest member
    have bound' := least other
    omega

/-- The times after the clock moved. -/
def shifted (shift : Int32) (e : NetEstimate F) : NetEstimate F :=
  { e with sentTime := fun i => e.sentTime i + shift }

theorem elapsed_shifted (shift : Int32) (e : NetEstimate F) (now : Int32) :
    elapsed (shifted shift e) (now + shift) = elapsed e now := by
  have same (i : ℕ) : now + shift - (e.sentTime i + shift) = now - e.sentTime i := by grind
  have slots : counted (shifted shift e) (now + shift) = counted e now := by
    funext i
    rw [counted, counted, shifted, same]
  rw [elapsed, elapsed, sentTimes, sentTimes, slots, List.map_map, List.map_map]
  apply List.map_congr_left
  intro i member
  exact congrArg Int32.toInt (same i)

/-- `GetRates` tells the rate of the elapsed times, which moving the clock does not change, where it needs no span or the
extremes start neutral, and only there it divides by their span. Another span may still round to the same rate. -/
theorem snaps_of_neutral (e : NetEstimate ℚ) (messageSize : ℕ → Int32) (now : Int32) :
    ((elapsed e now).length < 2 ∨ Neutral now (sentTimes e now) →
      (getRates binary32 product e messageSize now).snaps.toInt =
        rateOver (elapsed e now).length (spread (elapsed e now))) ∧
      (2 ≤ (elapsed e now).length →
        (codeSpan now (sentTimes e now) = spread (elapsed e now) ↔ Neutral now (sentTimes e now))) ∧
      ∀ shift, elapsed (shifted shift e) (now + shift) = elapsed e now := by
  have same : (elapsed e now).length = (sentTimes e now).length := List.length_map _
  refine ⟨?_, ?_, fun shift => elapsed_shifted shift e now⟩
  · rw [snaps_eq, same]
    by_cases several : 2 ≤ (sentTimes e now).length
    · rw [if_pos several]
      rintro (few | neutral)
      · omega
      · rw [codeSpan_of_neutral neutral]
    · have flat : spread (elapsed e now) = 0 := spread_of_few (by omega)
      rw [if_neg several, flat]
      exact fun _ => rfl
  · intro several
    exact ⟨neutral_of_codeSpan (List.ne_nil_of_length_pos (by omega)), codeSpan_of_neutral⟩

/-- Two messages, sent at two times. -/
def twoSent (first second : Int32) : NetEstimate ℚ :=
  { (zeroed binary32).estimate with
    sentTime := Function.update (Function.update (fun _ => 0) 1 first) 2 second
    sentSequence := Function.update (Function.update (fun _ => 0) 1 1) 2 2 }

theorem snaps_of_neutral_sample :
    (getRates binary32 product (twoSent 9100 9600) (fun _ => 0) 10000).snaps.toInt = 2 := by
  have neutral : Neutral 10000 (sentTimes (twoSent 9100 9600) 10000) := by
    have times : sentTimes (twoSent 9100 9600) 10000 = [9100, 9600] := by decide +kernel
    rw [times]
    exact ⟨⟨9100, by decide, by decide⟩, ⟨9100, by decide, by decide⟩, by
      simp only [List.forall_mem_cons, List.not_mem_nil, false_implies, implies_true, and_true]
      decide⟩
  rw [(snaps_of_neutral (twoSent 9100 9600) (fun _ => 0) 10000).1 (.inr neutral)]
  decide +kernel

/-- Half a second apart: two snapshots in a second, unless the clock is negative. -/
theorem negative_clock_no_snaps :
    (getRates binary32 product (twoSent 9100 9600) (fun _ => 0) 10000).snaps.toInt = 2 ∧
      rateOver (elapsed (twoSent (-9100) (-8600)) (-8200)).length (spread (elapsed (twoSent (-9100) (-8600)) (-8200))) = 2 ∧
      (getRates binary32 product (twoSent (-9100) (-8600)) (fun _ => 0) (-8200)).snaps.toInt = 0 := by
  rw [snaps_eq, snaps_eq]
  decide +kernel

end YbeProxy.SnapshotRate
