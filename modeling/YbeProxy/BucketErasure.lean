import YbeProxy.AddressLimit

/-!
# Erased buckets

`AddressAllowed` next to the same limiter with a table from which no bucket is erased. A bucket holds a level and the
moment from which its current second counts. The collector erases a bucket as soon as its level has run out, in the
middle of a second, and the bucket that replaces it starts a second of its own.
-/

namespace YbeProxy.BucketErasure
open YbeProxy.Addresses YbeProxy.Runs YbeProxy.RateLimit YbeProxy.AddressLimit

/-- A request to `AddressAllowed`, with the clock that it reads. -/
structure Arrival where
  sender : Netadr
  now : UInt32
  deriving DecidableEq

def arrive (state : Limits) (arrival : Arrival) : Bool × Limits := addressAllowed state arrival.sender arrival.now

/-- `AddressAllowed` without the collector, and so without the cap that the collector keeps the table under. -/
def arriveKept (buckets : BucketMap) (arrival : Arrival) : Bool × BucketMap :=
  if arrival.sender.type ≠ .naIp then (true, buckets)
  else
    let bucket := (buckets.lookup arrival.sender.ip.key).getD ⟨arrival.now, 0⟩
    let (drop, bucket) := limit bucket 10 1000 arrival.now
    (!drop, buckets.insert arrival.sender.ip.key bucket)

/-- The sender has no bucket, or one that the collector is about to erase. -/
def Absent (state : Limits) (arrival : Arrival) : Prop :=
  arrival.sender.type = .naIp ∧ ∀ bucket ∈ state.buckets.lookup arrival.sender.ip.key,
    1000 < arrival.now - state.lastGC ∧ emptied 1000 arrival.now bucket = true

/-- The table has room for the bucket of a sender that has none. -/
def Room (state : Limits) (arrival : Arrival) : Prop :=
  Absent state arrival → size (collectGarbage state 1000 arrival.now).buckets < maxBuckets

/-- `Limit` would start the bucket anew: more whole seconds have passed than it holds requests. -/
def RunDry (bucket : CodeBucket) (now : UInt32) : Prop :=
  asUnsigned bucket.burst < (now - bucket.lastTime) / 1000

/-- A sender without a bucket never had one, or one that has run dry by now. -/
def ReturnsDry (state : Limits) (buckets : BucketMap) (arrival : Arrival) : Prop :=
  Absent state arrival → ∀ bucket ∈ buckets.lookup arrival.sender.ip.key, RunDry bucket arrival.now

def NeverFull (arrivals : List Arrival) : Prop :=
  AtEach arrive arriveKept (fun state _ arrival => Room state arrival) loaded ∅ arrivals

def AlwaysReturnDry (arrivals : List Arrival) : Prop := AtEach arrive arriveKept ReturnsDry loaded ∅ arrivals

/-- Every request is decided as if no bucket were erased. -/
def Transparent (arrivals : List Arrival) : Prop := trace arrive loaded arrivals = trace arriveKept ∅ arrivals

instance (state : Limits) (arrival : Arrival) : Decidable (Absent state arrival) :=
  inferInstanceAs (Decidable (_ ∧ ∀ bucket ∈ state.buckets.lookup arrival.sender.ip.key, _ ∧ _))

instance (state : Limits) (arrival : Arrival) : Decidable (Room state arrival) := inferInstanceAs (Decidable (_ → _))

instance (bucket : CodeBucket) (now : UInt32) : Decidable (RunDry bucket now) := inferInstanceAs (Decidable (_ < _))

instance (state : Limits) (buckets : BucketMap) (arrival : Arrival) : Decidable (ReturnsDry state buckets arrival) :=
  inferInstanceAs (Decidable (_ → ∀ bucket ∈ buckets.lookup arrival.sender.ip.key, RunDry bucket arrival.now))

instance (arrivals : List Arrival) : Decidable (NeverFull arrivals) :=
  inferInstanceAs (Decidable (AtEach arrive arriveKept (fun state _ arrival => Room state arrival) loaded ∅ arrivals))

instance (arrivals : List Arrival) : Decidable (AlwaysReturnDry arrivals) :=
  inferInstanceAs (Decidable (AtEach arrive arriveKept ReturnsDry loaded ∅ arrivals))

instance (arrivals : List Arrival) : Decidable (Transparent arrivals) := inferInstanceAs (Decidable (_ = _))

/-! ## What is lost with a bucket -/

theorem limit_new (now : UInt32) : limit ⟨now, 0⟩ 10 1000 now = (false, ⟨now, 1⟩) := by
  simp [limit, asUnsigned, asInt]

theorem limit_runDry {bucket : CodeBucket} {now : UInt32} (dry : RunDry bucket now) :
    limit bucket 10 1000 now = limit ⟨now, 0⟩ 10 1000 now := by
  rw [RunDry] at dry
  rw [limit_new, limit]
  simp [dry]

theorem limit_phase {bucket : CodeBucket} {now : UInt32} (early : ¬ RunDry bucket now) :
    (limit bucket 10 1000 now).2.lastTime = now - (now - bucket.lastTime) % 1000 := by
  rw [RunDry] at early
  simp only [limit]
  rw [if_neg early]
  split <;> rfl

/-- A bucket that the collector may erase is replaced without loss exactly when it has run dry: before that, its level
is gone but not the second it is in. -/
theorem limit_emptied_iff {bucket : CodeBucket} {now : UInt32} (few : (asUnsigned bucket.burst).toNat ≤ 10)
    (empty : emptied 1000 now bucket = true) :
    limit bucket 10 1000 now = limit ⟨now, 0⟩ 10 1000 now ↔ RunDry bucket now := by
  constructor
  · intro same
    by_contra early
    have phase : now = now - (now - bucket.lastTime) % 1000 := by
      rw [← limit_phase early, same, limit_new]
    have whole : (now - bucket.lastTime).toNat % 1000 = 0 := by
      have moment := congrArg UInt32.toNat phase
      have := now.toNat_lt
      rw [UInt32.toNat_sub, UInt32.toNat_mod, show (1000 : UInt32).toNat = 1000 from rfl] at moment
      omega
    rw [RunDry, UInt32.lt_iff_toNat_lt, UInt32.toNat_div, show (1000 : UInt32).toNat = 1000 from rfl] at early
    simp only [emptied, decide_eq_true_eq, UInt32.lt_iff_toNat_lt, UInt32.toNat_mul,
      show (1000 : UInt32).toNat = 1000 from rfl] at empty
    rw [Nat.mod_eq_of_lt (by omega)] at empty
    omega
  · exact limit_runDry

/-! ## The simulation -/

/-- Every bucket of the table is the one that is never erased. -/
def Inside (state : Limits) (buckets : BucketMap) : Prop :=
  ∀ key bucket, state.buckets.lookup key = some bucket → buckets.lookup key = some bucket

theorem Inside.collectGarbage {state : Limits} {buckets : BucketMap} (inside : Inside state buckets) (now : UInt32) :
    Inside (collectGarbage state 1000 now) buckets := by
  intro key bucket found
  apply inside
  have sweep := sweep_collectGarbage state key now
  rw [found] at sweep
  generalize state.buckets.lookup key = slot at sweep
  cases sweep with
  | kept => rfl

theorem Inside.insert {state : Limits} {buckets : BucketMap} (inside : Inside state buckets) (key : UInt32)
    (bucket : CodeBucket) :
    Inside { state with buckets := state.buckets.insert key bucket } (buckets.insert key bucket) := by
  intro other found stored
  by_cases own : other = key
  · subst own
    simpa only [AList.lookup_insert] using stored
  · rw [AList.lookup_insert_ne own] at stored ⊢
    exact inside other found stored

theorem absent_of_missing {state : Limits} {arrival : Arrival} (listed : arrival.sender.type = .naIp)
    (missing : (collectGarbage state 1000 arrival.now).buckets.lookup arrival.sender.ip.key = none) :
    Absent state arrival := by
  refine ⟨listed, fun bucket found => ?_⟩
  rw [Option.mem_def] at found
  constructor
  · by_contra early
    rw [collectGarbage, if_neg early, found] at missing
    cases missing
  · have sweep := sweep_collectGarbage state arrival.sender.ip.key arrival.now
    rw [found, missing] at sweep
    cases sweep with
    | erased _ empty => exact empty

/-- The bucket that `AddressAllowed` offers the request to makes of it what the bucket that is never erased does. -/
theorem Inside.limit_fetched {state : Limits} {buckets : BucketMap} {arrival : Arrival} {bucket : CodeBucket}
    (inside : Inside state buckets) (listed : arrival.sender.type = .naIp) (dry : ReturnsDry state buckets arrival)
    (fetched : Fetched (RateLimit.collectGarbage state 1000 arrival.now).buckets arrival.sender.ip.key arrival.now
      bucket) :
    limit bucket 10 1000 arrival.now =
      limit ((buckets.lookup arrival.sender.ip.key).getD ⟨arrival.now, 0⟩) 10 1000 arrival.now := by
  obtain found | ⟨missing, _, rfl⟩ := fetched
  · rw [inside.collectGarbage arrival.now _ _ found]
    rfl
  · cases kept : buckets.lookup arrival.sender.ip.key with
    | none => rfl
    | some old => exact (limit_runDry (dry (absent_of_missing listed missing) old kept)).symm

theorem arrive_simulates (state : Limits) (buckets : BucketMap) (arrival : Arrival) (inside : Inside state buckets)
    (condition : Room state arrival ∧ ReturnsDry state buckets arrival) :
    (arrive state arrival).1 = (arriveKept buckets arrival).1 ∧
      Inside (arrive state arrival).2 (arriveKept buckets arrival).2 := by
  obtain ⟨room, dry⟩ := condition
  rw [arrive, arriveKept]
  by_cases listed : arrival.sender.type = .naIp
  · rw [if_neg (not_not_intro listed)]
    obtain ⟨missing, full, _⟩ | ⟨bucket, fetched, result⟩ := addressAllowed_cases state arrival.now listed
    · exact absurd full (Nat.not_le_of_lt (room (absent_of_missing listed missing)))
    · rw [result, inside.limit_fetched listed dry fetched]
      exact ⟨rfl, (inside.collectGarbage arrival.now).insert _ _⟩
  · rw [addressAllowed_other state arrival.now listed, if_pos listed]
    exact ⟨rfl, inside⟩

/-- The collector is transparent in every run in which the table has room and no address comes back to an erased bucket
before the second in which it emptied is over. -/
theorem arrive_transparent (arrivals : List Arrival) (room : NeverFull arrivals) (dry : AlwaysReturnDry arrivals) :
    Transparent arrivals := by
  apply trace_eq_of_simulates arrive arriveKept Inside arrive_simulates arrivals
  · intro key bucket found
    exact absurd found (by simp [loaded])
  · intro before arrival after split
    exact ⟨room before arrival after split, dry before arrival after split⟩

def firstSender : Netadr := ⟨.naIp, ⟨10, 0, 0, 1⟩, 29070⟩
def secondSender : Netadr := ⟨.naIp, ⟨10, 0, 0, 2⟩, 29070⟩

/-- The bucket that the first sender leaves at 5000 is erased at 6100 and has run dry at 7000. -/
def dryArrivals : List Arrival := [⟨firstSender, 5000⟩, ⟨secondSender, 6100⟩, ⟨firstSender, 7000⟩]

theorem arrive_transparent_dry : Transparent dryArrivals :=
  arrive_transparent dryArrivals (by decide) (by decide)

/-- The same bucket, but the first sender is back at 6200. -/
def earlyArrivals : List Arrival :=
  [⟨firstSender, 5000⟩, ⟨secondSender, 6100⟩] ++ List.replicate 10 ⟨firstSender, 6200⟩ ++ [⟨firstSender, 7000⟩]

/-- Without the collector the second that began at 5000 ends at 7000 and frees a place for the last request. -/
theorem early_refused :
    (earlyArrivals.Pairwise fun a b => a.now ≤ b.now) ∧ NeverFull earlyArrivals ∧ ¬ Transparent earlyArrivals :=
  ⟨by decide, by decide, by decide⟩

end YbeProxy.BucketErasure
