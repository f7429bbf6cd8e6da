import YbeProxy.Addresses
import YbeProxy.LeakyBucket
import YbeProxy.Runs
import Mathlib.Data.List.AList

/-!
# Out-of-band rate limits

The limiters of `Engine/RateLimit.cpp`: a table with one leaky bucket for each IPv4 address, and the global buckets of
`getstatus`/`getinfo` and of `rcon` with a bad password. The lines printed with `developer 1` are left out.
-/

namespace YbeProxy.RateLimit
open YbeProxy.Strings YbeProxy.Addresses YbeProxy.LeakyBucket YbeProxy.Runs

/-- `LeakyBucket`. -/
structure CodeBucket where
  lastTime : UInt32
  burst : Int
  deriving DecidableEq

/-- The conversion of an `int` to `unsigned int`. -/
def asUnsigned (i : Int) : UInt32 := .ofNat (i % 4294967296).toNat
def asInt (u : UInt32) : Int := if u.toNat < 2147483648 then u.toNat else u.toNat - 4294967296

/-- `Limit`: true when the request must be dropped. -/
def limit (bucket : CodeBucket) (burst : Int) (period now : UInt32) : Bool × CodeBucket :=
  let interval := now - bucket.lastTime
  let expired := interval / period
  let drained : CodeBucket :=
    if asUnsigned bucket.burst < expired then ⟨now, 0⟩
    else ⟨now - interval % period, bucket.burst - asInt expired⟩
  if drained.burst < burst then (false, { drained with burst := drained.burst + 1 }) else (true, drained)

/-- `std::map<uint32_t, LeakyBucket>`: every key at most once. -/
abbrev BucketMap := AList fun _ : UInt32 => CodeBucket

def size (buckets : BucketMap) : Nat := buckets.entries.length

def keep (test : CodeBucket → Bool) (buckets : BucketMap) : BucketMap :=
  ⟨buckets.entries.filter fun entry => test entry.2, buckets.nodupKeys.sublist List.filter_sublist⟩

def maxBuckets : Nat := 65536

structure Limits where
  buckets : BucketMap
  lastGC : UInt32
  outbound : CodeBucket
  badPassword : CodeBucket

def loaded : Limits := ⟨∅, 0, ⟨0, 0⟩, ⟨0, 0⟩⟩

/-- The test of the garbage collector: `burst * period` have passed. -/
def emptied (period now : UInt32) (bucket : CodeBucket) : Bool :=
  asUnsigned bucket.burst * period < now - bucket.lastTime

/-- The first part of `BucketForAddress`: at most once a second, the empty buckets are erased. -/
def collectGarbage (state : Limits) (period now : UInt32) : Limits :=
  if 1000 < now - state.lastGC then
    { state with lastGC := now, buckets := keep (fun bucket => !emptied period now bucket) state.buckets }
  else state

/-- `BucketForAddress`: `none` when the table is full. -/
def bucketForAddress (state : Limits) (address : Netadr) (period now : UInt32) : Option CodeBucket × Limits :=
  let swept := collectGarbage state period now
  match swept.buckets.lookup address.ip.key with
  | some bucket => (some bucket, swept)
  | none =>
    if maxBuckets ≤ size swept.buckets then (none, swept)
    else (some ⟨now, 0⟩, { swept with buckets := swept.buckets.insert address.ip.key ⟨now, 0⟩ })

/-- `AddressAllowed`, with the clock read by `Milliseconds`. `Limit` writes through the pointer into the table. -/
def addressAllowed (state : Limits) (sender : Netadr) (now : UInt32) : Bool × Limits :=
  if sender.type ≠ .naIp then (true, state)
  else match bucketForAddress state sender 1000 now with
    | (none, after) => (false, after)
    | (some bucket, after) =>
      let (drop, bucket) := limit bucket 10 1000 now
      (!drop, { after with buckets := after.buckets.insert sender.ip.key bucket })

/-- `StatusAllowed`: per address, then the global outbound bucket. -/
def statusAllowed (state : Limits) (sender : Netadr) (now : UInt32) : Bool × Limits :=
  match addressAllowed state sender now with
  | (false, after) => (false, after)
  | (true, after) =>
    let (drop, bucket) := limit after.outbound 10 100 now
    (!drop, { after with outbound := bucket })

/-- The test of `RconAllowed`: a password is set, and the first argument is it. -/
def validPassword (password argument : CString) : Bool := !password.isEmpty && argument == password

/-- `RconAllowed`, with `sv_rconPassword` and `Cmd_Argv(1)`. -/
def rconAllowed (state : Limits) (password argument : CString) (now : UInt32) : Bool × Limits :=
  if validPassword password argument then (true, state)
  else
    let (drop, bucket) := limit state.badPassword 10 1000 now
    (!drop, { state with badPassword := bucket })

/-! ## What each call does -/

/-- The bucket that a lookup gives: the one of the table, or a new one while there is room. -/
def Fetched (buckets : BucketMap) (key now : UInt32) (bucket : CodeBucket) : Prop :=
  buckets.lookup key = some bucket ∨
    buckets.lookup key = none ∧ size buckets < maxBuckets ∧ bucket = ⟨now, 0⟩

/-- Everything `AddressAllowed` does for an IPv4 address: refuse it when the table is full, or offer the request to
its bucket. -/
theorem addressAllowed_cases (state : Limits) {sender : Netadr} (now : UInt32) (ip : sender.type = .naIp) :
    (collectGarbage state 1000 now).buckets.lookup sender.ip.key = none ∧
        maxBuckets ≤ size (collectGarbage state 1000 now).buckets ∧
        addressAllowed state sender now = (false, collectGarbage state 1000 now) ∨
      ∃ bucket, Fetched (collectGarbage state 1000 now).buckets sender.ip.key now bucket ∧
        addressAllowed state sender now = (!(limit bucket 10 1000 now).1, { collectGarbage state 1000 now with
          buckets := (collectGarbage state 1000 now).buckets.insert sender.ip.key (limit bucket 10 1000 now).2 }) := by
  have listed : ¬ sender.type ≠ .naIp := fun other => other ip
  cases found : (collectGarbage state 1000 now).buckets.lookup sender.ip.key with
  | some bucket =>
    refine Or.inr ⟨bucket, Or.inl found, ?_⟩
    rw [addressAllowed, if_neg listed, bucketForAddress]
    simp only [found]
  | none =>
    by_cases full : maxBuckets ≤ size (collectGarbage state 1000 now).buckets
    · refine Or.inl ⟨rfl, full, ?_⟩
      rw [addressAllowed, if_neg listed, bucketForAddress]
      simp only [found, if_pos full]
    · refine Or.inr ⟨⟨now, 0⟩, Or.inr ⟨found, Nat.lt_of_not_le full, rfl⟩, ?_⟩
      rw [addressAllowed, if_neg listed, bucketForAddress]
      simp only [found, if_neg full, AList.insert_insert]

theorem addressAllowed_other (state : Limits) {sender : Netadr} (now : UInt32) (other : sender.type ≠ .naIp) :
    addressAllowed state sender now = (true, state) := by rw [addressAllowed, if_pos other]

theorem collectGarbage_globals (state : Limits) (period now : UInt32) :
    (collectGarbage state period now).outbound = state.outbound ∧
      (collectGarbage state period now).badPassword = state.badPassword := by
  rw [collectGarbage]
  split <;> exact ⟨rfl, rfl⟩

theorem addressAllowed_globals (state : Limits) (sender : Netadr) (now : UInt32) :
    (addressAllowed state sender now).2.outbound = state.outbound ∧
      (addressAllowed state sender now).2.badPassword = state.badPassword := by
  have swept := collectGarbage_globals state 1000 now
  by_cases listed : sender.type = .naIp
  · obtain ⟨_, _, result⟩ | ⟨bucket, _, result⟩ := addressAllowed_cases state now listed
    · rw [result]
      exact swept
    · rw [result]
      exact swept
  · rw [addressAllowed_other state now listed]
    exact ⟨rfl, rfl⟩

/-- `StatusAllowed` refuses with the address limiter, or asks the outbound bucket. -/
theorem statusAllowed_cases (state : Limits) (sender : Netadr) (now : UInt32) :
    (statusAllowed state sender now).2.badPassword = state.badPassword ∧
      ((statusAllowed state sender now).1 = false ∧ (statusAllowed state sender now).2.outbound = state.outbound ∨
        (statusAllowed state sender now).1 = !(limit state.outbound 10 100 now).1 ∧
          (statusAllowed state sender now).2.outbound = (limit state.outbound 10 100 now).2) := by
  obtain ⟨outbound, badPassword⟩ := addressAllowed_globals state sender now
  rw [statusAllowed]
  split
  · rename_i result
    rw [result] at outbound badPassword
    exact ⟨badPassword, Or.inl ⟨rfl, outbound⟩⟩
  · rename_i result
    rw [result] at outbound badPassword
    simp only at outbound badPassword
    simp only [outbound, badPassword]
    exact ⟨trivial, Or.inr ⟨trivial, trivial⟩⟩

theorem rconAllowed_valid {state : Limits} {password argument : CString} (now : UInt32)
    (valid : validPassword password argument = true) : rconAllowed state password argument now = (true, state) := by
  rw [rconAllowed, if_pos valid]

theorem rconAllowed_bad {state : Limits} {password argument : CString} (now : UInt32)
    (bad : validPassword password argument = false) :
    rconAllowed state password argument now =
      (!(limit state.badPassword 10 1000 now).1, { state with badPassword := (limit state.badPassword 10 1000 now).2 }) := by
  rw [rconAllowed, bad, if_neg Bool.false_ne_true]

/-! ## One bucket against the leaky bucket on the natural clock -/

/-- The words of a bucket show its moment modulo `2^32` and its count. -/
def Shows (code : CodeBucket) (bucket : Bucket) : Prop :=
  code.lastTime = .ofNat bucket.last ∧ code.burst = bucket.burst

theorem asUnsigned_ofNat {n : Nat} (small : n < 4294967296) : (asUnsigned n).toNat = n := by
  rw [asUnsigned, UInt32.toNat_ofNat']
  omega

theorem asInt_of_lt {u : UInt32} (small : u.toNat < 2147483648) : asInt u = u.toNat := by rw [asInt, if_pos small]

theorem elapsed_toNat {last now : Nat} (past : last ≤ now) :
    (UInt32.ofNat now - UInt32.ofNat last).toNat = (now - last) % 4294967296 := by
  rw [← UInt32.ofNat_sub past, UInt32.toNat_ofNat']

/-- `Limit` is an offer to the leaky bucket, at a moment moved forward by the whole wraps that the words lose. -/
theorem limit_shows (capacity : Nat) {code : CodeBucket} {bucket : Bucket} {period now : Nat}
    (shows : Shows code bucket) (past : bucket.last ≤ now) (few : bucket.burst < 2147483648)
    (fits : period < 4294967296) :
    ∃ last, bucket.last ≤ last ∧ last ≤ now ∧ (now < bucket.last + 4294967296 → last = bucket.last) ∧
      (limit code capacity (.ofNat period) (.ofNat now)).1 = !(offer capacity period ⟨last, bucket.burst⟩ now).1 ∧
      Shows (limit code capacity (.ofNat period) (.ofNat now)).2 (offer capacity period ⟨last, bucket.burst⟩ now).2 := by
  obtain ⟨moment, burst⟩ := shows
  refine ⟨now - (now - bucket.last) % 4294967296, ?_, Nat.sub_le _ _, ?_, ?_⟩
  · have := Nat.mod_le (now - bucket.last) 4294967296
    omega
  · intro near
    rw [Nat.mod_eq_of_lt (by omega)]
    omega
  have elapsed := elapsed_toNat past
  have ago : now - (now - (now - bucket.last) % 4294967296) = (now - bucket.last) % 4294967296 := by
    have := Nat.mod_le (now - bucket.last) 4294967296
    omega
  have word : (UInt32.ofNat period).toNat = period := by rw [UInt32.toNat_ofNat', Nat.mod_eq_of_lt fits]
  have expired : ((UInt32.ofNat now - UInt32.ofNat bucket.last) / UInt32.ofNat period).toNat =
      (now - bucket.last) % 4294967296 / period := by rw [UInt32.toNat_div, elapsed, word]
  have test : asUnsigned bucket.burst < (UInt32.ofNat now - UInt32.ofNat bucket.last) / UInt32.ofNat period ↔
      bucket.burst < (now - bucket.last) % 4294967296 / period := by
    rw [UInt32.lt_iff_toNat_lt, expired, asUnsigned_ofNat (by omega)]
  have phase : UInt32.ofNat now - (UInt32.ofNat now - UInt32.ofNat bucket.last) % UInt32.ofNat period =
      UInt32.ofNat (now - (now - bucket.last) % 4294967296 % period) := by
    have short := Nat.mod_le ((now - bucket.last) % 4294967296) period
    have whole := Nat.mod_le (now - bucket.last) 4294967296
    rw [UInt32.ofNat_sub (by omega)]
    congr 1
    rw [← UInt32.toNat_inj, UInt32.toNat_mod, elapsed, word, UInt32.toNat_ofNat']
    omega
  simp only [limit, offer, drain, moment, burst, ago, test, phase]
  by_cases faster : bucket.burst < (now - bucket.last) % 4294967296 / period
  · simp only [if_pos faster]
    by_cases room : 0 < capacity
    · simp [room, Shows]
    · simp [room, Shows]
  · have drained : ((bucket.burst : Int) - asInt ((UInt32.ofNat now - UInt32.ofNat bucket.last) / UInt32.ofNat period)) =
        ((bucket.burst - (now - bucket.last) % 4294967296 / period : Nat) : Int) := by
      rw [asInt_of_lt (by omega), expired]
      omega
    simp only [if_neg faster, drained, Int.ofNat_lt]
    by_cases room : bucket.burst - (now - bucket.last) % 4294967296 / period < capacity
    · simp [room, Shows]
    · simp [room, Shows]

/-- The bucket of the code bounds a count as the leaky bucket it shows does. -/
def PacedCode (capacity period start count now : Nat) (code : CodeBucket) : Prop :=
  ∃ bucket, Shows code bucket ∧ Paced capacity period start count now (some bucket)

theorem PacedCode.later {capacity period start count now next : Nat} {code : CodeBucket}
    (paced : PacedCode capacity period start count now code) (after : now ≤ next) :
    PacedCode capacity period start count next code := by
  obtain ⟨bucket, shows, paced⟩ := paced
  exact ⟨bucket, shows, paced.later after⟩

theorem PacedCode.limit {capacity period start count now : Nat} {code : CodeBucket} (small : capacity < 2147483648)
    (positive : 0 < period) (fits : period < 4294967296) (paced : PacedCode capacity period start count now code)
    (inside : Bool) (since : inside = true → start ≤ now) :
    PacedCode capacity period start
      (count + if !(limit code capacity (.ofNat period) (.ofNat now)).1 && inside then 1 else 0) now
      (limit code capacity (.ofNat period) (.ofNat now)).2 := by
  obtain ⟨bucket, shows, paced⟩ := paced
  have few : bucket.burst < 2147483648 := Nat.lt_of_le_of_lt paced.2.1 small
  obtain ⟨last, ahead, past, _, drop, after⟩ := limit_shows capacity shows paced.1 few fits
  refine ⟨_, after, ?_⟩
  rw [drop, Bool.not_not]
  exact (paced.forward ahead past).offer positive inside since

def within (start width time : Nat) : Bool := start ≤ time && time ≤ start + width

/-- One `Limit`, counted when it lets a request of the window through: the bucket and the bound of the count. -/
theorem PacedCode.limit_within {capacity period start count now : Nat} {code : CodeBucket} (width : Nat)
    (small : capacity < 2147483648) (positive : 0 < period) (fits : period < 4294967296)
    (paced : PacedCode capacity period start count now code)
    (few : count ≤ capacity + (width + (period - 1)) / period) :
    let counted := count + if !(RateLimit.limit code capacity (.ofNat period) (.ofNat now)).1 && within start width now
      then 1 else 0
    PacedCode capacity period start counted now (RateLimit.limit code capacity (.ofNat period) (.ofNat now)).2 ∧
      counted ≤ capacity + (width + (period - 1)) / period := by
  intro counted
  have begun : within start width now = true → start ≤ now := by
    intro inside
    simp only [within, Bool.and_eq_true, decide_eq_true_eq] at inside
    exact inside.1
  have offered := paced.limit small positive fits (within start width now) begun
  refine ⟨offered, ?_⟩
  obtain ⟨_, _, held⟩ := offered
  cases inside : within start width now with
  | false => simpa only [counted, inside, Bool.and_false, Bool.false_eq_true, if_false, Nat.add_zero] using few
  | true =>
    refine held.bound positive ?_
    simp only [within, Bool.and_eq_true, decide_eq_true_eq] at inside
    exact inside.2

theorem pacedCode_loaded (capacity period start now : Nat) : PacedCode capacity period start 0 now ⟨0, 0⟩ :=
  ⟨⟨0, 0⟩, ⟨rfl, rfl⟩, Nat.zero_le now, Nat.zero_le capacity, Or.inl rfl⟩

end YbeProxy.RateLimit
