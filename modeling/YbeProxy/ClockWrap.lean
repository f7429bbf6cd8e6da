import YbeProxy.AddressLimit
import Mathlib.Data.List.Chain

/-!
# The limiters across the wrap of the clock

The algorithm of `Engine/RateLimit.cpp` once more, on a clock that never wraps. The words of the code show its state
as long as no stored time grows older than one turn of the 32-bit clock, and the garbage collector sees to that.
-/

namespace YbeProxy.ClockWrap
open YbeProxy.Strings YbeProxy.Addresses YbeProxy.LeakyBucket YbeProxy.Runs YbeProxy.RateLimit YbeProxy.AddressLimit

/-! ## The limiters on an unbounded clock -/

structure Unbounded where
  buckets : AList fun _ : UInt32 => Bucket
  lastGC : ℕ
  outbound : Bucket
  badPassword : Bucket

def loadedUnbounded : Unbounded := ⟨∅, 0, ⟨0, 0⟩, ⟨0, 0⟩⟩

namespace Unbounded

def size (state : Unbounded) : ℕ := state.buckets.entries.length

def keep (test : Bucket → Bool) (buckets : AList fun _ : UInt32 => Bucket) : AList fun _ : UInt32 => Bucket :=
  ⟨buckets.entries.filter fun entry => test entry.2, buckets.nodupKeys.sublist List.filter_sublist⟩

def emptied (period now : ℕ) (bucket : Bucket) : Bool := bucket.burst * period < now - bucket.last

def collectGarbage (state : Unbounded) (period now : ℕ) : Unbounded :=
  if 1000 < now - state.lastGC then
    { state with lastGC := now, buckets := keep (fun bucket => !emptied period now bucket) state.buckets }
  else state

def bucketForAddress (state : Unbounded) (address : Netadr) (period now : ℕ) : Option Bucket × Unbounded :=
  let swept := state.collectGarbage period now
  match swept.buckets.lookup address.ip.key with
  | some bucket => (some bucket, swept)
  | none =>
    if maxBuckets ≤ swept.size then (none, swept)
    else (some ⟨now, 0⟩, { swept with buckets := swept.buckets.insert address.ip.key ⟨now, 0⟩ })

def addressAllowed (state : Unbounded) (sender : Netadr) (now : ℕ) : Bool × Unbounded :=
  if sender.type ≠ .naIp then (true, state)
  else match state.bucketForAddress sender 1000 now with
    | (none, after) => (false, after)
    | (some bucket, after) =>
      let (accepted, bucket) := offer 10 1000 bucket now
      (accepted, { after with buckets := after.buckets.insert sender.ip.key bucket })

def statusAllowed (state : Unbounded) (sender : Netadr) (now : ℕ) : Bool × Unbounded :=
  match state.addressAllowed sender now with
  | (false, after) => (false, after)
  | (true, after) =>
    let (accepted, bucket) := offer 10 100 after.outbound now
    (accepted, { after with outbound := bucket })

def rconAllowed (state : Unbounded) (password argument : CString) (now : ℕ) : Bool × Unbounded :=
  if validPassword password argument then (true, state)
  else
    let (accepted, bucket) := offer 10 1000 state.badPassword now
    (accepted, { state with badPassword := bucket })

def serve (state : Unbounded) (request : Request) : Verdict × Unbounded :=
  match request.call with
  | .addressAllowed sender =>
    let (allowed, after) := state.addressAllowed sender request.now
    (⟨allowed, some allowed⟩, after)
  | .statusAllowed sender =>
    let (allowed, after) := state.statusAllowed sender request.now
    (⟨allowed, some (state.addressAllowed sender request.now).1⟩, after)
  | .rconAllowed password argument =>
    let (allowed, after) := state.rconAllowed password argument request.now
    (⟨allowed, none⟩, after)

end Unbounded

/-! ## What the words show -/

def words (bucket : Bucket) : CodeBucket := ⟨.ofNat bucket.last, bucket.burst⟩

def tableWords (buckets : AList fun _ : UInt32 => Bucket) : BucketMap :=
  ⟨buckets.entries.map fun entry => ⟨entry.1, words entry.2⟩, by
    have keys := buckets.nodupKeys
    simpa [List.NodupKeys, List.keys, Function.comp_def] using keys⟩

def stateWords (state : Unbounded) : Limits :=
  ⟨tableWords state.buckets, .ofNat state.lastGC, words state.outbound, words state.badPassword⟩

theorem shows_words (bucket : Bucket) : Shows (words bucket) bucket := ⟨rfl, rfl⟩

theorem eq_words {code : CodeBucket} {bucket : Bucket} (shows : Shows code bucket) : code = words bucket := by
  obtain ⟨moment, burst⟩ := shows
  cases code
  simp only at moment burst
  rw [words, moment, burst]

theorem tableWords_lookup (buckets : AList fun _ : UInt32 => Bucket) (key : UInt32) :
    (tableWords buckets).lookup key = (buckets.lookup key).map words := by
  obtain ⟨entries, keys⟩ := buckets
  simp only [AList.lookup, tableWords]
  clear keys
  induction entries with
  | nil => rfl
  | cons entry rest hypothesis =>
    obtain ⟨other, bucket⟩ := entry
    by_cases same : key = other
    · subst same
      simp
    · rw [List.map_cons, List.dlookup_cons_ne _ _ same, List.dlookup_cons_ne _ _ same, hypothesis]

theorem tableWords_insert (buckets : AList fun _ : UInt32 => Bucket) (key : UInt32) (bucket : Bucket) :
    tableWords (buckets.insert key bucket) = (tableWords buckets).insert key (words bucket) := by
  apply AList.ext
  simp only [tableWords, AList.entries_insert, List.map_cons, List.kerase, List.eraseP_map]
  rfl

theorem tableWords_keep {buckets : AList fun _ : UInt32 => Bucket} {test : CodeBucket → Bool} {test' : Bucket → Bool}
    (agree : ∀ entry ∈ buckets.entries, test (words entry.2) = test' entry.2) :
    keep test (tableWords buckets) = tableWords (Unbounded.keep test' buckets) := by
  apply AList.ext
  simp only [tableWords, keep, Unbounded.keep, List.filter_map]
  congr 1
  exact List.filter_congr agree

theorem size_tableWords (state : Unbounded) : size (tableWords state.buckets) = state.size := by
  rw [size, tableWords, List.length_map, Unbounded.size]

/-! ## One call at a time when no stored time is a turn old -/

/-- Nothing that the bucket stores will be a turn of the clock old before `deadline`. -/
structure BucketFits (now deadline : ℕ) (bucket : Bucket) : Prop where
  few : bucket.burst ≤ 10
  past : bucket.last ≤ now
  turn : deadline ≤ bucket.last + 4294967296

/-- The collector bounds the age of what it leaves: ten periods when it last ran. -/
structure TableFits (now deadline : ℕ) (state : Unbounded) : Prop where
  past : state.lastGC ≤ now
  turn : deadline ≤ state.lastGC + 4294967296
  held : ∀ entry ∈ state.buckets.entries, BucketFits now deadline entry.2 ∧ state.lastGC ≤ entry.2.last + 10000

theorem BucketFits.later {now next deadline sooner : ℕ} {bucket : Bucket} (fits : BucketFits now deadline bucket)
    (after : now ≤ next) (before : sooner ≤ deadline) : BucketFits next sooner bucket :=
  ⟨fits.few, Nat.le_trans fits.past after, Nat.le_trans before fits.turn⟩

theorem TableFits.later {now next deadline sooner : ℕ} {state : Unbounded} (fits : TableFits now deadline state)
    (after : now ≤ next) (before : sooner ≤ deadline) : TableFits next sooner state := by
  refine ⟨Nat.le_trans fits.past after, Nat.le_trans before fits.turn, ?_⟩
  intro entry member
  obtain ⟨held, recent⟩ := fits.held entry member
  exact ⟨held.later after before, recent⟩

/-- The global buckets are no part of the table. -/
theorem TableFits.globals {now deadline : ℕ} {state : Unbounded} (fits : TableFits now deadline state)
    (outbound badPassword : Bucket) :
    TableFits now deadline { state with outbound := outbound, badPassword := badPassword } :=
  ⟨fits.past, fits.turn, fits.held⟩

theorem limit_words {bucket : Bucket} {now : ℕ} (capacity period : ℕ) (fits : BucketFits now (now + 1) bucket)
    (small : period < 4294967296) :
    limit (words bucket) capacity (.ofNat period) (.ofNat now) =
      (!(offer capacity period bucket now).1, words (offer capacity period bucket now).2) := by
  obtain ⟨few, past, turn⟩ := fits
  obtain ⟨last, _, _, same, drop, shows⟩ := limit_shows capacity (shows_words bucket) past (by omega) small
  obtain rfl := same (by omega)
  exact Prod.ext drop (eq_words shows)

/-- A bucket that was just offered a request is at most one period behind. -/
theorem BucketFits.offer {now : ℕ} {bucket : Bucket} (fits : BucketFits now (now + 1) bucket) (period : ℕ)
    (positive : 0 < period) (short : period ≤ 1000) :
    BucketFits now (now + 4294955296) (offer 10 period bucket now).2 ∧
      now < (offer 10 period bucket now).2.last + 1000 := by
  have reached := drain_last_le period bucket now
  have near := lt_drain_last period bucket now positive fits.past
  have few := offer_burst_le 10 period bucket now fits.few
  rw [← offer_last 10 period bucket now] at reached near
  exact ⟨⟨few, reached, by omega⟩, by omega⟩

theorem emptied_words {bucket : Bucket} {now : ℕ} (fits : BucketFits now (now + 1) bucket) :
    emptied 1000 (.ofNat now) (words bucket) = Unbounded.emptied 1000 now bucket := by
  obtain ⟨few, past, turn⟩ := fits
  have elapsed : (UInt32.ofNat now - UInt32.ofNat bucket.last).toNat = now - bucket.last := by
    rw [elapsed_toNat past, Nat.mod_eq_of_lt (by omega)]
  have drained : (asUnsigned bucket.burst * 1000).toNat = bucket.burst * 1000 := by
    rw [UInt32.toNat_mul, asUnsigned_ofNat (by omega), show (1000 : UInt32).toNat = 1000 from rfl,
      Nat.mod_eq_of_lt (by omega)]
  rw [emptied, Unbounded.emptied, words]
  simp only [UInt32.lt_iff_toNat_lt, elapsed, drained]

theorem collectGarbage_words {state : Unbounded} {now : ℕ} (fits : TableFits now (now + 1) state) :
    collectGarbage (stateWords state) 1000 (.ofNat now) = stateWords (state.collectGarbage 1000 now) := by
  obtain ⟨past, turn, held⟩ := fits
  have elapsed : (UInt32.ofNat now - UInt32.ofNat state.lastGC).toNat = now - state.lastGC := by
    rw [elapsed_toNat past, Nat.mod_eq_of_lt (by omega)]
  have due : 1000 < UInt32.ofNat now - UInt32.ofNat state.lastGC ↔ 1000 < now - state.lastGC := by
    rw [UInt32.lt_iff_toNat_lt, elapsed]
    rfl
  have kept : keep (fun bucket => !emptied 1000 (.ofNat now) bucket) (tableWords state.buckets) =
      tableWords (Unbounded.keep (fun bucket => !Unbounded.emptied 1000 now bucket) state.buckets) := by
    apply tableWords_keep
    intro entry member
    rw [emptied_words (held entry member).1]
  simp only [collectGarbage, Unbounded.collectGarbage, stateWords, due]
  split
  · rw [kept]
  · rfl

theorem TableFits.collectGarbage {state : Unbounded} {now : ℕ} (fits : TableFits now (now + 1) state) :
    TableFits now (now + 4294955296) (state.collectGarbage 1000 now) := by
  rw [Unbounded.collectGarbage]
  split
  · refine ⟨Nat.le_refl now, by simp only; omega, ?_⟩
    intro entry member
    simp only [Unbounded.keep, List.mem_filter, Bool.not_eq_true', Unbounded.emptied, decide_eq_false_iff_not] at member
    obtain ⟨listed, held⟩ := member
    obtain ⟨⟨few, past, _⟩, _⟩ := fits.held entry listed
    exact ⟨⟨few, past, by omega⟩, by simp only; omega⟩
  · refine ⟨fits.past, by omega, ?_⟩
    intro entry member
    obtain ⟨⟨few, past, _⟩, recent⟩ := fits.held entry member
    exact ⟨⟨few, past, by omega⟩, recent⟩

theorem TableFits.insert {state : Unbounded} {now deadline : ℕ} {bucket : Bucket} (fits : TableFits now deadline state)
    (key : UInt32) (bucketFits : BucketFits now deadline bucket) (near : now < bucket.last + 1000) :
    TableFits now deadline { state with buckets := state.buckets.insert key bucket } := by
  refine ⟨fits.past, fits.turn, ?_⟩
  intro entry member
  rw [AList.entries_insert] at member
  rcases List.mem_cons.mp member with rfl | old
  · have collected := fits.past
    exact ⟨bucketFits, by simp only; omega⟩
  · exact fits.held entry ((List.kerase_sublist key _).subset old)

theorem BucketFits.fresh (now : ℕ) : BucketFits now (now + 1) ⟨now, 0⟩ := ⟨Nat.zero_le 10, Nat.le_refl now, by simp only; omega⟩

/-- The bucket of an address on both clocks, and what of the table still fits. -/
theorem bucketForAddress_words {state : Unbounded} {now : ℕ} (address : Netadr) (fits : TableFits now (now + 1) state) :
    bucketForAddress (stateWords state) address 1000 (.ofNat now) =
        ((state.bucketForAddress address 1000 now).1.map words, stateWords (state.bucketForAddress address 1000 now).2) ∧
      (∀ bucket, (state.bucketForAddress address 1000 now).1 = some bucket → BucketFits now (now + 1) bucket) ∧
      TableFits now (now + 4294955296) (state.bucketForAddress address 1000 now).2 := by
  have swept := fits.collectGarbage
  rw [bucketForAddress, collectGarbage_words fits, Unbounded.bucketForAddress]
  simp only [stateWords, tableWords_lookup, size_tableWords]
  cases found : (state.collectGarbage 1000 now).buckets.lookup address.ip.key with
  | some bucket =>
    refine ⟨rfl, ?_, swept⟩
    intro same equal
    obtain rfl := Option.some.inj equal
    have member := (AList.mem_lookup_iff).mp (Option.mem_def.mpr found)
    exact (swept.held _ member).1.later (Nat.le_refl now) (by omega)
  | none =>
    simp only [Option.map_none]
    by_cases full : maxBuckets ≤ (state.collectGarbage 1000 now).size
    · simp only [if_pos full]
      exact ⟨rfl, by simp, swept⟩
    · simp only [if_neg full]
      refine ⟨?_, ?_, ?_⟩
      · simp only [tableWords_insert]
        rfl
      · intro bucket equal
        obtain rfl := Option.some.inj equal
        exact BucketFits.fresh now
      · exact swept.insert address.ip.key ⟨Nat.zero_le 10, Nat.le_refl now, by simp only; omega⟩ (by simp only; omega)

theorem addressAllowed_words {state : Unbounded} {now : ℕ} {sender : Netadr} (ip : sender.type = .naIp)
    (fits : TableFits now (now + 1) state) :
    addressAllowed (stateWords state) sender (.ofNat now) =
        ((state.addressAllowed sender now).1, stateWords (state.addressAllowed sender now).2) ∧
      TableFits now (now + 4294955296) (state.addressAllowed sender now).2 := by
  have listed : ¬ sender.type ≠ .naIp := fun other => other ip
  obtain ⟨same, held, after⟩ := bucketForAddress_words sender fits
  rw [addressAllowed, if_neg listed, same, Unbounded.addressAllowed, if_neg listed]
  generalize state.bucketForAddress sender 1000 now = result at held after
  obtain ⟨answer, next⟩ := result
  cases answer with
  | none => exact ⟨rfl, after⟩
  | some bucket =>
    have bucketFits := held bucket rfl
    obtain ⟨offered, near⟩ := bucketFits.offer 1000 (by decide) (by decide)
    have shown := limit_words 10 1000 bucketFits (by decide)
    simp only [Option.map_some]
    refine ⟨?_, after.insert sender.ip.key offered near⟩
    rw [show limit (words bucket) 10 1000 (.ofNat now) = _ from shown]
    simp only [Bool.not_not, stateWords, tableWords_insert]

theorem addressAllowed_unbounded_other {state : Unbounded} {sender : Netadr} (now : ℕ) (other : sender.type ≠ .naIp) :
    state.addressAllowed sender now = (true, state) := by rw [Unbounded.addressAllowed, if_pos other]

/-- The address limiter does not touch the two global buckets. -/
theorem addressAllowed_unbounded_globals (state : Unbounded) (sender : Netadr) (now : ℕ) :
    (state.addressAllowed sender now).2.outbound = state.outbound ∧
      (state.addressAllowed sender now).2.badPassword = state.badPassword := by
  have swept : (state.collectGarbage 1000 now).outbound = state.outbound ∧
      (state.collectGarbage 1000 now).badPassword = state.badPassword := by
    rw [Unbounded.collectGarbage]
    split <;> exact ⟨rfl, rfl⟩
  rw [Unbounded.addressAllowed]
  split
  · exact ⟨rfl, rfl⟩
  rw [Unbounded.bucketForAddress]
  cases (state.collectGarbage 1000 now).buckets.lookup sender.ip.key with
  | some bucket => exact swept
  | none =>
    by_cases full : maxBuckets ≤ (state.collectGarbage 1000 now).size
    · simp only [if_pos full]
      exact swept
    · simp only [if_neg full]
      exact swept

/-! ## Whole runs -/

/-- `AddressAllowed` looks the sender up in the table. -/
def asksTable (request : Request) : Bool := request.call.sender.any fun sender => sender.type = .naIp

/-- `StatusAllowed` got past the address limiter. -/
def asksOutbound (answer : Request × Verdict) : Bool :=
  (match answer.1.call with | .statusAllowed _ => true | _ => false) && answer.2.address = some true

def guesses (request : Request) : Bool :=
  match request.call with
  | .rconAllowed password argument => !validPassword password argument
  | _ => false

def tableTimes (requests : List Request) : List ℕ := (requests.filter asksTable).map Request.now
def outboundTimes (answers : List (Request × Verdict)) : List ℕ := (answers.filter asksOutbound).map (·.1.now)
def guessTimes (requests : List Request) : List ℕ := (requests.filter guesses).map Request.now

/-- Consecutive times are less than `2^32 - 12000` milliseconds apart. -/
def Spaced (times : List ℕ) : Prop := times.IsChain fun before after => after - before < 4294967296 - 12000

/-- The first time comes before `deadline`, and the times are spaced. -/
def Punctual (deadline : ℕ) (times : List ℕ) : Prop := (∀ first ∈ times.head?, first < deadline) ∧ Spaced times

theorem punctual_cons {deadline time : ℕ} {rest : List ℕ} (punctual : Punctual deadline (time :: rest)) :
    time < deadline ∧ Punctual (time + 4294955296) rest := by
  obtain ⟨first, spaced⟩ := punctual
  obtain ⟨next, spaced⟩ := List.isChain_cons.mp spaced
  refine ⟨first time rfl, ?_, spaced⟩
  intro following head
  have near := next following head
  omega

/-- What the three kinds of calls find at any time before their own deadlines. -/
structure Fits (now table outbound guess : ℕ) (state : Unbounded) : Prop where
  table : TableFits now table state
  outbound : BucketFits now outbound state.outbound
  badPassword : BucketFits now guess state.badPassword

theorem Fits.later {now next table outbound guess : ℕ} {state : Unbounded} (fits : Fits now table outbound guess state)
    (after : now ≤ next) : Fits next table outbound guess state :=
  ⟨fits.table.later after (Nat.le_refl _), fits.outbound.later after (Nat.le_refl _),
    fits.badPassword.later after (Nat.le_refl _)⟩

theorem addressAllowed_fits {state : Unbounded} {now table outbound guess : ℕ} (sender : Netadr)
    (fits : Fits now table outbound guess state) (early : sender.type = .naIp → now < table) :
    addressAllowed (stateWords state) sender (.ofNat now) =
        ((state.addressAllowed sender now).1, stateWords (state.addressAllowed sender now).2) ∧
      Fits now (if sender.type = .naIp then now + 4294955296 else table) outbound guess
        (state.addressAllowed sender now).2 := by
  by_cases ip : sender.type = .naIp
  · obtain ⟨same, after⟩ := addressAllowed_words ip (fits.table.later (Nat.le_refl now) (early ip))
    obtain ⟨keptOutbound, keptBadPassword⟩ := addressAllowed_unbounded_globals state sender now
    rw [if_pos ip]
    refine ⟨same, after, ?_, ?_⟩
    · rw [keptOutbound]
      exact fits.outbound
    · rw [keptBadPassword]
      exact fits.badPassword
  · rw [addressAllowed_other _ _ ip, addressAllowed_unbounded_other now ip, if_neg ip]
    exact ⟨rfl, fits⟩

/-- One request before its deadlines: the same verdict, and the deadlines of what it used move on. -/
theorem serve_words {state : Unbounded} {request : Request} {table outbound guess : ℕ}
    (fits : Fits request.now table outbound guess state) (asked : asksTable request = true → request.now < table)
    (reached : asksOutbound (request, (serve (stateWords state) request).1) = true → request.now < outbound)
    (guessed : guesses request = true → request.now < guess) :
    serve (stateWords state) request = ((state.serve request).1, stateWords (state.serve request).2) ∧
      Fits request.now (if asksTable request then request.now + 4294955296 else table)
        (if asksOutbound (request, (serve (stateWords state) request).1) then request.now + 4294955296 else outbound)
        (if guesses request then request.now + 4294955296 else guess) (state.serve request).2 := by
  obtain ⟨now, call⟩ := request
  cases call with
  | addressAllowed sender =>
    obtain ⟨same, after⟩ := addressAllowed_fits sender fits (by simpa [asksTable, Call.sender] using asked)
    simp only [serve, Unbounded.serve, same]
    simpa [asksTable, asksOutbound, guesses, Call.sender] using after
  | statusAllowed sender =>
    obtain ⟨same, after⟩ := addressAllowed_fits sender fits (by simpa [asksTable, Call.sender] using asked)
    simp only [serve, asksOutbound, same, Bool.true_and, decide_eq_true_eq, Option.some.injEq] at reached
    simp only [serve, Unbounded.serve, statusAllowed, Unbounded.statusAllowed, same]
    generalize state.addressAllowed sender now = result at after reached
    obtain ⟨allowed, next⟩ := result
    cases allowed with
    | false => simpa [asksTable, asksOutbound, guesses, Call.sender] using after
    | true =>
      have early := after.outbound.later (Nat.le_refl now) (reached rfl)
      obtain ⟨offered, _⟩ := early.offer 100 (by decide) (by decide)
      have shown := limit_words 10 100 early (by decide)
      simp only [stateWords]
      rw [show limit (words next.outbound) 10 100 (.ofNat now) = _ from shown]
      simp only [Bool.not_not, asksTable, asksOutbound, guesses, Call.sender]
      exact ⟨trivial, by simpa using ⟨after.table.globals _ _, offered, after.badPassword⟩⟩
  | rconAllowed password argument =>
    simp only [serve, Unbounded.serve, rconAllowed, Unbounded.rconAllowed]
    cases valid : validPassword password argument with
    | true => simpa [asksTable, asksOutbound, guesses, Call.sender, valid] using fits
    | false =>
      have early := fits.badPassword.later (Nat.le_refl now) (guessed (by simp [guesses, valid]))
      obtain ⟨offered, _⟩ := early.offer 1000 (by decide) (by decide)
      have shown := limit_words 10 1000 early (by decide)
      simp only [stateWords, Bool.false_eq_true, if_false]
      rw [show limit (words state.badPassword) 10 1000 (.ofNat now) = _ from shown]
      simpa [asksTable, asksOutbound, guesses, Call.sender, valid] using ⟨fits.table.globals _ _, fits.outbound, offered⟩

theorem trace_words {state : Unbounded} {now table outbound guess : ℕ} (requests : List Request)
    (fits : Fits now table outbound guess state) (ordered : requests.Pairwise fun a b => a.now ≤ b.now)
    (future : ∀ request ∈ requests, now ≤ request.now) (asked : Punctual table (tableTimes requests))
    (reached : Punctual outbound (outboundTimes (trace serve (stateWords state) requests)))
    (guessed : Punctual guess (guessTimes requests)) :
    trace serve (stateWords state) requests = trace Unbounded.serve state requests := by
  induction requests generalizing state now table outbound guess with
  | nil => rfl
  | cons request rest hypothesis =>
    obtain ⟨next, tail⟩ := List.pairwise_cons.mp ordered
    have head (test : Bool) {deadline : ℕ} {times : List ℕ}
        (punctual : Punctual deadline (if test then request.now :: times else times)) :
        (test = true → request.now < deadline) ∧
          Punctual (if test then request.now + 4294955296 else deadline) times := by
      cases test with
      | false => exact ⟨nofun, punctual⟩
      | true => exact ⟨fun _ => (punctual_cons punctual).1, (punctual_cons punctual).2⟩
    simp only [trace, tableTimes, outboundTimes, guessTimes, List.filter_cons, apply_ite (List.map _), List.map_cons]
      at asked reached guessed
    obtain ⟨asked, askedLater⟩ := head _ asked
    obtain ⟨reached, reachedLater⟩ := head _ reached
    obtain ⟨guessed, guessedLater⟩ := head _ guessed
    obtain ⟨same, after⟩ := serve_words (fits.later (future request List.mem_cons_self)) asked reached guessed
    rw [same] at after reachedLater
    simp only [trace, same]
    rw [hypothesis after tail next askedLater reachedLater guessedLater]

/-- Every request gets the same decision on the 32-bit clock as on one that never wraps, when each of the three kinds
of calls is first made in the first turn of the clock and then less than `2^32 - 12000` milliseconds after the last
one of its kind. -/
theorem same_decisions (requests : List Request) (ordered : requests.Pairwise fun a b => a.now ≤ b.now)
    (asked : Punctual 4294967296 (tableTimes requests))
    (reached : Punctual 4294967296 (outboundTimes (trace serve loaded requests)))
    (guessed : Punctual 4294967296 (guessTimes requests)) :
    trace serve loaded requests = trace Unbounded.serve loadedUnbounded requests := by
  have empty : BucketFits 0 4294967296 ⟨0, 0⟩ := ⟨Nat.zero_le 10, Nat.le_refl 0, Nat.le_refl _⟩
  have initially : Fits 0 4294967296 4294967296 4294967296 loadedUnbounded :=
    ⟨⟨Nat.le_refl 0, Nat.le_refl _, by simp [loadedUnbounded]⟩, empty, empty⟩
  exact trace_words requests initially ordered (fun request _ => Nat.zero_le request.now) asked reached guessed

/-- Before and after the first wrap, with each kind of call in the first turn. -/
def wrapRequests : List Request :=
  [⟨4294960000, .statusAllowed sampleSender⟩, ⟨4294967000, .rconAllowed [] []⟩,
    ⟨4294967400, .statusAllowed sampleSender⟩, ⟨4294967500, .rconAllowed [] []⟩]

theorem same_decisions_wrap :
    trace serve loaded wrapRequests = trace Unbounded.serve loadedUnbounded wrapRequests :=
  same_decisions wrapRequests (by decide) ⟨by decide, by unfold Spaced; decide⟩ ⟨by decide, by unfold Spaced; decide⟩
    ⟨by decide, by unfold Spaced; decide⟩

/-- The buckets start at time 0: a flood of bad passwords that begins after the first turn of the clock finds the
phase of that 0 in the words, and the phase of its first guess on the unbounded clock. -/
def lateGuesses : List Request :=
  ⟨0, .addressAllowed sampleSender⟩ :: List.replicate 10 ⟨4294967796, .rconAllowed [] []⟩ ++
    [⟨4294968396, .rconAllowed [] []⟩]

theorem late_guesses_differ :
    ¬ ∀ requests : List Request, (requests.Pairwise fun a b => a.now ≤ b.now) →
      (∀ first ∈ requests.head?, first.now < 4294967296) → Spaced (tableTimes requests) →
      Spaced (outboundTimes (trace serve loaded requests)) → Spaced (guessTimes requests) →
      trace serve loaded requests = trace Unbounded.serve loadedUnbounded requests := by
  intro claim
  have same := claim lateGuesses (by decide) (by decide) (by unfold Spaced; decide) (by unfold Spaced; decide)
    (by unfold Spaced; decide)
  have answers := congrArg (List.map fun answer => answer.2.allowed) same
  revert answers
  decide

end YbeProxy.ClockWrap
