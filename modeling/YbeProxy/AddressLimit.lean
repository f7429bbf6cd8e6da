import YbeProxy.RateLimit
import Mathlib.Data.List.Induction

/-!
# The address limiter over whole runs

Any calls of the module, from any senders, on a clock that does not go back: how many requests of one address get
through, and when none of them is refused.
-/

namespace YbeProxy.AddressLimit
open YbeProxy.Strings YbeProxy.Addresses YbeProxy.LeakyBucket YbeProxy.Runs YbeProxy.RateLimit

/-- The calls that `RateLimit.hpp` offers. -/
inductive Call
  | addressAllowed (sender : Netadr)
  | statusAllowed (sender : Netadr)
  | rconAllowed (password argument : CString)

/-- A call at a time in milliseconds, of which `Milliseconds` shows the low 32 bits. -/
structure Request where
  now : Nat
  call : Call

/-- The answer of a call, and the answer of `AddressAllowed` where the call asked it. -/
structure Verdict where
  allowed : Bool
  address : Option Bool
  deriving DecidableEq

def Call.sender : Call → Option Netadr
  | .addressAllowed sender => some sender
  | .statusAllowed sender => some sender
  | .rconAllowed _ _ => none

def serve (state : Limits) (request : Request) : Verdict × Limits :=
  let now := UInt32.ofNat request.now
  match request.call with
  | .addressAllowed sender =>
    let (allowed, after) := addressAllowed state sender now
    (⟨allowed, some allowed⟩, after)
  | .statusAllowed sender =>
    let (allowed, after) := statusAllowed state sender now
    (⟨allowed, some (addressAllowed state sender now).1⟩, after)
  | .rconAllowed password argument =>
    let (allowed, after) := rconAllowed state password argument now
    (⟨allowed, none⟩, after)

def asks (ip : Ipv4) (request : Request) : Bool :=
  request.call.sender.any fun sender => sender.type = .naIp && sender.ip = ip

/-- The table right before the lookup of a request: the garbage collector has had its turn. -/
def sweptFor (state : Limits) (request : Request) : BucketMap :=
  (collectGarbage state 1000 (.ofNat request.now)).buckets

/-! ## The table -/

theorem size_insert_of_mem {buckets : BucketMap} {key : UInt32} {old : CodeBucket} (bucket : CodeBucket)
    (found : buckets.lookup key = some old) : size (buckets.insert key bucket) = size buckets := by
  have member : key ∈ buckets.keys := AList.mem_keys.mp (AList.lookup_isSome.mp (by rw [found]; rfl))
  have positive := List.length_pos_of_mem member
  have keys (map : BucketMap) : size map = map.keys.length := by simp [size, AList.keys, List.keys]
  rw [keys, keys, AList.keys_insert, List.length_cons, List.length_erase_of_mem member]
  omega

theorem size_insert_of_none {buckets : BucketMap} {key : UInt32} (bucket : CodeBucket)
    (missing : buckets.lookup key = none) : size (buckets.insert key bucket) = size buckets + 1 := by
  rw [size, AList.entries_insert_of_notMem (AList.lookup_eq_none.mp missing), List.length_cons, size]

theorem lookup_keep {test : CodeBucket → Bool} {buckets : BucketMap} {key : UInt32} {bucket : CodeBucket} :
    (keep test buckets).lookup key = some bucket ↔ buckets.lookup key = some bucket ∧ test bucket = true := by
  have left := @AList.mem_lookup_iff UInt32 (fun _ => CodeBucket) _ key bucket (keep test buckets)
  have right := @AList.mem_lookup_iff UInt32 (fun _ => CodeBucket) _ key bucket buckets
  rw [Option.mem_def] at left right
  rw [left, right, keep, List.mem_filter]

/-! ## What a call does to the slot of one address -/

/-- The garbage collector leaves a slot alone or erases an empty bucket. -/
inductive Sweep (now : UInt32) : Option CodeBucket → Option CodeBucket → Prop
  | kept (slot) : Sweep now slot slot
  | erased (bucket) (empty : emptied 1000 now bucket = true) : Sweep now (some bucket) none

theorem sweep_keep (buckets : BucketMap) (key now : UInt32) :
    Sweep now (buckets.lookup key) ((keep (fun bucket => !emptied 1000 now bucket) buckets).lookup key) := by
  cases found : buckets.lookup key with
  | none =>
    have still : (keep (fun bucket => !emptied 1000 now bucket) buckets).lookup key = none := by
      apply Option.eq_none_iff_forall_ne_some.mpr
      intro bucket present
      simp [(lookup_keep.mp present).1] at found
    rw [still]
    exact Sweep.kept none
  | some bucket =>
    cases empty : emptied 1000 now bucket with
    | false =>
      have still : (keep (fun bucket => !emptied 1000 now bucket) buckets).lookup key = some bucket :=
        lookup_keep.mpr ⟨found, by simp only [empty, Bool.not_false]⟩
      rw [still]
      exact Sweep.kept (some bucket)
    | true =>
      have gone : (keep (fun bucket => !emptied 1000 now bucket) buckets).lookup key = none := by
        apply Option.eq_none_iff_forall_ne_some.mpr
        intro other present
        obtain ⟨same, stays⟩ := lookup_keep.mp present
        obtain rfl : bucket = other := Option.some.inj (found.symm.trans same)
        simp [empty] at stays
      rw [gone]
      exact Sweep.erased bucket empty

theorem sweep_collectGarbage (state : Limits) (key now : UInt32) :
    Sweep now (state.buckets.lookup key) ((collectGarbage state 1000 now).buckets.lookup key) := by
  rw [collectGarbage]
  split
  · exact sweep_keep state.buckets key now
  · exact Sweep.kept _

theorem statusAllowed_buckets (state : Limits) (sender : Netadr) (now : UInt32) :
    (statusAllowed state sender now).2.buckets = (addressAllowed state sender now).2.buckets := by
  rw [statusAllowed]
  split <;> simp_all

theorem rconAllowed_buckets (state : Limits) (password argument : CString) (now : UInt32) :
    (rconAllowed state password argument now).2.buckets = state.buckets := by
  rw [rconAllowed]
  split <;> rfl

theorem serve_buckets (state : Limits) (request : Request) :
    (∃ sender, request.call.sender = some sender ∧
      (serve state request).1.address = some (addressAllowed state sender (.ofNat request.now)).1 ∧
      (serve state request).2.buckets = (addressAllowed state sender (.ofNat request.now)).2.buckets) ∨
    request.call.sender = none ∧ (serve state request).1.address = none ∧
      (serve state request).2.buckets = state.buckets := by
  cases call : request.call with
  | addressAllowed sender => exact Or.inl ⟨sender, rfl, by simp only [serve, call], by simp only [serve, call]⟩
  | statusAllowed sender =>
    refine Or.inl ⟨sender, rfl, by simp only [serve, call], ?_⟩
    simp only [serve, call, statusAllowed_buckets]
  | rconAllowed password argument =>
    refine Or.inr ⟨rfl, by simp only [serve, call], ?_⟩
    simp only [serve, call, rconAllowed_buckets]

theorem serve_other (state : Limits) {request : Request} {ip : Ipv4} (other : asks ip request = false) :
    Sweep (.ofNat request.now) (state.buckets.lookup ip.key) ((serve state request).2.buckets.lookup ip.key) := by
  obtain ⟨sender, asked, _, buckets⟩ | ⟨_, _, buckets⟩ := serve_buckets state request
  · rw [buckets]
    by_cases listed : sender.type = .naIp
    · have apart : ip.key ≠ sender.ip.key := by
        intro same
        simp [asks, asked, listed, Ipv4.key_injective same] at other
      have swept := sweep_collectGarbage state ip.key (.ofNat request.now)
      obtain ⟨_, _, result⟩ | ⟨bucket, _, result⟩ := addressAllowed_cases state (.ofNat request.now) listed
      · rw [result]
        exact swept
      · rw [result]
        simpa only [AList.lookup_insert_ne apart] using swept
    · rw [addressAllowed_other state _ listed]
      exact Sweep.kept _
  · rw [buckets]
    exact Sweep.kept _

/-- A request of the address finds a full table, or is offered to the bucket of its slot. -/
theorem serve_own (state : Limits) {request : Request} {ip : Ipv4} (own : asks ip request = true) :
    (sweptFor state request).lookup ip.key = none ∧ maxBuckets ≤ size (sweptFor state request) ∧
        (serve state request).1.address = some false ∧ (serve state request).2.buckets.lookup ip.key = none ∨
      ∃ bucket, Fetched (sweptFor state request) ip.key (.ofNat request.now) bucket ∧
        (serve state request).1.address = some (!(limit bucket 10 1000 (.ofNat request.now)).1) ∧
        (serve state request).2.buckets.lookup ip.key = some (limit bucket 10 1000 (.ofNat request.now)).2 := by
  obtain ⟨sender, asked, address, buckets⟩ | ⟨asked, _, _⟩ := serve_buckets state request
  · simp only [asks, asked, Option.any_some, Bool.and_eq_true, decide_eq_true_eq] at own
    obtain ⟨listed, rfl⟩ := own
    rw [address, buckets]
    obtain ⟨missing, full, result⟩ | ⟨bucket, fetched, result⟩ :=
      addressAllowed_cases state (.ofNat request.now) listed
    · left
      rw [result]
      exact ⟨missing, full, rfl, missing⟩
    · right
      rw [result]
      exact ⟨bucket, fetched, rfl, AList.lookup_insert _⟩
  · simp [asks, asked] at own

/-! ## The stored buckets and the size of the table -/

/-- Each stored bucket holds at most its capacity, and the table keeps to its cap. -/
structure Sound (state : Limits) : Prop where
  held : ∀ key bucket, state.buckets.lookup key = some bucket → 0 ≤ bucket.burst ∧ bucket.burst ≤ 10
  capped : size state.buckets ≤ maxBuckets

theorem limit_burst {bucket : CodeBucket} (period now : UInt32) (low : 0 ≤ bucket.burst) (high : bucket.burst ≤ 10) :
    0 ≤ (limit bucket 10 period now).2.burst ∧ (limit bucket 10 period now).2.burst ≤ 10 := by
  have drained : asUnsigned bucket.burst < (now - bucket.lastTime) / period ∨
      0 ≤ asInt ((now - bucket.lastTime) / period) ∧ asInt ((now - bucket.lastTime) / period) ≤ bucket.burst := by
    by_cases faster : asUnsigned bucket.burst < (now - bucket.lastTime) / period
    · exact Or.inl faster
    · right
      obtain ⟨n, same⟩ := Int.eq_ofNat_of_zero_le low
      rw [UInt32.lt_iff_toNat_lt, same, asUnsigned_ofNat (by omega)] at faster
      rw [asInt_of_lt (by omega)]
      omega
  simp only [limit]
  split
  · split <;> simp only <;> omega
  · rename_i kept
    obtain faster | ⟨some, most⟩ := drained
    · exact absurd faster kept
    · split <;> simp only at * <;> omega

theorem sound_collectGarbage {state : Limits} (now : UInt32) (sound : Sound state) :
    Sound (collectGarbage state 1000 now) := by
  rw [collectGarbage]
  split
  · constructor
    · intro key bucket found
      exact sound.held key bucket (lookup_keep.mp found).1
    · exact Nat.le_trans (List.length_filter_le _ _) sound.capped
  · exact sound

theorem sound_serve (state : Limits) (request : Request) (sound : Sound state) : Sound (serve state request).2 := by
  have swept := sound_collectGarbage (.ofNat request.now) sound
  suffices tables : ∀ buckets, buckets = (serve state request).2.buckets →
      (∀ key bucket, buckets.lookup key = some bucket → 0 ≤ bucket.burst ∧ bucket.burst ≤ 10) ∧
        size buckets ≤ maxBuckets from ⟨(tables _ rfl).1, (tables _ rfl).2⟩
  intro buckets same
  obtain ⟨sender, _, _, table⟩ | ⟨_, _, table⟩ := serve_buckets state request
  · by_cases listed : sender.type = .naIp
    · obtain ⟨_, _, result⟩ | ⟨bucket, fetched, result⟩ := addressAllowed_cases state (.ofNat request.now) listed
      · rw [same, table, result]
        exact ⟨swept.held, swept.capped⟩
      · rw [same, table, result]
        have few : 0 ≤ bucket.burst ∧ bucket.burst ≤ 10 := by
          obtain found | ⟨_, _, rfl⟩ := fetched
          · exact swept.held _ _ found
          · exact ⟨Int.le_refl 0, show (0 : Int) ≤ 10 by decide⟩
        constructor
        · intro key other found
          by_cases own : key = sender.ip.key
          · rw [own, AList.lookup_insert] at found
            obtain rfl := Option.some.inj found
            exact limit_burst _ _ few.1 few.2
          · rw [AList.lookup_insert_ne own] at found
            exact swept.held key other found
        · obtain found | ⟨missing, room, _⟩ := fetched
          · rw [size_insert_of_mem _ found]
            exact swept.capped
          · rw [size_insert_of_none _ missing]
            exact room
    · rw [same, table, addressAllowed_other state _ listed]
      exact ⟨sound.held, sound.capped⟩
  · rw [same, table]
    exact ⟨sound.held, sound.capped⟩

theorem sound_loaded : Sound loaded :=
  ⟨fun key _ found => by simp [loaded, AList.lookup_empty] at found, Nat.zero_le _⟩

/-! ## At most ten requests and one a second -/

/-- The slot of an address bounds a count of its accepted requests. -/
def SlotPaced (start count now : Nat) : Option CodeBucket → Prop
  | none => Paced 10 1000 start count now none
  | some bucket => PacedCode 10 1000 start count now bucket

theorem SlotPaced.later {start count now next : Nat} {slot : Option CodeBucket}
    (paced : SlotPaced start count now slot) (after : now ≤ next) : SlotPaced start count next slot := by
  cases slot with
  | none =>
    have paced : Paced 10 1000 start count now none := paced
    exact paced.later after
  | some bucket => exact PacedCode.later paced after

/-- A bucket erased by the collector had drained: the words cannot show more time than has passed. -/
theorem SlotPaced.sweep {start count now : Nat} {slot swept : Option CodeBucket}
    (paced : SlotPaced start count now slot) (sweep : Sweep (.ofNat now) slot swept) :
    SlotPaced start count now swept := by
  cases sweep with
  | kept => exact paced
  | erased code empty =>
    obtain ⟨bucket, ⟨moment, burst⟩, held⟩ := paced
    have few := held.2.1
    have past := Nat.mod_le (now - bucket.last) 4294967296
    simp only [emptied, decide_eq_true_eq, UInt32.lt_iff_toNat_lt, UInt32.toNat_mul, moment, burst,
      elapsed_toNat held.1, asUnsigned_ofNat (show bucket.burst < 4294967296 by omega)] at empty
    rw [show (1000 : UInt32).toNat = 1000 from rfl, Nat.mod_eq_of_lt (by omega)] at empty
    exact held.sweep (by omega)

theorem SlotPaced.fetched {start count now : Nat} {buckets : BucketMap} {key : UInt32} {bucket : CodeBucket}
    (paced : SlotPaced start count now (buckets.lookup key)) (fetched : Fetched buckets key (.ofNat now) bucket) :
    PacedCode 10 1000 start count now bucket := by
  obtain found | ⟨missing, _, rfl⟩ := fetched
  · rw [found] at paced
    exact paced
  · rw [missing] at paced
    exact ⟨⟨now, 0⟩, ⟨rfl, rfl⟩, Paced.create paced⟩

def acceptedWithin (ip : Ipv4) (start width : Nat) (entry : Request × Verdict) : Bool :=
  asks ip entry.1 && entry.2.address == some true && within start width entry.1.now

theorem slotPaced_serve {ip : Ipv4} {start width count : Nat} {state : Limits} {request : Request}
    (paced : SlotPaced start count request.now (state.buckets.lookup ip.key)) (few : count ≤ 10 + (width + 999) / 1000) :
    SlotPaced start (count + if acceptedWithin ip start width (request, (serve state request).1) then 1 else 0)
        request.now ((serve state request).2.buckets.lookup ip.key) ∧
      (count + if acceptedWithin ip start width (request, (serve state request).1) then 1 else 0) ≤
        10 + (width + 999) / 1000 := by
  cases own : asks ip request with
  | false =>
    have unmarked : acceptedWithin ip start width (request, (serve state request).1) = false := by
      simp only [acceptedWithin, own, Bool.false_and]
    rw [unmarked]
    exact ⟨paced.sweep (serve_other state own), few⟩
  | true =>
    have swept := paced.sweep (sweep_collectGarbage state ip.key (.ofNat request.now))
    obtain ⟨missing, _, refused, empty⟩ | ⟨bucket, fetched, answer, stored⟩ := serve_own state own
    · have unmarked : acceptedWithin ip start width (request, (serve state request).1) = false := by
        simp [acceptedWithin, refused]
      rw [unmarked, empty]
      have paced : SlotPaced start count request.now ((sweptFor state request).lookup ip.key) := swept
      rw [missing] at paced
      exact ⟨paced, few⟩
    · have marked : acceptedWithin ip start width (request, (serve state request).1) =
          (!(limit bucket 10 1000 (.ofNat request.now)).1 && within start width request.now) := by
        simp only [acceptedWithin, own, answer, Bool.true_and]
        cases (limit bucket 10 1000 (.ofNat request.now)).1 <;> rfl
      rw [marked, stored]
      exact (swept.fetched fetched).limit_within width (by decide) (by decide) (by decide) few

/-- In every run from the loaded module, an address gets at most ten requests and one for each second begun through in
every window, and every state reached is sound. -/
theorem address_limited :
    (∀ requests, Sound (final serve loaded requests)) ∧
    ∀ (requests : List Request) (ip : Ipv4) (start width : Nat), requests.Pairwise (fun a b => a.now ≤ b.now) →
      (trace serve loaded requests).countP (acceptedWithin ip start width) ≤ 10 + (width + 999) / 1000 := by
  constructor
  · intro requests
    exact final_keeps serve Sound (fun request _ state => sound_serve state request) loaded sound_loaded
  · intro requests ip start width ordered
    have bounded := countP_trace_le serve Request.now (acceptedWithin ip start width)
      (fun count now state => SlotPaced start count now (state.buckets.lookup ip.key) ∧ count ≤ 10 + (width + 999) / 1000)
      (10 + (width + 999) / 1000) (fun _ _ _ _ after held => ⟨held.1.later after, held.2⟩)
      (fun _ _ _ held => slotPaced_serve held.1 held.2) (fun _ _ _ held => held.2) 0 0 loaded requests ordered
      (fun request _ => Nat.zero_le request.now)
      ⟨by rw [show loaded.buckets.lookup ip.key = none from AList.lookup_empty _]; exact Or.inl rfl, Nat.zero_le _⟩
    omega

def sampleSender : Netadr := ⟨.naIp, ⟨10, 20, 30, 40⟩, 29070⟩
def sampleRequests : List Request :=
  [⟨5, .addressAllowed sampleSender⟩, ⟨7, .statusAllowed ⟨.naIp, ⟨10, 20, 30, 41⟩, 29070⟩⟩,
    ⟨2000, .statusAllowed sampleSender⟩]

theorem address_limited_sample :
    (trace serve loaded sampleRequests).countP (acceptedWithin sampleSender.ip 5 1000) ≤ 11 :=
  address_limited.2 sampleRequests sampleSender.ip 5 1000 (by decide)

/-! ## No refusal of an address that keeps to the rate -/

def arrivals (ip : Ipv4) (requests : List Request) : List Nat := (requests.filter (asks ip)).map Request.now

/-- The slot of an address holds no more than its own arrivals account for. -/
def SlotBacked (origin now : Nat) (times : List Nat) : Option CodeBucket → Prop
  | none => True
  | some code => ∃ bucket, Shows code bucket ∧ origin ≤ bucket.last ∧ bucket.last ≤ now ∧ bucket.burst ≤ 10 ∧
      Backed 1000 times bucket

theorem SlotBacked.later {origin now next : Nat} {times : List Nat} {slot : Option CodeBucket}
    (backed : SlotBacked origin now times slot) (after : now ≤ next) : SlotBacked origin next times slot := by
  cases slot with
  | none => trivial
  | some code =>
    obtain ⟨bucket, shows, begun, past, few, backed⟩ := backed
    exact ⟨bucket, shows, begun, Nat.le_trans past after, few, backed⟩

theorem SlotBacked.sweep {origin now : Nat} {times : List Nat} {slot swept : Option CodeBucket}
    (backed : SlotBacked origin now times slot) (sweep : Sweep (.ofNat now) slot swept) :
    SlotBacked origin now times swept := by
  cases sweep with
  | kept => exact backed
  | erased => trivial

theorem SlotBacked.fetched {origin now : Nat} {times : List Nat} {buckets : BucketMap} {key : UInt32}
    {bucket : CodeBucket} (backed : SlotBacked origin now times (buckets.lookup key)) (begun : origin ≤ now)
    (fetched : Fetched buckets key (.ofNat now) bucket) : SlotBacked origin now times (some bucket) := by
  obtain found | ⟨_, _, rfl⟩ := fetched
  · rw [found] at backed
    exact backed
  · exact ⟨⟨now, 0⟩, ⟨rfl, rfl⟩, begun, Nat.le_refl now, Nat.zero_le 10, backed_create times now⟩

/-- Within one period of the clock, `Limit` keeps the account and accepts the next arrival of a sparse source. -/
theorem SlotBacked.limit {origin now : Nat} {times : List Nat} {code : CodeBucket}
    (backed : SlotBacked origin now times (some code)) (near : now < origin + 4294967296) :
    SlotBacked origin now (times ++ [now]) (some (limit code 10 1000 (.ofNat now)).2) ∧
      ((∀ time ∈ times, time ≤ now) → Sparse 10 1000 (times ++ [now]) →
        (limit code 10 1000 (.ofNat now)).1 = false) := by
  obtain ⟨bucket, shows, begun, past, few, backed⟩ := backed
  obtain ⟨last, _, _, same, drop, after⟩ :=
    limit_shows 10 shows past (by omega) (show 1000 < 4294967296 by decide)
  obtain rfl := same (by omega)
  constructor
  · refine ⟨_, after, ?_, ?_, offer_burst_le 10 1000 bucket now few, backed.offer (by decide) past⟩
    · rw [offer_last]
      exact Nat.le_trans begun (last_le_drain 1000 bucket now past)
    · rw [offer_last]
      exact drain_last_le 1000 bucket now
  · intro seen sparse
    have accepted := backed.accepted (by decide) past seen sparse
    have dropped := drop
    rw [accepted] at dropped
    exact dropped

theorem arrivals_append (ip : Ipv4) (before after : List Request) :
    arrivals ip (before ++ after) = arrivals ip before ++ arrivals ip after := by
  simp only [arrivals, List.filter_append, List.map_append]

theorem arrivals_le {ip : Ipv4} {requests : List Request} {now : Nat} (seen : ∀ request ∈ requests, request.now ≤ now) :
    ∀ time ∈ arrivals ip requests, time ≤ now := by
  intro time member
  obtain ⟨request, listed, rfl⟩ := List.mem_map.mp member
  exact seen request (List.mem_filter.mp listed).1

theorem slotBacked_final (ip : Ipv4) (origin now : Nat) (requests : List Request)
    (ordered : requests.Pairwise fun a b => a.now ≤ b.now)
    (clock : ∀ request ∈ requests, origin ≤ request.now ∧ request.now < origin + 4294967296)
    (seen : ∀ request ∈ requests, request.now ≤ now) :
    SlotBacked origin now (arrivals ip requests) ((final serve loaded requests).buckets.lookup ip.key) := by
  induction requests using List.reverseRecOn generalizing now with
  | nil =>
    rw [show (final serve loaded []).buckets.lookup ip.key = none from AList.lookup_empty _]
    trivial
  | append_singleton before request hypothesis =>
    obtain ⟨earlier, _, last⟩ := List.pairwise_append.mp ordered
    obtain ⟨begun, near⟩ := clock request (by simp)
    have backed := hypothesis request.now earlier (fun r member => clock r (List.mem_append_left _ member))
      (fun r member => last r member request List.mem_cons_self)
    refine SlotBacked.later ?_ (seen request (by simp))
    rw [arrivals_append, final_append]
    cases own : asks ip request with
    | false =>
      have none : arrivals ip [request] = [] := by simp [arrivals, own]
      rw [none, List.append_nil]
      exact backed.sweep (serve_other _ own)
    | true =>
      have one : arrivals ip [request] = [request.now] := by simp [arrivals, own]
      have swept := backed.sweep (sweep_collectGarbage _ ip.key (.ofNat request.now))
      rw [one]
      simp only [final]
      obtain ⟨_, _, _, empty⟩ | ⟨bucket, fetched, _, stored⟩ := serve_own (final serve loaded before) own
      · rw [empty]
        trivial
      · rw [stored]
        exact ((swept.fetched begun fetched).limit near).1

/-- An address whose requests keep to ten and one for each whole second, in every window, is never refused, whatever
the other addresses send, while the table has room whenever the address finds no entry of its own. -/
theorem address_never_refused (requests : List Request) (ip : Ipv4) (origin : Nat)
    (ordered : requests.Pairwise fun a b => a.now ≤ b.now)
    (clock : ∀ request ∈ requests, origin ≤ request.now ∧ request.now < origin + 4294967296)
    (sparse : Sparse 10 1000 (arrivals ip requests))
    (room : ∀ before request after, requests = before ++ request :: after → asks ip request = true →
      (sweptFor (final serve loaded before) request).lookup ip.key = none →
      size (sweptFor (final serve loaded before) request) < maxBuckets) :
    ∀ entry ∈ trace serve loaded requests, asks ip entry.1 = true → entry.2.address = some true := by
  intro entry member own
  obtain ⟨before, after, split, answer⟩ := mem_trace serve member
  rw [answer]
  obtain ⟨begun, near⟩ := clock entry.1 (by simp [split])
  have parts := ordered
  rw [split] at parts
  obtain ⟨earlier, _, last⟩ := List.pairwise_append.mp parts
  have seen : ∀ request ∈ before, request.now ≤ entry.1.now :=
    fun request listed => last request listed entry.1 List.mem_cons_self
  have backed := slotBacked_final ip origin entry.1.now before earlier
    (fun request listed => clock request (by rw [split]; exact List.mem_append_left _ listed)) seen
  have swept := backed.sweep (sweep_collectGarbage _ ip.key (.ofNat entry.1.now))
  obtain ⟨missing, full, _, _⟩ | ⟨bucket, fetched, decision, _⟩ := serve_own (final serve loaded before) own
  · exact absurd full (Nat.not_le_of_lt (room before entry.1 after split own missing))
  · have own_arrivals : arrivals ip requests = arrivals ip before ++ [entry.1.now] ++ arrivals ip after := by
      rw [split, show before ++ entry.1 :: after = before ++ [entry.1] ++ after by simp, arrivals_append,
        arrivals_append]
      simp [arrivals, own]
    rw [own_arrivals] at sparse
    rw [decision, ((swept.fetched begun fetched).limit near).2 (arrivals_le seen) sparse.prefix]
    rfl

theorem size_collectGarbage_le (state : Limits) (now : UInt32) :
    size (collectGarbage state 1000 now).buckets ≤ size state.buckets := by
  rw [collectGarbage]
  split
  · exact List.length_filter_le _ _
  · exact Nat.le_refl _

theorem size_addressAllowed_le (state : Limits) (sender : Netadr) (now : UInt32) :
    size (addressAllowed state sender now).2.buckets ≤ size state.buckets + 1 := by
  have swept := size_collectGarbage_le state now
  by_cases listed : sender.type = .naIp
  · obtain ⟨_, _, result⟩ | ⟨bucket, fetched, result⟩ := addressAllowed_cases state now listed
    · rw [result]
      exact Nat.le_succ_of_le swept
    · rw [result]
      obtain found | ⟨missing, _, _⟩ := fetched
      · rw [size_insert_of_mem _ found]
        exact Nat.le_succ_of_le swept
      · rw [size_insert_of_none _ missing]
        exact Nat.succ_le_succ swept
  · rw [addressAllowed_other state _ listed]
    exact Nat.le_succ _

theorem size_serve_le (state : Limits) (request : Request) :
    size (serve state request).2.buckets ≤ size state.buckets + 1 := by
  obtain ⟨sender, _, _, buckets⟩ | ⟨_, _, buckets⟩ := serve_buckets state request
  · rw [buckets]
    exact size_addressAllowed_le state sender _
  · rw [buckets]
    exact Nat.le_succ _

theorem size_final_le (requests : List Request) : size (final serve loaded requests).buckets ≤ requests.length := by
  induction requests using List.reverseRecOn with
  | nil => exact Nat.zero_le 0
  | append_singleton before request hypothesis =>
    have grown := size_serve_le (final serve loaded before) request
    rw [final_append, List.length_append, List.length_singleton]
    exact Nat.le_trans grown (Nat.succ_le_succ hypothesis)

theorem sparse_sampleRequests : Sparse 10 1000 (arrivals sampleSender.ip sampleRequests) := by
  intro start width
  have two : (arrivals sampleSender.ip sampleRequests).length = 2 := by decide
  have counted := List.countP_le_length (p := fun time => decide (start ≤ time) && decide (time ≤ start + width))
    (l := arrivals sampleSender.ip sampleRequests)
  omega

theorem address_never_refused_sample :
    (trace serve loaded sampleRequests).all (fun entry =>
      !asks sampleSender.ip entry.1 || entry.2.address = some true) = true := by
  rw [List.all_eq_true]
  intro entry member
  have accepted := address_never_refused sampleRequests sampleSender.ip 0 (by decide) (by decide) sparse_sampleRequests
    (by
      intro before request after split _ _
      have short := congrArg List.length split
      rw [List.length_append, List.length_cons, show sampleRequests.length = 3 from rfl] at short
      have grown := size_final_le before
      have swept : size (sweptFor (final serve loaded before) request) ≤ _ :=
        size_collectGarbage_le (final serve loaded before) (.ofNat request.now)
      rw [maxBuckets]
      omega)
    entry member
  cases own : asks sampleSender.ip entry.1 with
  | true => simp [accepted own]
  | false => rfl

end YbeProxy.AddressLimit
