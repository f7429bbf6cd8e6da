import YbeProxy.AddressLimit
import YbeProxy.Cmd

/-!
# The packet filter

`Proxy_SV_PacketEvent_Filter` of `Engine/Hooks/server/sv_main.cpp`, over the limiters. How the engine reads a line of
a packet (`MSG_ReadStringLine`) is a parameter.
-/

namespace YbeProxy.PacketFilter
open YbeProxy.Strings YbeProxy.Addresses YbeProxy.Cmd YbeProxy.Runs YbeProxy.RateLimit

/-- `msg_t`: the buffer and the size of the packet in it. Bytes of earlier packets may follow the packet. -/
structure Msg where
  data : List Char
  cursize : Nat
  fits : cursize ≤ data.length

/-- A packet at a time, with the value that `sv_rconPassword` has then. The bytes of its buffer behind `cursize`, which the
engine leaves from packets before it, are part of the packet: a run without some packets has them as they were. -/
structure Packet where
  now : Nat
  sender : Netadr
  msg : Msg
  rconPassword : CString

inductive Limiter
  | addressAllowed | statusAllowed | rconAllowed
  deriving DecidableEq

/-- The original `SV_PacketEvent` runs, the packet is dropped, or it is dropped after the proxy has answered it. -/
inductive Verdict
  | pass | drop | answer
  deriving DecidableEq

/-- What becomes of a packet, and the limiters that were asked with their answers. -/
structure Decision where
  verdict : Verdict
  asked : List (Limiter × Bool)
  deriving DecidableEq

def connectionless (msg : Msg) : Bool := 4 ≤ msg.cursize && msg.data.take 4 == List.replicate 4 '\xff'

def body (msg : Msg) : List Char := (msg.data.take msg.cursize).drop 4

variable (msgReadStringLine : List Char → CString)

def tokens (msg : Msg) : List CString := cmdTokenizeString2 (msgReadStringLine (body msg)) false

def proxySvPacketEventFilter (state : Limits) (packet : Packet) : Decision × Limits :=
  let now := UInt32.ofNat packet.now
  if !connectionless packet.msg then (⟨.pass, []⟩, state)
  -- The raw bytes: they may run past the packet.
  else if qStrncmp "connect".toList (packet.msg.data.drop 4) 7 = 0 then
    let (allowed, after) := addressAllowed state packet.sender now
    (⟨if allowed then .pass else .drop, [(.addressAllowed, allowed)]⟩, after)
  else
    let argv := cmdArgv (tokens msgReadStringLine packet.msg)
    if qStricmp (argv 0) "getstatus".toList = 0 ∨ qStricmp (argv 0) "getinfo".toList = 0 then
      if 128 < (argv 1).length then (⟨.drop, []⟩, state)
      else
        let (allowed, after) := statusAllowed state packet.sender now
        (⟨if allowed then .pass else .drop, [(.statusAllowed, allowed)]⟩, after)
    else if qStricmp (argv 0) "getchallenge".toList = 0 then
      let (allowed, after) := addressAllowed state packet.sender now
      (⟨if allowed then .answer else .drop, [(.addressAllowed, allowed)]⟩, after)
    else if qStricmp (argv 0) "rcon".toList = 0 then
      let (allowed, after) := rconAllowed state packet.rconPassword (argv 1) now
      (⟨if allowed then .pass else .drop, [(.rconAllowed, allowed)]⟩, after)
    else if qStricmp (argv 0) "ipAuthorize".toList = 0 then (⟨.drop, []⟩, state)
    else (⟨.pass, []⟩, state)

/-- The command that the engine dispatches the packet to: its first token, compared without case. -/
def dispatches (msg : Msg) (name : String) : Bool :=
  connectionless msg && qStricmp (cmdArgv (tokens msgReadStringLine msg) 0) name.toList == 0

def rawConnect (msg : Msg) : Bool := qStrncmp "connect".toList (msg.data.drop 4) 7 == 0

/-- What the filter relies on when the engine reads a line: letters are read as they are, and nothing is read where
nothing is left. -/
structure ReadsLines : Prop where
  nothing : msgReadStringLine [] = []
  letter : ∀ c rest, c.isAlpha = true → ∃ tail, msgReadStringLine (c :: rest) = c :: tail

/-! ## What the filter does with a packet -/

/-- The ways through the filter, with the test that leads to each. -/
inductive Filtered (state : Limits) (packet : Packet) : Decision × Limits → Prop
  | sequenced (sequenced : connectionless packet.msg = false) : Filtered state packet (⟨.pass, []⟩, state)
  | connect (marked : connectionless packet.msg = true) (raw : rawConnect packet.msg = true) (allowed after)
      (result : addressAllowed state packet.sender (.ofNat packet.now) = (allowed, after)) :
      Filtered state packet (⟨if allowed then .pass else .drop, [(.addressAllowed, allowed)]⟩, after)
  | tooLong (status : dispatches msgReadStringLine packet.msg "getstatus" ∨ dispatches msgReadStringLine packet.msg "getinfo")
      (plain : rawConnect packet.msg = false) : Filtered state packet (⟨.drop, []⟩, state)
  | status (status : dispatches msgReadStringLine packet.msg "getstatus" ∨ dispatches msgReadStringLine packet.msg "getinfo")
      (plain : rawConnect packet.msg = false) (allowed after)
      (result : statusAllowed state packet.sender (.ofNat packet.now) = (allowed, after)) :
      Filtered state packet (⟨if allowed then .pass else .drop, [(.statusAllowed, allowed)]⟩, after)
  | challenge (challenge : dispatches msgReadStringLine packet.msg "getchallenge") (plain : rawConnect packet.msg = false)
      (allowed after) (result : addressAllowed state packet.sender (.ofNat packet.now) = (allowed, after)) :
      Filtered state packet (⟨if allowed then .answer else .drop, [(.addressAllowed, allowed)]⟩, after)
  | rcon (rcon : dispatches msgReadStringLine packet.msg "rcon") (plain : rawConnect packet.msg = false) (allowed after)
      (result : rconAllowed state packet.rconPassword (cmdArgv (tokens msgReadStringLine packet.msg) 1)
        (.ofNat packet.now) = (allowed, after)) :
      Filtered state packet (⟨if allowed then .pass else .drop, [(.rconAllowed, allowed)]⟩, after)
  | other (verdict) (plain : rawConnect packet.msg = false)
      (none : ∀ name ∈ ["getstatus", "getinfo", "getchallenge", "rcon"], dispatches msgReadStringLine packet.msg name = false)
      (ignored : dispatches msgReadStringLine packet.msg "ipAuthorize" = false → verdict = .pass) :
      Filtered state packet (⟨verdict, []⟩, state)

theorem filtered (state : Limits) (packet : Packet) :
    Filtered msgReadStringLine state packet (proxySvPacketEventFilter msgReadStringLine state packet) := by
  rw [proxySvPacketEventFilter]
  by_cases marked : connectionless packet.msg = true
  · simp only [marked, Bool.not_true, Bool.false_eq_true, if_false]
    have dispatched (name : String) : dispatches msgReadStringLine packet.msg name = true ↔
        qStricmp (cmdArgv (tokens msgReadStringLine packet.msg) 0) name.toList = 0 := by
      rw [dispatches, marked, Bool.true_and, beq_iff_eq]
    by_cases raw : qStrncmp "connect".toList (packet.msg.data.drop 4) 7 = 0
    · rw [if_pos raw]
      exact Filtered.connect marked (by rw [rawConnect, raw]; rfl) _ _ rfl
    · have plain : rawConnect packet.msg = false := by
        rw [rawConnect, beq_eq_false_iff_ne]
        exact raw
      rw [if_neg raw]
      simp only [← dispatched]
      split
      · rename_i status
        split
        · exact Filtered.tooLong status plain
        · exact Filtered.status status plain _ _ rfl
      rename_i status
      split
      · rename_i challenge
        exact Filtered.challenge challenge plain _ _ rfl
      rename_i challenge
      split
      · rename_i rcon
        exact Filtered.rcon rcon plain _ _ rfl
      rename_i rcon
      have none : ∀ name ∈ ["getstatus", "getinfo", "getchallenge", "rcon"],
          dispatches msgReadStringLine packet.msg name = false := by
        intro name member
        simp only [List.mem_cons, List.not_mem_nil, or_false] at member
        rcases member with rfl | rfl | rfl | rfl
        · exact Bool.eq_false_of_not_eq_true fun yes => status (Or.inl yes)
        · exact Bool.eq_false_of_not_eq_true fun yes => status (Or.inr yes)
        · exact Bool.eq_false_of_not_eq_true challenge
        · exact Bool.eq_false_of_not_eq_true rcon
      split
      · rename_i authorize
        exact Filtered.other .drop plain none (fun no => by rw [authorize] at no; cases no)
      · exact Filtered.other .pass plain none (fun _ => rfl)
  · have sequenced := Bool.eq_false_of_not_eq_true marked
    simp only [sequenced, Bool.not_false, if_true]
    exact Filtered.sequenced sequenced

/-! ## Every command has its limiter -/

variable {msgReadStringLine}

/-- Names that no token equals both of, case ignored. -/
def Apart (a b : String) : Prop := a.toList.length < 99999 ∧ b.toList.length < 99999 ∧ ¬ EqNoCase a.toList b.toList

instance (a b : String) : Decidable (Apart a b) := inferInstanceAs (Decidable (_ ∧ _))

/-- A packet is dispatched to one command only. -/
theorem not_dispatches_of_apart {msg : Msg} {a b : String} (first : dispatches msgReadStringLine msg a = true)
    (apart : Apart a b) : dispatches msgReadStringLine msg b = false := by
  obtain ⟨shortA, shortB, differ⟩ := apart
  apply Bool.eq_false_of_not_eq_true
  intro second
  simp only [dispatches, Bool.and_eq_true, beq_iff_eq] at first second
  exact differ (eqNoCase_of_qStricmp shortA shortB first.2 second.2)

theorem token_of_rawConnect (reads : ReadsLines msgReadStringLine) {msg : Msg} (raw : rawConnect msg = true) :
    cmdArgv (tokens msgReadStringLine msg) 0 = [] ∨ (cmdArgv (tokens msgReadStringLine msg) 0).head? = some 'c' := by
  rw [rawConnect, beq_iff_eq, qStrncmp_eq_zero_iff] at raw
  have bytes : body msg = (msg.data.drop 4).take (msg.cursize - 4) := List.drop_take ..
  obtain ⟨rest, starts⟩ : ∃ rest, msg.data.drop 4 = 'c' :: rest := by
    cases first : msg.data.drop 4 with
    | nil => simp [first] at raw
    | cons c rest =>
      have letters : "connect".toList = ['c', 'o', 'n', 'n', 'e', 'c', 't'] := by decide
      rw [first, letters] at raw
      simp only [List.take_succ_cons, List.cons.injEq] at raw
      exact ⟨rest, by rw [raw.1]⟩
  rw [tokens, bytes, starts]
  cases msg.cursize - 4 with
  | zero =>
    left
    rw [List.take_zero, reads.nothing]
    exact cmdArgv_zero_of_nil false
  | succ left =>
    right
    obtain ⟨tail, line⟩ := reads.letter 'c' (rest.take left) (by decide)
    rw [List.take_succ_cons, line]
    exact head_cmdArgv_zero tail false (by decide) (by decide) (by decide)

theorem not_dispatches_of_rawConnect (reads : ReadsLines msgReadStringLine) {msg : Msg} (raw : rawConnect msg = true)
    (name : String) (other : name.toList.head?.map Char.toUpper ≠ some 'C')
    (nonempty : name.toList.head?.map Char.toUpper ≠ none) : dispatches msgReadStringLine msg name = false := by
  apply Bool.eq_false_of_not_eq_true
  intro dispatched
  simp only [dispatches, Bool.and_eq_true, beq_iff_eq] at dispatched
  have heads := head_of_qStricmp dispatched.2
  obtain empty | letter := token_of_rawConnect reads raw
  · rw [empty] at heads
    exact nonempty heads.symm
  · rw [letter] at heads
    exact other heads.symm

variable (msgReadStringLine)

def limiterOf (msg : Msg) : Option Limiter :=
  if dispatches msgReadStringLine msg "connect" || dispatches msgReadStringLine msg "getchallenge" then
    some .addressAllowed
  else if dispatches msgReadStringLine msg "getstatus" || dispatches msgReadStringLine msg "getinfo" then
    some .statusAllowed
  else if dispatches msgReadStringLine msg "rcon" then some .rconAllowed
  else none

/-- A packet with a limiter passes, or is answered, only when its limiter accepted it. -/
def Complete (state : Limits) (packet : Packet) : Prop :=
  ∀ limiter, limiterOf msgReadStringLine packet.msg = some limiter →
    (proxySvPacketEventFilter msgReadStringLine state packet).1.verdict ≠ .drop →
    (limiter, true) ∈ (proxySvPacketEventFilter msgReadStringLine state packet).1.asked

variable {msgReadStringLine}

theorem limiterOf_address {msg : Msg} (either : dispatches msgReadStringLine msg "connect" = true ∨
    dispatches msgReadStringLine msg "getchallenge" = true) :
    limiterOf msgReadStringLine msg = some .addressAllowed := by
  rw [limiterOf, if_pos (Bool.or_eq_true_iff.mpr either)]

theorem limiterOf_status {msg : Msg} (either : dispatches msgReadStringLine msg "getstatus" = true ∨
    dispatches msgReadStringLine msg "getinfo" = true) : limiterOf msgReadStringLine msg = some .statusAllowed := by
  have apart : ∀ name ∈ ["connect", "getchallenge"], dispatches msgReadStringLine msg name = false := by
    intro name listed
    have names : ∀ name ∈ ["connect", "getchallenge"], Apart "getstatus" name ∧ Apart "getinfo" name := by decide
    obtain ⟨status, info⟩ := names name listed
    rcases either with first | first
    · exact not_dispatches_of_apart first status
    · exact not_dispatches_of_apart first info
  rw [limiterOf, apart "connect" (by decide), apart "getchallenge" (by decide), Bool.or_self, if_neg Bool.false_ne_true,
    if_pos (Bool.or_eq_true_iff.mpr either)]

theorem limiterOf_rcon {msg : Msg} (dispatched : dispatches msgReadStringLine msg "rcon" = true) :
    limiterOf msgReadStringLine msg = some .rconAllowed := by
  have apart (name : String) (differ : Apart "rcon" name) := not_dispatches_of_apart dispatched differ
  rw [limiterOf, apart "connect" (by decide), apart "getchallenge" (by decide), apart "getstatus" (by decide),
    apart "getinfo" (by decide), dispatched]
  rfl

/-- A limiter that lets a packet through has accepted it. -/
theorem asked_of_kept {limiter : Limiter} {allowed : Bool} {verdict : Verdict}
    (kept : (if allowed then verdict else .drop) ≠ Verdict.drop) : (limiter, true) ∈ [(limiter, allowed)] := by
  cases allowed with
  | false => exact absurd rfl kept
  | true => exact List.mem_singleton_self _

/-- A `connect` that the raw test does not see passes unasked. -/
theorem unasked_of_connect {state : Limits} {packet : Packet} {outcome : Decision × Limits}
    (result : Filtered msgReadStringLine state packet outcome)
    (connect : dispatches msgReadStringLine packet.msg "connect" = true) (spelled : rawConnect packet.msg = false) :
    outcome.1 = ⟨.pass, []⟩ := by
  have apart (name : String) (differ : Apart "connect" name) := not_dispatches_of_apart connect differ
  have status := apart "getstatus" (by decide)
  have info := apart "getinfo" (by decide)
  have challenge := apart "getchallenge" (by decide)
  have rcon := apart "rcon" (by decide)
  cases result with
  | sequenced sequenced => simp [dispatches, sequenced] at connect
  | connect _ raw => simp [raw] at spelled
  | tooLong either => simp [status, info] at either
  | status either => simp [status, info] at either
  | challenge dispatched => simp [challenge] at dispatched
  | rcon dispatched => simp [rcon] at dispatched
  | other verdict _ _ ignored => rw [ignored (apart "ipAuthorize" (by decide))]

/-- A packet that the raw test takes has the limiter of `connect` or none. -/
theorem limiterOf_rawConnect (reads : ReadsLines msgReadStringLine) {msg : Msg} (raw : rawConnect msg = true)
    {limiter : Limiter} (limited : limiterOf msgReadStringLine msg = some limiter) : limiter = .addressAllowed := by
  have other (name : String) (letter : name.toList.head?.map Char.toUpper ≠ some 'C' ∧
      name.toList.head?.map Char.toUpper ≠ none) := not_dispatches_of_rawConnect reads raw name letter.1 letter.2
  rw [limiterOf, other "getstatus" (by decide), other "getinfo" (by decide), other "rcon" (by decide)] at limited
  split at limited
  · exact (Option.some.inj limited).symm
  · cases limited

/-- Where the raw test sees every `connect`, a packet that is kept has been accepted by its limiter. -/
theorem asked_of_filtered (reads : ReadsLines msgReadStringLine) {state : Limits} {packet : Packet}
    {outcome : Decision × Limits} (result : Filtered msgReadStringLine state packet outcome)
    (spelled : dispatches msgReadStringLine packet.msg "connect" = true → rawConnect packet.msg = true)
    {limiter : Limiter} (limited : limiterOf msgReadStringLine packet.msg = some limiter)
    (kept : outcome.1.verdict ≠ .drop) : (limiter, true) ∈ outcome.1.asked := by
  cases result with
  | sequenced sequenced => simp [limiterOf, dispatches, sequenced] at limited
  | connect _ raw allowed after =>
    obtain rfl := limiterOf_rawConnect reads raw limited
    exact asked_of_kept kept
  | tooLong => exact absurd rfl kept
  | status either _ allowed after =>
    obtain rfl := Option.some.inj ((limiterOf_status either).symm.trans limited)
    exact asked_of_kept kept
  | challenge dispatched _ allowed after =>
    obtain rfl := Option.some.inj ((limiterOf_address (Or.inr dispatched)).symm.trans limited)
    exact asked_of_kept kept
  | rcon dispatched _ allowed after =>
    obtain rfl := Option.some.inj ((limiterOf_rcon dispatched).symm.trans limited)
    exact asked_of_kept kept
  | other verdict plain none =>
    have connect : dispatches msgReadStringLine packet.msg "connect" = false := by
      apply Bool.eq_false_of_not_eq_true
      intro dispatched
      simp [spelled dispatched] at plain
    simp [limiterOf, connect, none "getstatus" (by decide), none "getinfo" (by decide),
      none "getchallenge" (by decide), none "rcon" (by decide)] at limited

variable (msgReadStringLine)

/-- The filter is complete for a packet exactly when its raw bytes say `connect` wherever the engine will read that
command: any other spelling of it passes without a limiter. -/
theorem complete_iff (reads : ReadsLines msgReadStringLine) (state : Limits) (packet : Packet) :
    Complete msgReadStringLine state packet ↔
      (dispatches msgReadStringLine packet.msg "connect" = true → rawConnect packet.msg = true) := by
  have result := filtered msgReadStringLine state packet
  constructor
  · intro complete connect
    by_contra spelled
    have passes := unasked_of_connect result connect (Bool.eq_false_of_not_eq_true spelled)
    have asked := complete .addressAllowed (limiterOf_address (Or.inl connect)) (by rw [passes]; nofun)
    rw [passes] at asked
    cases asked
  · intro spelled limiter limited kept
    exact asked_of_filtered reads result spelled limited kept

/-- The bytes up to the end of a line, as the engine reads a line of a short packet. -/
def plainLine (bytes : List Char) : CString :=
  (bytes.takeWhile fun c => c ≠ '\n' && c ≠ '\x00').map fun c => if c = '%' then '.' else c

theorem plainLine_reads : ReadsLines plainLine where
  nothing := rfl
  letter := by
    intro c rest letter
    have line : c ≠ '\n' := by rintro rfl; exact absurd letter (by decide)
    have ended : c ≠ '\x00' := by rintro rfl; exact absurd letter (by decide)
    have percent : c ≠ '%' := by rintro rfl; exact absurd letter (by decide)
    exact ⟨plainLine rest, by simp [plainLine, line, ended, percent]⟩

def wholePacket (bytes : List Char) : Msg := ⟨bytes, bytes.length, Nat.le_refl _⟩

def samplePacket (text : String) : Packet :=
  ⟨1000, AddressLimit.sampleSender, wholePacket (['\xff', '\xff', '\xff', '\xff'] ++ text.toList), "secret".toList⟩

def flooded : Limits :=
  { loaded with buckets := loaded.buckets.insert AddressLimit.sampleSender.ip.key ⟨1000, 10⟩, lastGC := 1000 }

/-- In capitals, `connect` passes for an address that its limiter refuses. -/
theorem upperConnect_unlimited :
    (addressAllowed flooded AddressLimit.sampleSender 1000).1 = false ∧
      (proxySvPacketEventFilter plainLine flooded (samplePacket "CONNECT x")).1 = ⟨.pass, []⟩ ∧
      ¬ Complete plainLine flooded (samplePacket "CONNECT x") := by
  have passes : (proxySvPacketEventFilter plainLine flooded (samplePacket "CONNECT x")).1 = ⟨.pass, []⟩ := by
    decide +kernel
  refine ⟨by decide +kernel, passes, ?_⟩
  intro complete
  have asked := complete .addressAllowed (by decide +kernel) (by rw [passes]; nofun)
  rw [passes] at asked
  cases asked

theorem complete_lowerConnect : Complete plainLine flooded (samplePacket "connect x") :=
  (complete_iff plainLine plainLine_reads flooded (samplePacket "connect x")).mpr fun _ => by decide +kernel

/-! ## Runs of packets -/

def asksStatus (packet : Packet) : Bool :=
  dispatches msgReadStringLine packet.msg "getstatus" || dispatches msgReadStringLine packet.msg "getinfo"
/-- An `rcon` packet with the password, which is set. -/
def validRcon (packet : Packet) : Bool :=
  dispatches msgReadStringLine packet.msg "rcon" &&
    validPassword packet.rconPassword (cmdArgv (tokens msgReadStringLine packet.msg) 1)
/-- An `rcon` packet with another password, or where none is set. -/
def badRcon (packet : Packet) : Bool :=
  dispatches msgReadStringLine packet.msg "rcon" &&
    !validPassword packet.rconPassword (cmdArgv (tokens msgReadStringLine packet.msg) 1)

def passedWithin (kind : Packet → Bool) (start width : Nat) (entry : Packet × Decision) : Bool :=
  kind entry.1 && entry.2.verdict == .pass && within start width entry.1.now

def decisions (packets : List Packet) : List (Packet × Decision) :=
  trace (proxySvPacketEventFilter msgReadStringLine) loaded packets

variable {msgReadStringLine}

/-- What a packet does to a global bucket: it leaves it and is not counted, or one `Limit` decides whether it passes. -/
def Accounts (bucket : Limits → CodeBucket) (kind : Packet → Bool) (period : Nat) (state : Limits) (packet : Packet)
    (outcome : Decision × Limits) : Prop :=
  bucket outcome.2 = bucket state ∧ (kind packet = true → outcome.1.verdict ≠ .pass) ∨
  kind packet = true ∧
    (outcome.1.verdict == .pass) = !(limit (bucket state) (10 : Nat) (.ofNat period) (.ofNat packet.now)).1 ∧
    bucket outcome.2 = (limit (bucket state) (10 : Nat) (.ofNat period) (.ofNat packet.now)).2

section accounts
variable {bucket : Limits → CodeBucket} {kind : Packet → Bool} {period : Nat} {state : Limits} {packet : Packet}
  {outcome : Decision × Limits}

theorem Accounts.other (same : bucket outcome.2 = bucket state) (silent : kind packet = false) :
    Accounts bucket kind period state packet outcome := by
  refine Or.inl ⟨same, ?_⟩
  intro asked
  rw [silent] at asked
  cases asked

theorem Accounts.stopped (same : bucket outcome.2 = bucket state) (kept : outcome.1.verdict ≠ .pass) :
    Accounts bucket kind period state packet outcome := by
  refine Or.inl ⟨same, ?_⟩
  intro _
  exact kept

theorem Accounts.decided {allowed : Bool} {asked : List (Limiter × Bool)} {after : Limits} (asks : kind packet = true)
    (answer : allowed = !(limit (bucket state) (10 : Nat) (.ofNat period) (.ofNat packet.now)).1)
    (stored : bucket after = (limit (bucket state) (10 : Nat) (.ofNat period) (.ofNat packet.now)).2) :
    Accounts bucket kind period state packet (⟨if allowed then .pass else .drop, asked⟩, after) := by
  refine Or.inr ⟨asks, ?_, stored⟩
  rw [← answer]
  cases allowed <;> rfl

/-- The bucket keeps its account of the packets of the kind that pass. -/
theorem Accounts.capped (accounts : Accounts bucket kind period state packet outcome) (positive : 0 < period)
    (fits : period < 4294967296) {start width count : Nat}
    (before : PacedCode 10 period start count packet.now (bucket state) ∧ count ≤ 10 + (width + (period - 1)) / period) :
    let counted := count + if passedWithin kind start width (packet, outcome.1) then 1 else 0
    PacedCode 10 period start counted packet.now (bucket outcome.2) ∧
      counted ≤ 10 + (width + (period - 1)) / period := by
  intro counted
  obtain ⟨same, kept⟩ | ⟨asks, answer, stored⟩ := accounts
  · have uncounted : passedWithin kind start width (packet, outcome.1) = false := by
      rw [passedWithin]
      cases asks : kind packet with
      | false => rfl
      | true => rw [beq_false_of_ne (kept asks), Bool.and_false, Bool.false_and]
    simp only [counted, uncounted, same]
    exact before
  · have decided : passedWithin kind start width (packet, outcome.1) =
        (!(limit (bucket state) (10 : Nat) (.ofNat period) (.ofNat packet.now)).1 && within start width packet.now) := by
      rw [passedWithin, asks, Bool.true_and, answer]
    simp only [counted, decided, stored]
    exact before.1.limit_within width (by decide) positive fits before.2

end accounts

theorem outbound_accounts (reads : ReadsLines msgReadStringLine) (state : Limits) (packet : Packet) :
    Accounts Limits.outbound (asksStatus msgReadStringLine) 100 state packet
      (proxySvPacketEventFilter msgReadStringLine state packet) := by
  have result := filtered msgReadStringLine state packet
  generalize proxySvPacketEventFilter msgReadStringLine state packet = outcome at result ⊢
  have globals := addressAllowed_globals state packet.sender (.ofNat packet.now)
  have silent (status : dispatches msgReadStringLine packet.msg "getstatus" = false)
      (info : dispatches msgReadStringLine packet.msg "getinfo" = false) :
      asksStatus msgReadStringLine packet = false := by
    rw [asksStatus, status, info, Bool.or_self]
  cases result with
  | sequenced sequenced =>
    apply Accounts.other rfl
    apply silent <;> rw [dispatches, sequenced, Bool.false_and]
  | connect _ raw allowed after result =>
    rw [result] at globals
    apply Accounts.other globals.1
    apply silent
    · exact not_dispatches_of_rawConnect reads raw "getstatus" (by decide) (by decide)
    · exact not_dispatches_of_rawConnect reads raw "getinfo" (by decide) (by decide)
  | tooLong => exact Accounts.stopped rfl (by nofun)
  | status either _ allowed after result =>
    obtain ⟨_, ⟨refused, same⟩ | ⟨answer, stored⟩⟩ := statusAllowed_cases state packet.sender (.ofNat packet.now)
    · rw [result] at refused same
      obtain rfl : allowed = false := refused
      exact Accounts.stopped same (by nofun)
    · rw [result] at answer stored
      exact Accounts.decided (Bool.or_eq_true_iff.mpr either) answer stored
  | challenge _ _ allowed after result =>
    rw [result] at globals
    apply Accounts.stopped globals.1
    cases allowed <;> nofun
  | rcon dispatched _ allowed after result =>
    have same : after.outbound = state.outbound := by
      cases valid : validPassword packet.rconPassword (cmdArgv (tokens msgReadStringLine packet.msg) 1) with
      | true =>
        rw [rconAllowed_valid _ valid] at result
        rw [← (Prod.mk.inj result).2]
      | false =>
        rw [rconAllowed_bad _ valid] at result
        rw [← (Prod.mk.inj result).2]
    apply Accounts.other same
    apply silent
    · exact not_dispatches_of_apart dispatched (by decide)
    · exact not_dispatches_of_apart dispatched (by decide)
  | other verdict _ none => exact Accounts.other rfl (silent (none "getstatus" (by decide)) (none "getinfo" (by decide)))

theorem badPassword_accounts (reads : ReadsLines msgReadStringLine) (state : Limits) (packet : Packet) :
    Accounts Limits.badPassword (badRcon msgReadStringLine) 1000 state packet
      (proxySvPacketEventFilter msgReadStringLine state packet) := by
  have result := filtered msgReadStringLine state packet
  generalize proxySvPacketEventFilter msgReadStringLine state packet = outcome at result ⊢
  have globals := addressAllowed_globals state packet.sender (.ofNat packet.now)
  have silent (other : dispatches msgReadStringLine packet.msg "rcon" = false) :
      badRcon msgReadStringLine packet = false := by
    rw [badRcon, other, Bool.false_and]
  cases result with
  | sequenced sequenced =>
    apply Accounts.other rfl
    apply silent
    rw [dispatches, sequenced, Bool.false_and]
  | connect _ raw allowed after result =>
    rw [result] at globals
    apply Accounts.other globals.2
    exact silent (not_dispatches_of_rawConnect reads raw "rcon" (by decide) (by decide))
  | tooLong => exact Accounts.stopped rfl (by nofun)
  | status either _ allowed after result =>
    have kept := (statusAllowed_cases state packet.sender (.ofNat packet.now)).1
    rw [result] at kept
    apply Accounts.other kept
    apply silent
    obtain first | first := either
    · exact not_dispatches_of_apart first (by decide)
    · exact not_dispatches_of_apart first (by decide)
  | challenge _ _ allowed after result =>
    rw [result] at globals
    apply Accounts.stopped globals.2
    cases allowed <;> nofun
  | rcon dispatched _ allowed after result =>
    cases valid : validPassword packet.rconPassword (cmdArgv (tokens msgReadStringLine packet.msg) 1) with
    | true =>
      rw [rconAllowed_valid _ valid] at result
      apply Accounts.other
      · rw [← (Prod.mk.inj result).2]
      · rw [badRcon, valid, Bool.not_true, Bool.and_false]
    | false =>
      rw [rconAllowed_bad _ valid] at result
      obtain ⟨answer, stored⟩ := Prod.mk.inj result
      have bad : badRcon msgReadStringLine packet = true := by
        rw [badRcon, dispatched, valid]
        rfl
      exact Accounts.decided bad answer.symm (by rw [← stored]; rfl)
  | other verdict _ none => exact Accounts.other rfl (silent (none "rcon" (by decide)))

theorem validRcon_step (reads : ReadsLines msgReadStringLine) (state : Limits) {packet : Packet}
    (valid : validRcon msgReadStringLine packet = true) :
    (proxySvPacketEventFilter msgReadStringLine state packet).1.verdict = .pass ∧
      (proxySvPacketEventFilter msgReadStringLine state packet).2 = state := by
  simp only [validRcon, Bool.and_eq_true] at valid
  obtain ⟨dispatched, password⟩ := valid
  have result := filtered msgReadStringLine state packet
  generalize proxySvPacketEventFilter msgReadStringLine state packet = outcome at result ⊢
  have apart (name : String) (differ : Apart "rcon" name) := not_dispatches_of_apart dispatched differ
  have status := apart "getstatus" (by decide)
  have info := apart "getinfo" (by decide)
  have challenge := apart "getchallenge" (by decide)
  cases result with
  | sequenced sequenced => simp [dispatches, sequenced] at dispatched
  | connect _ raw =>
    rw [not_dispatches_of_rawConnect reads raw "rcon" (by decide) (by decide)] at dispatched
    cases dispatched
  | tooLong either => simp [status, info] at either
  | status either => simp [status, info] at either
  | challenge asked => simp [challenge] at asked
  | rcon _ _ allowed after result =>
    rw [rconAllowed_valid _ password] at result
    obtain ⟨rfl, rfl⟩ := Prod.mk.inj result
    exact ⟨rfl, rfl⟩
  | other verdict _ none =>
    rw [none "rcon" (by decide)] at dispatched
    cases dispatched

/-- The rule for a global bucket: what it accounts for at every packet is capped over a run. -/
theorem countP_decisions_le {period : Nat} (positive : 0 < period) (fits : period < 4294967296)
    (bucket : Limits → CodeBucket) (kind : Packet → Bool) (start width : Nat) (initial : bucket loaded = ⟨0, 0⟩)
    (accounts : ∀ state packet, Accounts bucket kind period state packet
      (proxySvPacketEventFilter msgReadStringLine state packet))
    {packets : List Packet} (ordered : packets.Pairwise fun a b => a.now ≤ b.now) :
    (decisions msgReadStringLine packets).countP (passedWithin kind start width) ≤
      10 + (width + (period - 1)) / period := by
  have bounded := countP_trace_le (proxySvPacketEventFilter msgReadStringLine) Packet.now (passedWithin kind start width)
    (fun count now state =>
      PacedCode 10 period start count now (bucket state) ∧ count ≤ 10 + (width + (period - 1)) / period)
    (10 + (width + (period - 1)) / period) (fun _ _ _ _ after capped => ⟨capped.1.later after, capped.2⟩)
    (fun _ state packet before => (accounts state packet).capped positive fits before) (fun _ _ _ capped => capped.2)
    0 0 loaded packets ordered (fun packet _ => Nat.zero_le packet.now)
    ⟨by rw [initial]; exact pacedCode_loaded 10 period start 0, Nat.zero_le _⟩
  rw [decisions]
  omega

/-- The global caps: status answers and guesses of the password are rare in every window, whatever the addresses, and
administrators with the password are neither limited nor felt by anyone else. -/
theorem filter_caps (reads : ReadsLines msgReadStringLine) (packets : List Packet)
    (ordered : packets.Pairwise fun a b => a.now ≤ b.now) (start width : Nat) :
    (decisions msgReadStringLine packets).countP (passedWithin (asksStatus msgReadStringLine) start width) ≤
        10 + (width + 99) / 100 ∧
      (decisions msgReadStringLine packets).countP (passedWithin (badRcon msgReadStringLine) start width) ≤
        10 + (width + 999) / 1000 ∧
      (∀ entry ∈ decisions msgReadStringLine packets, validRcon msgReadStringLine entry.1 = true →
        entry.2.verdict = .pass) ∧
      decisions msgReadStringLine (packets.filter fun packet => !validRcon msgReadStringLine packet) =
        (decisions msgReadStringLine packets).filter fun entry => !validRcon msgReadStringLine entry.1 := by
  refine ⟨?_, ?_, ?_, ?_⟩
  · exact countP_decisions_le (by decide) (by decide) Limits.outbound _ start width rfl (outbound_accounts reads) ordered
  · exact countP_decisions_le (by decide) (by decide) Limits.badPassword _ start width rfl (badPassword_accounts reads)
      ordered
  · intro entry member valid
    obtain ⟨before, after, _, answer⟩ := mem_trace _ member
    rw [answer]
    exact (validRcon_step reads _ valid).1
  · exact trace_filter _ (validRcon msgReadStringLine) (fun state packet valid => (validRcon_step reads state valid).2)
      loaded packets

theorem filter_caps_sample :
    (decisions plainLine [samplePacket "getstatus", samplePacket "rcon secret status"]).countP
      (passedWithin (asksStatus plainLine) 0 1000) ≤ 20 :=
  (filter_caps plainLine_reads [samplePacket "getstatus", samplePacket "rcon secret status"] (by decide) 0 1000).1

end YbeProxy.PacketFilter
