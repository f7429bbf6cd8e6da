import Mathlib.Algebra.Ring.Int.Defs
import Mathlib.Algebra.Ring.Nat
import Mathlib.Data.List.Basic

/-!
# Reading a message to its end

`Proxy_MSG_ReadBits` of `Engine/Hooks/qcommon/msg.cpp` around the original of the engine: a test of the least that the original
will take before the call, and of where it came to after it.
-/

namespace YbeProxy.ReadBits

structure Msg where
  oob : Bool
  data : List UInt8
  cursize : Int
  readcount : Int
  /-- For bitwise reads. -/
  bit : Int
  deriving DecidableEq

/-- A sum that an `int` cannot hold has no meaning. -/
def int (value : Int) : Option Int := if -2 ^ 31 ≤ value ∧ value < 2 ^ 31 then some value else none

/-- `cursize << 3`, which wraps. -/
def Msg.sizeInBits (msg : Msg) : Int := (msg.cursize * 8).bmod (2 ^ 32)

def bitCount (bits : Int) : Option Int := if bits < 0 then int (-bits) else some bits

/-- The test before the call: does the least that the original takes end past the message? For a count, `>> 3` and `& 7` are
the quotient and the rest by 8. -/
def endsPast (msg : Msg) (bitCount : Int) : Option Bool :=
  if msg.oob then (int (msg.readcount + bitCount / 8)).map fun last => decide (last > msg.cursize)
  else (int (msg.bit + bitCount % 8)).map fun last => decide (last > msg.sizeInBits)

/-- The message with its end passed, and the value 0. -/
def stop (msg : Msg) : Option (Int × Msg) := do
  let readcount ← int (msg.cursize + 1)
  return (0, { msg with readcount := readcount })

/-- The original reader: no result where it drops the game with `Com_Error`. -/
abbrev Reader := Msg → Int → Option (Int × Msg)

def proxyMsgReadBits (original : Reader) (msg : Msg) (bits : Int) : Option (Int × Msg) :=
  if msg.readcount > msg.cursize then some (0, msg)
  else do
    let bitCount ← bitCount bits
    let past ← endsPast msg bitCount
    if past then stop msg
    else
      let (value, msg) ← original msg bits
      if !msg.oob ∧ msg.bit > msg.sizeInBits then stop msg else return (value, msg)

/-- A sequence of calls, up to the first without a result. -/
def readAll (original : Reader) (msg : Msg) : List Int → Option (List Int × Msg)
  | [] => some ([], msg)
  | bits :: rest => do
    let (value, msg) ← proxyMsgReadBits original msg bits
    let (values, msg) ← readAll original msg rest
    return (value :: values, msg)

/-- The counters of a message that only `MSG_ReadBits` moves, from `MSG_BeginReading`, `MSG_BeginReadingOOB` or
`MSG_Bitstream` on. -/
structure Msg.Consistent (msg : Msg) : Prop where
  readcount : 0 ≤ msg.readcount
  bit : msg.oob = false → 0 ≤ msg.bit
  together : msg.oob = false → msg.readcount ≤ msg.cursize →
    msg.readcount = msg.bit / 8 + 1 ∨ msg.bit = msg.readcount * 8

/-- The reads so far ended inside of the message. -/
def Msg.Inside (msg : Msg) : Prop :=
  if msg.oob then msg.readcount ≤ msg.cursize else msg.bit ≤ msg.cursize * 8

instance (msg : Msg) : Decidable msg.Inside :=
  inferInstanceAs (Decidable (if msg.oob then msg.readcount ≤ msg.cursize else msg.bit ≤ msg.cursize * 8))

/-- What the original does with the counters. -/
structure Documented (original : Reader) : Prop where
  keeps {msg bits value after} : original msg bits = some (value, after) →
    after.oob = msg.oob ∧ after.data = msg.data ∧ after.cursize = msg.cursize
  oob {msg bits value after} : original msg bits = some (value, after) → msg.oob = true →
    bits.natAbs ∈ [8, 16, 32] ∧ after.readcount = msg.readcount + bits.natAbs / 8
  bitstream {msg bits value after} : original msg bits = some (value, after) → msg.oob = false →
    msg.bit + bits.natAbs % 8 ≤ after.bit ∧ after.readcount = after.bit / 8 + 1

/-! ## The outcomes of a call -/

theorem int_eq_some {value result : Int} (defined : int value = some result) : result = value := by
  rw [int] at defined
  split at defined
  · exact (Option.some.inj defined).symm
  · cases defined

theorem int_of_fits {value : Int} (low : -2 ^ 31 ≤ value) (high : value < 2 ^ 31) : int value = some value :=
  if_pos ⟨low, high⟩

theorem bitCount_eq_some {bits count : Int} (defined : bitCount bits = some count) : count = bits.natAbs := by
  rw [bitCount] at defined
  split at defined
  · rw [int_eq_some defined]
    omega
  · rw [← Option.some.inj defined]
    omega

theorem bitCount_of_fits {bits : Int} (fits : -2 ^ 31 < bits) : bitCount bits = some (bits.natAbs : Int) := by
  rw [bitCount]
  split
  · rw [int_of_fits (by omega) (by omega)]
    congr 1
    omega
  · congr 1
    omega

theorem sizeInBits_le {msg : Msg} (positive : 0 ≤ msg.cursize) : msg.sizeInBits ≤ msg.cursize * 8 := by
  rw [Msg.sizeInBits, Int.bmod_def]
  split <;> omega

theorem sizeInBits_of_small {msg : Msg} (positive : 0 ≤ msg.cursize) (small : msg.cursize < 2 ^ 28) :
    msg.sizeInBits = msg.cursize * 8 := by
  rw [Msg.sizeInBits, Int.bmod_eq_of_le] <;> omega

theorem stop_eq_some {msg : Msg} {value : Int} {after : Msg} (result : stop msg = some (value, after)) :
    value = 0 ∧ after = { msg with readcount := msg.cursize + 1 } := by
  obtain ⟨readcount, defined, same⟩ := Option.bind_eq_some_iff.mp result
  cases same
  exact ⟨rfl, by rw [int_eq_some defined]⟩

/-- The end of the least that a read of so many bits takes, past the end of the message. -/
def Msg.Short (msg : Msg) (bits : Int) : Prop :=
  if msg.oob then msg.cursize < msg.readcount + bits.natAbs / 8 else msg.sizeInBits < msg.bit + bits.natAbs % 8

theorem endsPast_eq_some {msg : Msg} {bits : Int} {past : Bool} (tested : endsPast msg bits.natAbs = some past) :
    past = true ↔ msg.Short bits := by
  rw [endsPast] at tested
  rw [Msg.Short]
  cases mode : msg.oob <;> rw [mode] at tested
  all_goals
    obtain ⟨last, defined, rfl⟩ := Option.map_eq_some_iff.mp tested
    rw [int_eq_some defined, decide_eq_true_iff]
    exact Iff.rfl

/-- A read is past the end already, is refused for what it takes at least, is dropped after the original, or is the
original's. -/
inductive Outcome (original : Reader) (msg : Msg) (bits : Int) : Int → Msg → Prop
  | past (passed : msg.cursize < msg.readcount) : Outcome original msg bits 0 msg
  | refused (before : msg.readcount ≤ msg.cursize) (short : msg.Short bits) :
      Outcome original msg bits 0 { msg with readcount := msg.cursize + 1 }
  | dropped {value after} (before : msg.readcount ≤ msg.cursize) (read : original msg bits = some (value, after))
      (bitstream : after.oob = false) (beyond : after.sizeInBits < after.bit) :
      Outcome original msg bits 0 { after with readcount := after.cursize + 1 }
  | read {value after} (before : msg.readcount ≤ msg.cursize) (read : original msg bits = some (value, after))
      (room : ¬ msg.Short bits) (inside : after.oob = false → after.bit ≤ after.sizeInBits) :
      Outcome original msg bits value after

theorem outcome {original : Reader} {msg : Msg} {bits value : Int} {after : Msg}
    (result : proxyMsgReadBits original msg bits = some (value, after)) : Outcome original msg bits value after := by
  rw [proxyMsgReadBits] at result
  split at result
  · rename_i passed
    cases result
    exact .past passed
  rename_i before
  replace before := Int.not_lt.mp before
  obtain ⟨count, counted, result⟩ := Option.bind_eq_some_iff.mp result
  cases bitCount_eq_some counted
  obtain ⟨past, tested, result⟩ := Option.bind_eq_some_iff.mp result
  have short := endsPast_eq_some tested
  cases past with
  | true =>
    rw [if_pos rfl] at result
    obtain ⟨rfl, rfl⟩ := stop_eq_some result
    exact .refused before (short.mp rfl)
  | false =>
    rw [if_neg Bool.false_ne_true] at result
    obtain ⟨⟨read, called⟩, original, result⟩ := Option.bind_eq_some_iff.mp result
    dsimp only at result
    split at result
    · rename_i beyond
      obtain ⟨rfl, rfl⟩ := stop_eq_some result
      exact .dropped before original (by simpa using beyond.1) beyond.2
    · rename_i inside
      cases result
      refine .read before original (fun more => Bool.false_ne_true (short.mpr more)) ?_
      intro mode
      rw [mode] at inside
      exact Int.not_lt.mp fun more => inside ⟨rfl, more⟩

/-! ## The counters along a sequence of calls -/

theorem Documented.sizeInBits {original : Reader} (documented : Documented original) {msg after : Msg} {bits value : Int}
    (read : original msg bits = some (value, after)) : after.sizeInBits = msg.sizeInBits := by
  rw [Msg.sizeInBits, (documented.keeps read).2.2, Msg.sizeInBits]

/-- What a call keeps: the counters fit together, and the end of the message is passed by one at most. -/
structure Follows (msg after : Msg) : Prop where
  oob : after.oob = msg.oob
  cursize : after.cursize = msg.cursize
  consistent : after.Consistent
  readcount : after.readcount ≤ max msg.readcount (msg.cursize + 1)

variable {original : Reader} (documented : Documented original) {msg after : Msg} {bits value : Int}

include documented in
theorem inside_of_read (consistent : msg.Consistent) (read : original msg bits = some (value, after))
    (before : msg.readcount ≤ msg.cursize) (room : ¬ msg.Short bits)
    (inside : after.oob = false → after.bit ≤ after.sizeInBits) : after.Inside := by
  have positive := consistent.readcount
  obtain ⟨mode, _, size⟩ := documented.keeps read
  rw [Msg.Inside, size, mode]
  cases oob : msg.oob with
  | true =>
    rw [Msg.Short, oob, if_pos rfl, Int.not_lt] at room
    rw [if_pos rfl, (documented.oob read oob).2]
    exact room
  | false =>
    have fits := inside (mode.trans oob)
    have bound := @sizeInBits_le msg (by omega)
    rw [documented.sizeInBits read] at fits
    simpa using Int.le_trans fits bound

include documented in
theorem Outcome.follows (consistent : msg.Consistent) (outcome : Outcome original msg bits value after) :
    Follows msg after := by
  have positive := consistent.readcount
  cases outcome with
  | past passed => exact ⟨rfl, rfl, consistent, Int.le_max_left _ _⟩
  | refused before =>
    refine ⟨rfl, rfl, ⟨?_, consistent.bit, ?_⟩, Int.le_max_right _ _⟩
    · dsimp only
      omega
    · intro _ early
      dsimp only at early
      omega
  | dropped before read bitstream beyond =>
    obtain ⟨mode, _, size⟩ := documented.keeps read
    have moved := (documented.bitstream read (mode.symm.trans bitstream)).1
    have start := consistent.bit (mode.symm.trans bitstream)
    refine ⟨mode, size, ⟨?_, fun _ => ?_, ?_⟩, ?_⟩ <;> dsimp only
    · omega
    · omega
    · intro _ early
      omega
    · rw [size]
      exact Int.le_max_right _ _
  | read before read room inside =>
    obtain ⟨mode, _, size⟩ := documented.keeps read
    have ended := inside_of_read documented consistent read before room inside
    rw [Msg.Inside, mode, size] at ended
    cases oob : msg.oob with
    | true =>
      have moved := (documented.oob read oob).2
      rw [oob, if_pos rfl] at ended
      refine ⟨mode, size, ⟨by omega, ?_, ?_⟩, ?_⟩
      · rw [mode, oob]
        exact fun absurdity => Bool.noConfusion absurdity
      · rw [mode, oob]
        exact fun absurdity => Bool.noConfusion absurdity
      · omega
    | false =>
      obtain ⟨moved, counted⟩ := documented.bitstream read oob
      have start := consistent.bit oob
      rw [oob, if_neg Bool.false_ne_true] at ended
      exact ⟨mode, size, ⟨by omega, fun _ => by omega, fun _ _ => Or.inl counted⟩, by omega⟩

include documented in
theorem readAll_follows {widths : List Int} {values : List Int} (consistent : msg.Consistent)
    (reached : readAll original msg widths = some (values, after)) : Follows msg after := by
  induction widths generalizing msg values with
  | nil =>
    cases reached
    exact ⟨rfl, rfl, consistent, Int.le_max_left _ _⟩
  | cons bits rest hypothesis =>
    obtain ⟨⟨value, next⟩, result, reached⟩ := Option.bind_eq_some_iff.mp reached
    obtain ⟨⟨later, last⟩, reached, same⟩ := Option.bind_eq_some_iff.mp reached
    cases same
    have first := (outcome result).follows documented consistent
    have others := hypothesis first.consistent reached
    refine ⟨others.oob.trans first.oob, others.cursize.trans first.cursize, others.consistent, ?_⟩
    have early := first.readcount
    have late := others.readcount
    rw [first.cursize] at late
    omega

theorem proxyMsgReadBits_of_past (passed : msg.cursize < msg.readcount) (bits : Int) :
    proxyMsgReadBits original msg bits = some (0, msg) := if_pos passed

theorem readAll_of_past (passed : msg.cursize < msg.readcount) (widths : List Int) :
    readAll original msg widths = some (List.replicate widths.length 0, msg) := by
  induction widths with
  | nil => rfl
  | cons bits rest hypothesis =>
    rw [readAll, proxyMsgReadBits_of_past passed, Option.bind_eq_bind, Option.bind_some]
    dsimp only
    rw [hypothesis]
    rfl

include documented in
/-- In a message of less than 2^28 bytes no sum leaves the range of `int`: a call has no result only where the original has
none. -/
theorem original_eq_none (consistent : msg.Consistent) (small : msg.cursize < 2 ^ 28) (width : -2 ^ 31 < bits ∧ bits < 2 ^ 31)
    (result : proxyMsgReadBits original msg bits = none) : original msg bits = none := by
  have positive := consistent.readcount
  rw [proxyMsgReadBits] at result
  split at result
  · cases result
  rename_i before
  replace before := Int.not_lt.mp before
  have stops (next : Msg) (same : next.cursize = msg.cursize) : stop next ≠ none := by
    rw [stop, int_of_fits (by omega) (by omega)]
    exact fun absurdity => nomatch absurdity
  have tested : ∃ past, endsPast msg bits.natAbs = some past := by
    rw [endsPast]
    cases mode : msg.oob with
    | true =>
      rw [if_pos rfl, int_of_fits (by omega) (by omega)]
      exact ⟨_, rfl⟩
    | false =>
      have start := consistent.bit mode
      have together := consistent.together mode before
      rw [if_neg Bool.false_ne_true, int_of_fits (by omega) (by omega)]
      exact ⟨_, rfl⟩
  obtain ⟨past, tested⟩ := tested
  rw [bitCount_of_fits width.1, Option.bind_eq_bind, Option.bind_some, tested, Option.bind_eq_bind, Option.bind_some] at result
  cases past with
  | true => exact absurd result (stops msg rfl)
  | false =>
    cases read : original msg bits with
    | none => rfl
    | some answer =>
      obtain ⟨value, after⟩ := answer
      rw [read, if_neg Bool.false_ne_true, Option.bind_eq_bind, Option.bind_some] at result
      dsimp only at result
      split at result
      · exact absurd result (stops after (documented.keeps read).2.2)
      · cases result

include documented in
/-- A read that ends inside of the message, at its last bit too, is the original's. -/
theorem read_inside (consistent : msg.Consistent) (small : msg.cursize < 2 ^ 28) (width : -2 ^ 31 < bits ∧ bits < 2 ^ 31)
    (before : msg.readcount ≤ msg.cursize) (read : original msg bits = some (value, after)) (inside : after.Inside) :
    proxyMsgReadBits original msg bits = some (value, after) := by
  have positive := consistent.readcount
  obtain ⟨mode, _, size⟩ := documented.keeps read
  rw [Msg.Inside, mode, size] at inside
  have whole : msg.sizeInBits = msg.cursize * 8 := sizeInBits_of_small (by omega) small
  cases result : proxyMsgReadBits original msg bits with
  | none =>
    rw [original_eq_none documented consistent small width result] at read
    cases read
  | some answer =>
    obtain ⟨answer, next⟩ := answer
    cases outcome result with
    | past passed => omega
    | refused _ short =>
      rw [Msg.Short] at short
      cases oob : msg.oob with
      | true =>
        have moved := (documented.oob read oob).2
        simp only [oob, if_true] at short inside
        omega
      | false =>
        have moved := (documented.bitstream read oob).1
        simp only [oob, Bool.false_eq_true, if_false] at short inside
        omega
    | dropped _ called bitstream beyond =>
      rw [read] at called
      cases called
      rw [mode.symm.trans bitstream, if_neg Bool.false_ne_true] at inside
      rw [documented.sizeInBits read] at beyond
      omega
    | read _ called =>
      rw [← called, read]

/-- The end of a message, for the counters in any state that `MSG_ReadBits` leaves and for reads of any widths. -/
theorem no_data_from_past_the_end {original : Reader} (documented : Documented original) {start : Msg}
    (consistent : start.Consistent) {before values : List Int} {msg : Msg}
    (reached : readAll original start before = some (values, msg)) :
    (msg.cursize < msg.readcount →
      ∀ after, readAll original msg after = some (List.replicate after.length 0, msg)) ∧
    ∀ bits,
      (∀ value after, proxyMsgReadBits original msg bits = some (value, after) →
        (value = 0 ∧ after.cursize < after.readcount) ∨ (original msg bits = some (value, after) ∧ after.Inside)) ∧
      (∀ read after, original msg bits = some (read, after) → ¬ after.Inside →
        ∀ value next, proxyMsgReadBits original msg bits = some (value, next) →
          value = 0 ∧ next.readcount = max msg.readcount (msg.cursize + 1) ∧
            (start.readcount ≤ start.cursize + 1 → next.readcount = msg.cursize + 1)) ∧
      (msg.cursize < 2 ^ 28 → -2 ^ 31 < bits ∧ bits < 2 ^ 31 →
        proxyMsgReadBits original msg bits = none → original msg bits = none) := by
  have follows := readAll_follows documented consistent reached
  refine ⟨readAll_of_past, fun bits => ⟨?_, ?_, ?_⟩⟩
  · intro value after result
    cases outcome result with
    | past passed => exact Or.inl ⟨rfl, passed⟩
    | refused before => exact Or.inl ⟨rfl, Int.lt_succ _⟩
    | dropped before read bitstream beyond => exact Or.inl ⟨rfl, Int.lt_succ _⟩
    | read before read room inside =>
      exact Or.inr ⟨read, inside_of_read documented follows.consistent read before room inside⟩
  · intro read ended called beyond value next result
    have bound := follows.readcount
    have size := follows.cursize
    cases outcome result with
    | past passed => exact ⟨rfl, (Int.max_eq_left passed).symm, fun early => by omega⟩
    | refused before =>
      refine ⟨rfl, ?_, fun _ => rfl⟩
      dsimp only
      omega
    | dropped before read bitstream later =>
      have same := (documented.keeps read).2.2
      refine ⟨rfl, ?_, fun _ => ?_⟩
      · dsimp only
        omega
      · dsimp only
        omega
    | read before read room inside =>
      rw [called] at read
      cases read
      exact absurd (inside_of_read documented follows.consistent called before room inside) beyond
  · exact fun small width => original_eq_none documented follows.consistent small width

/-- One byte out of band, and one plain bit of a bitstream. -/
def sampleReader : Reader := fun msg bits =>
  if msg.oob = true ∧ bits = 8 then
    (msg.data[msg.readcount.toNat]?).map fun byte =>
      (byte.toNat, { msg with readcount := msg.readcount + 1, bit := msg.bit + 8 })
  else if msg.oob = false ∧ bits = 1 then
    (msg.data[(msg.bit / 8).toNat]?).map fun byte =>
      ((byte.toNat >>> (msg.bit % 8).toNat % 2 : Nat), { msg with readcount := (msg.bit + 1) / 8 + 1, bit := msg.bit + 1 })
  else none

theorem documented_sampleReader : Documented sampleReader := by
  refine ⟨?_, ?_, ?_⟩
  all_goals
    intro msg bits value after read
    rw [sampleReader] at read
    split at read
    · rename_i byte
      obtain ⟨_, _, same⟩ := Option.map_eq_some_iff.mp read
      cases same
      simp [byte]
    · split at read
      · rename_i plain
        obtain ⟨_, _, same⟩ := Option.map_eq_some_iff.mp read
        cases same
        simp [plain]
      · cases read

/-- A message of one byte, with another one behind it in the buffer. -/
def sampleMsg : Msg := ⟨false, [0x81, 0xff], 1, 0, 0⟩

theorem no_data_from_past_the_end_sample :
    (∀ after, readAll sampleReader { sampleMsg with readcount := 2, bit := 8 } after =
      some (List.replicate after.length 0, { sampleMsg with readcount := 2, bit := 8 })) ∧
    ∀ value next, proxyMsgReadBits sampleReader { sampleMsg with readcount := 2, bit := 8 } 1 = some (value, next) →
      value = 0 ∧ next.readcount = max 2 (1 + 1) ∧ ((0 : Int) ≤ 1 + 1 → next.readcount = 1 + 1) := by
  have consistent : sampleMsg.Consistent := ⟨by decide, by decide, by decide⟩
  have reached : readAll sampleReader sampleMsg [1, 1, 1, 1, 1, 1, 1, 1] =
      some ([1, 0, 0, 0, 0, 0, 0, 1], { sampleMsg with readcount := 2, bit := 8 }) := by decide
  obtain ⟨past, reads⟩ := no_data_from_past_the_end documented_sampleReader consistent reached
  exact ⟨past (by decide), (reads 1).2.1 1 { sampleMsg with readcount := 2, bit := 9 } (by decide) (by decide)⟩

end YbeProxy.ReadBits
