import YbeProxy.Addresses
import YbeProxy.Numerals
import YbeProxy.Runs

/-!
# Stateless challenges

The challenge of `Engine/Challenge.cpp`: a keyed hash of the address and of a timestamp of 16 seconds, with the parity
of the timestamp in its top bit. The key goes through a cvar when the engine unloads the module.
-/

namespace YbeProxy.Challenge
open YbeProxy.Strings YbeProxy.Addresses YbeProxy.Numerals YbeProxy.Runs

/-! ## The hash -/

structure Key where
  word0 : UInt64
  word1 : UInt64
  deriving DecidableEq

/-- `std::rotl`. -/
def rotl (x s : UInt64) : UInt64 := x <<< s ||| x >>> (64 - s)

structure SipState where
  v0 : UInt64
  v1 : UInt64
  v2 : UInt64
  v3 : UInt64

def sipRound (s : SipState) : SipState :=
  let v0 := s.v0 + s.v1
  let v1 := rotl s.v1 13 ^^^ v0
  let v0 := rotl v0 32
  let v2 := s.v2 + s.v3
  let v3 := rotl s.v3 16 ^^^ v2
  let v0 := v0 + v3
  let v3 := rotl v3 21 ^^^ v0
  let v2 := v2 + v1
  let v1 := rotl v1 17 ^^^ v2
  let v2 := rotl v2 32
  ⟨v0, v1, v2, v3⟩

def absorb (s : SipState) (m : UInt64) : SipState :=
  let s := sipRound (sipRound { s with v3 := s.v3 ^^^ m })
  { s with v0 := s.v0 ^^^ m }

/-- `SipHash24`. The last word holds the length of the message in its top byte. -/
def sipHash24 (key : Key) (m0 m1 : UInt64) : UInt64 :=
  let s : SipState := ⟨0x736f6d6570736575 ^^^ key.word0, 0x646f72616e646f6d ^^^ key.word1,
    0x6c7967656e657261 ^^^ key.word0, 0x7465646279746573 ^^^ key.word1⟩
  let s := [m0, m1, (16 : UInt64) <<< 56].foldl absorb s
  let s := { s with v2 := s.v2 ^^^ 0xff }
  let s := sipRound (sipRound (sipRound (sipRound s)))
  s.v0 ^^^ s.v1 ^^^ s.v2 ^^^ s.v3

/-- The test vector of the `static_assert`. -/
example : sipHash24 ⟨0x0706050403020100, 0x0f0e0d0c0b0a0908⟩ 0x0706050403020100 0x0f0e0d0c0b0a0908 =
    0x3f2acc7f57c29bdb := by decide +kernel

/-! ## Create, Verify, Answer -/

def timestampShift : Int32 := 14

/-- The 31 bits that a challenge keeps of its hash. -/
def hash31 (key : Key) (timestamp : Int32) (sender : Netadr) : UInt32 :=
  let hash := sipHash24 key (sender.ip.key.toUInt64 ||| sender.port.toUInt64 <<< 32) timestamp.toUInt32.toUInt64
  hash.toUInt32 &&& 0x7FFFFFFF

/-- `Create`, once the key is loaded. -/
def create (key : Key) (timestamp : Int32) (sender : Netadr) : Int32 :=
  (hash31 key timestamp sender ||| (timestamp.toUInt32 &&& 1) <<< 31).toInt32

/-- `Verify`, at `svs.time`. -/
def verify (key : Key) (time challenge : Int32) (sender : Netadr) : Bool :=
  let timestamp := time >>> timestampShift
  challenge == create key (timestamp - ((timestamp ^^^ (challenge.toUInt32 >>> 31).toInt32) &&& 1)) sender

/-- The number of the reply. -/
def number (key : Key) (time : Int32) (sender : Netadr) : CString :=
  decimalInt (create key (time >>> timestampShift) sender).toInt

/-- `Answer`: the text that is sent. -/
def answer (key : Key) (time : Int32) (sender : Netadr) : CString :=
  "challengeResponse ".toList ++ number key time sender

/-! ## The key -/

def maxCvarValueString : Nat := 256

def isHexDigit (c : Char) : Bool := isDigit c || ('a' ≤ c && c ≤ 'f') || ('A' ≤ c && c ≤ 'F')
def hexValue (c : Char) : Nat :=
  if isDigit c then digitValue c else if 'a' ≤ c then c.toNat - 'a'.toNat + 10 else c.toNat - 'A'.toNat + 10

def isSpace (c : Char) : Bool := c = ' ' || (9 ≤ c.toNat && c.toNat ≤ 13)

/-- The sign that `%x` accepts, and what follows it. -/
def signOf : CString → Bool × CString
  | '-' :: s => (true, s)
  | '+' :: s => (false, s)
  | s => (false, s)

/-- The prefix that `%x` accepts. -/
def skipPrefix : CString → CString
  | '0' :: 'x' :: s => s
  | '0' :: 'X' :: s => s
  | s => s

/-- `%16" SCNx64` of `sscanf`: blanks, then at most 16 characters of a sign, a prefix and digits. -/
def scanHex (s : CString) : Option (UInt64 × CString) :=
  let text := s.dropWhile isSpace
  let field := text.take 16
  let (negative, unsigned) := signOf field
  let body := skipPrefix unsigned
  let digits := body.takeWhile isHexDigit
  if digits.isEmpty then none
  else
    let value := UInt64.ofNat (numeral 16 hexValue digits)
    some (if negative then -value else value, text.drop (field.length - body.length + digits.length))

/-- The `sscanf` of `LoadKey`, when it converts both words. -/
def scanKey (hex : CString) : Option Key := do
  let (word0, rest) ← scanHex hex
  let (word1, _) ← scanHex rest
  return ⟨word0, word1⟩

/-- `%016" PRIx64`. -/
def hex16 (word : UInt64) : CString := padded 16 16 word.toNat

def keyText (key : Key) : CString := hex16 key.word0 ++ hex16 key.word1

/-- Four numbers of `std::random_device`. -/
def randomKey (random : Fin 4 → UInt32) : Key :=
  ⟨(random 0).toUInt64 <<< 32 ||| (random 1).toUInt64, (random 2).toUInt64 <<< 32 ||| (random 3).toUInt64⟩

/-- `LoadKey`: the key, and the value of the cvar. -/
def loadKey (random : Fin 4 → UInt32) (cvar : CString) : Key × CString :=
  match scanKey (qStrncpyz cvar maxCvarValueString) with
  | some key => (key, cvar)
  | none => (randomKey random, keyText (randomKey random))

/-! ## What is printed is read back -/

/-- Every character of a printed number is one digit for `%x`, and nothing else. -/
theorem hexDigit_spec : ∀ digit < 16, isHexDigit (Nat.digitChar digit) = true ∧ hexValue (Nat.digitChar digit) = digit ∧
    isSpace (Nat.digitChar digit) = false ∧ Nat.digitChar digit ∉ ['-', '+', 'x', 'X'] := by
  decide

theorem signOf_of_digits {s : CString} (digits : ∀ c ∈ s, c ∉ ['-', '+', 'x', 'X']) : signOf s = (false, s) := by
  unfold signOf
  split
  · exact absurd (digits '-' List.mem_cons_self) (by decide)
  · exact absurd (digits '+' List.mem_cons_self) (by decide)
  · rfl

theorem skipPrefix_of_digits {s : CString} (digits : ∀ c ∈ s, c ∉ ['-', '+', 'x', 'X']) : skipPrefix s = s := by
  unfold skipPrefix
  split
  · exact absurd (digits 'x' (by simp)) (by decide)
  · exact absurd (digits 'X' (by simp)) (by decide)
  · rfl

theorem scanHex_hex16 (word : UInt64) (rest : CString) : scanHex (hex16 word ++ rest) = some (word, rest) := by
  have digits (c : Char) (member : c ∈ hex16 word) : isHexDigit c = true ∧ isSpace c = false ∧ c ∉ ['-', '+', 'x', 'X'] := by
    obtain ⟨digit, small, rfl⟩ := mem_padded (by decide) member
    obtain ⟨hex, _, visible, other⟩ := hexDigit_spec digit small
    exact ⟨hex, visible, other⟩
  have sixteen : (hex16 word).length = 16 := length_padded (by decide) (by decide) word.toNat_lt
  obtain ⟨first, others, split⟩ := List.exists_cons_of_length_eq_add_one sixteen
  have start : (hex16 word ++ rest).dropWhile isSpace = hex16 word ++ rest := by
    have visible := (digits first (by rw [split]; exact List.mem_cons_self)).2.1
    rw [split, List.cons_append, List.dropWhile_cons_of_neg (by rw [visible]; decide)]
  have field : (hex16 word ++ rest).take 16 = hex16 word := List.take_left' sixteen
  have all : (hex16 word).takeWhile isHexDigit = hex16 word :=
    List.takeWhile_eq_self_iff.mpr fun c member => (digits c member).1
  have value : numeral 16 hexValue (hex16 word) = word.toNat :=
    numeral_padded (by decide) (fun digit small => (hexDigit_spec digit small).2.1) 16 word.toNat
  have nonempty : (hex16 word).isEmpty = false := by rw [split]; rfl
  have behind : (hex16 word ++ rest).drop (16 - 16 + 16) = rest := List.drop_left' sixteen
  simp only [scanHex, start, field, signOf_of_digits fun c member => (digits c member).2.2,
    skipPrefix_of_digits fun c member => (digits c member).2.2, all, nonempty, value, sixteen, behind,
    UInt64.ofNat_toNat, Bool.false_eq_true, if_false]

/-- `LoadKey` reads the text of every key as that key. -/
theorem loadKey_keyText (random : Fin 4 → UInt32) (key : Key) : loadKey random (keyText key) = (key, keyText key) := by
  have sixteen (word : UInt64) : (hex16 word).length = 16 := length_padded (by decide) (by decide) word.toNat_lt
  have whole : qStrncpyz (keyText key) maxCvarValueString = keyText key := by
    apply qStrncpyz_of_fits
    rw [keyText, List.length_append, sixteen, sixteen]
    decide
  have second : scanHex (hex16 key.word1) = some (key.word1, []) := by
    have alone := scanHex_hex16 key.word1 []
    rwa [List.append_nil] at alone
  have read : scanKey (keyText key) = some key := by
    rw [scanKey, keyText, scanHex_hex16]
    simp only [Option.bind_eq_bind, Option.bind_some, second]
    rfl
  rw [loadKey, whole, read]

theorem numeral_decimal (n : Nat) : numeral 10 digitValue (decimal n) = n :=
  numeral_toDigits (by decide) (by decide) n

/-- `atoi` reads every `int` as `%i` prints it. -/
theorem atoi_decimalInt (c : Int32) : atoi (decimalInt c.toInt) = c.toInt := by
  have low := c.le_toInt
  have high := c.toInt_lt
  have digits (n : Nat) : (decimal n).takeWhile isDigit = decimal n :=
    List.takeWhile_eq_self_iff.mpr fun d member => isDigit_of_mem_decimal member
  have value (n : Nat) : (decimal n).foldl (fun n c => n * 10 + digitValue c) 0 = n := numeral_decimal n
  by_cases negative : c.toInt < 0
  · rw [decimalInt, if_pos negative, atoi, List.dropWhile_cons_of_neg (by decide)]
    simp only [digits, value]
    omega
  · rw [decimalInt, if_neg negative, atoi]
    obtain ⟨first, rest, split⟩ := List.exists_cons_of_ne_nil (decimal_ne_nil c.toInt.natAbs)
    obtain ⟨digit, small, rfl⟩ : ∃ digit < 10, first = Nat.digitChar digit :=
      mem_toDigits (by decide) (n := c.toInt.natAbs) (by rw [← decimal, split]; exact List.mem_cons_self)
    obtain ⟨_, _, visible, other⟩ := hexDigit_spec digit (by omega)
    have start : (decimal c.toInt.natAbs).dropWhile isSpace = decimal c.toInt.natAbs := by
      rw [split, List.dropWhile_cons_of_neg (by rw [visible]; decide)]
    simp only [show (fun c : Char => decide (c = ' ') || decide (9 ≤ c.toNat) && decide (c.toNat ≤ 13)) = isSpace from rfl,
      start]
    have unsigned (sign : Char) (rest : CString) (listed : sign ∈ ['-', '+', 'x', 'X']) :
        decimal c.toInt.natAbs ≠ sign :: rest := by
      intro signed
      rw [← (List.cons.inj (split.symm.trans signed)).1] at listed
      exact other listed
    split
    · rename_i signed
      exact absurd signed (unsigned _ _ (by decide))
    · rename_i signed
      exact absurd signed (unsigned _ _ (by decide))
    · rw [digits, value]
      omega

/-! ## The two windows of a challenge -/

theorem toUInt32_injective {x y : Int32} (same : x.toUInt32 = y.toUInt32) : x = y :=
  Int32.toBitVec.inj (congrArg UInt32.toBitVec same)

theorem hash31_lt (key : Key) (timestamp : Int32) (sender : Netadr) :
    (hash31 key timestamp sender).toNat < 2147483648 := by
  rw [hash31, UInt32.toNat_and]
  exact Nat.lt_succ_of_le (Nat.and_le_right)

/-- A challenge is its hash, and the parity of its timestamp on top. -/
theorem create_toNat (key : Key) (timestamp : Int32) (sender : Netadr) :
    (create key timestamp sender).toUInt32.toNat =
      (hash31 key timestamp sender).toNat + timestamp.toUInt32.toNat % 2 * 2147483648 := by
  have parity : ((timestamp.toUInt32 &&& 1) <<< 31).toNat = (timestamp.toUInt32.toNat % 2) <<< 31 := by
    rw [UInt32.toNat_shiftLeft, UInt32.toNat_and, show (1 : UInt32).toNat = 1 from rfl, Nat.and_one_is_mod,
      show (31 : UInt32).toNat % 32 = 31 from rfl, Nat.shiftLeft_eq, Nat.mod_eq_of_lt (by omega)]
  have small := hash31_lt key timestamp sender
  rw [create, UInt32.toUInt32_toInt32, UInt32.toNat_or, parity, Nat.or_comm,
    ← Nat.shiftLeft_add_eq_or_of_lt (by simpa using small), Nat.shiftLeft_eq, Nat.add_comm]

/-- Two challenges of one address are equal when the parities of their timestamps and the hashes agree. -/
theorem create_eq_iff (key : Key) (t1 t2 : Int32) (sender : Netadr) :
    create key t1 sender = create key t2 sender ↔
      t1.toUInt32.toNat % 2 = t2.toUInt32.toNat % 2 ∧ hash31 key t1 sender = hash31 key t2 sender := by
  have first := create_toNat key t1 sender
  have second := create_toNat key t2 sender
  have small := hash31_lt key t1 sender
  have small' := hash31_lt key t2 sender
  rw [← UInt32.toNat_inj]
  constructor
  · intro same
    rw [same] at first
    omega
  · rintro ⟨parity, hash⟩
    apply toUInt32_injective
    rw [← UInt32.toNat_inj, first, second, parity, hash]

/-- What `Verify` takes from the timestamp: nothing, or one when the parities differ. -/
theorem parity_difference (timestamp challenge : Int32) :
    (timestamp ^^^ (challenge.toUInt32 >>> 31).toInt32) &&& 1 =
      if challenge.toUInt32.toNat / 2147483648 = timestamp.toUInt32.toNat % 2 then 0 else 1 := by
  apply toUInt32_injective
  rw [Int32.toUInt32_and, Int32.toUInt32_xor, UInt32.toUInt32_toInt32, ← UInt32.toNat_inj, UInt32.toNat_and,
    UInt32.toNat_xor, UInt32.toNat_shiftRight, show (1 : Int32).toUInt32.toNat = 1 from rfl, Nat.and_one_is_mod,
    show (31 : UInt32).toNat % 32 = 31 from rfl, Nat.shiftRight_eq_div_pow]
  have top := challenge.toUInt32.toNat_lt
  have odd := @Nat.xor_mod_two_eq_one timestamp.toUInt32.toNat (challenge.toUInt32.toNat / 2 ^ 31)
  split
  · show _ = 0
    omega
  · show _ = 1
    omega

theorem parity_before (timestamp : Int32) :
    (timestamp - 1).toUInt32.toNat % 2 ≠ timestamp.toUInt32.toNat % 2 := by
  have small := timestamp.toUInt32.toNat_lt
  rw [show (timestamp - 1).toUInt32 = timestamp.toUInt32 - 1 from rfl, UInt32.toNat_sub,
    show (1 : UInt32).toNat = 1 from rfl]
  omega

/-- `Verify` accepts the challenges of the current timestamp and of the one before, and no other. -/
theorem verify_iff (key : Key) (time challenge : Int32) (sender : Netadr) :
    verify key time challenge sender = true ↔
      challenge = create key (time >>> timestampShift) sender ∨
        challenge = create key (time >>> timestampShift - 1) sender := by
  generalize current : time >>> timestampShift = timestamp
  have top (t : Int32) (made : challenge = create key t sender) :
      challenge.toUInt32.toNat / 2147483648 = t.toUInt32.toNat % 2 := by
    have small := hash31_lt key t sender
    rw [made, create_toNat]
    omega
  have apart := parity_before timestamp
  rw [verify, current]
  simp only [parity_difference, beq_iff_eq]
  split
  · rename_i agree
    rw [Int32.sub_zero]
    constructor
    · exact Or.inl
    · rintro (now | before)
      · exact now
      · exact absurd ((top _ before).symm.trans agree) apart
  · rename_i differ
    constructor
    · exact Or.inr
    · rintro (now | before)
      · exact absurd (top _ now) differ
      · exact before

/-! ## The module between two loads -/

/-- `key` while `keyLoaded`, and the cvar, which the engine keeps when it unloads the module. -/
structure Module where
  key : Option Key
  cvar : CString

/-- The key that a call of `Create` uses, which loads it first where it has to. -/
def useKey (state : Module) (random : Fin 4 → UInt32) : Key × Module :=
  match state.key with
  | some key => (key, state)
  | none => ((loadKey random state.cvar).1, ⟨some (loadKey random state.cvar).1, (loadKey random state.cvar).2⟩)

/-- The engine unloads the module and loads it again, or the module makes or checks a challenge. -/
inductive Event
  | reload
  | use (random : Fin 4 → UInt32)

def step (state : Module) : Event → Option Key × Module
  | .reload => (none, { state with key := none })
  | .use random => (some (useKey state random).1, (useKey state random).2)

/-- The cvar gives the key back, and the key in memory is no other. -/
def Keeps (key : Key) (state : Module) : Prop :=
  (∀ random, loadKey random state.cvar = (key, state.cvar)) ∧ ∀ loaded, state.key = some loaded → loaded = key

def Sound (state : Module) : Prop := ∀ loaded, state.key = some loaded → Keeps loaded state

theorem loadKey_again (random later : Fin 4 → UInt32) (cvar : CString) :
    loadKey later (loadKey random cvar).2 = loadKey random cvar := by
  cases read : scanKey (qStrncpyz cvar maxCvarValueString) with
  | some key =>
    have loaded (random : Fin 4 → UInt32) : loadKey random cvar = (key, cvar) := by rw [loadKey, read]
    rw [loaded, loaded]
  | none =>
    have fresh : loadKey random cvar = (randomKey random, keyText (randomKey random)) := by rw [loadKey, read]
    rw [fresh, loadKey_keyText]

theorem keeps_useKey {state : Module} (sound : Sound state) (random : Fin 4 → UInt32) :
    Keeps (useKey state random).1 (useKey state random).2 := by
  cases unloaded : state.key with
  | some held =>
    rw [useKey, unloaded]
    exact sound held unloaded
  | none =>
    rw [useKey, unloaded]
    constructor
    · intro later
      exact loadKey_again random later state.cvar
    · intro loaded same
      exact (Option.some.inj same).symm

theorem sound_step {state : Module} (sound : Sound state) (event : Event) : Sound (step state event).2 := by
  cases event with
  | reload => exact nofun
  | use random =>
    intro loaded same
    have keeps := keeps_useKey sound random
    rw [keeps.2 loaded same]
    exact keeps

theorem Keeps.useKey {key : Key} {state : Module} (keeps : Keeps key state) (random : Fin 4 → UInt32) :
    (useKey state random).1 = key := by
  cases loaded : state.key with
  | some held =>
    rw [Challenge.useKey, loaded]
    exact keeps.2 held loaded
  | none =>
    rw [Challenge.useKey, loaded]
    exact congrArg Prod.fst (keeps.1 random)

theorem Keeps.step {key : Key} {state : Module} (keeps : Keeps key state) (event : Event) :
    Keeps key (step state event).2 := by
  cases event with
  | reload => exact ⟨keeps.1, nofun⟩
  | use random =>
    have sound : Sound state := by
      intro loaded same
      rw [keeps.2 loaded same]
      exact keeps
    have kept := keeps_useKey sound random
    rwa [keeps.useKey random] at kept

/-- Once a key was used, every later use finds the same one, however often the module was loaded again. -/
theorem key_kept (cvar : CString) (before after : List Event) (random later : Fin 4 → UInt32) :
    (useKey (final step (useKey (final step ⟨none, cvar⟩ before) random).2 after) later).1 =
      (useKey (final step ⟨none, cvar⟩ before) random).1 := by
  have sound : Sound (final step ⟨none, cvar⟩ before) :=
    final_keeps step Sound (fun event _ _ sound => sound_step sound event) _ nofun
  have kept := final_keeps step (Keeps _) (fun event (_ : event ∈ after) _ keeps => keeps.step event) _
    (keeps_useKey sound random)
  exact kept.useKey later

theorem echo_eq (key : Key) (time : Int32) (sender : Netadr) :
    Int32.ofInt (atoi (number key time sender)) = create key (time >>> timestampShift) sender := by
  rw [number, atoi_decimalInt, Int32.ofInt_toInt]

/-- A challenge is accepted exactly in its window and the next one. The number of the reply, read back, is accepted
there, whatever reloads of the module come between, and later only on a collision of the 31 bits of the hashes. Every
key comes back from the text that stands for it in the cvar. -/
theorem stateless_challenge (sender : Netadr) :
    (∀ (key : Key) (time challenge : Int32), verify key time challenge sender = true ↔
      challenge = create key (time >>> timestampShift) sender ∨
        challenge = create key (time >>> timestampShift - 1) sender) ∧
    (∀ (cvar text : CString) (before after : List Event) (random later : Fin 4 → UInt32) (t0 t1 : Int32),
      let answering := useKey (final step ⟨none, cvar⟩ before) random
      let checking := useKey (final step answering.2 after) later
      let windows := (t1 >>> timestampShift).toInt - (t0 >>> timestampShift).toInt
      answer answering.1 t0 sender = "challengeResponse ".toList ++ text →
        (windows = 0 ∨ windows = 1 → verify checking.1 t1 (Int32.ofInt (atoi text)) sender = true) ∧
        (1 < windows → verify checking.1 t1 (Int32.ofInt (atoi text)) sender = true →
          ∃ timestamp, (timestamp = t1 >>> timestampShift ∨ timestamp = t1 >>> timestampShift - 1) ∧
            timestamp ≠ t0 >>> timestampShift ∧
            hash31 checking.1 timestamp sender = hash31 answering.1 (t0 >>> timestampShift) sender)) ∧
    ∀ (random : Fin 4 → UInt32) (key : Key), loadKey random (keyText key) = (key, keyText key) := by
  refine ⟨fun key time challenge => verify_iff key time challenge sender, ?_, loadKey_keyText⟩
  intro cvar text before after random later t0 t1 answering checking windows sent
  obtain rfl : number answering.1 t0 sender = text := List.append_cancel_left sent
  have same : checking.1 = answering.1 := key_kept cvar before after random later
  have previous (t : Int32) (above : -2147483648 < t.toInt) : (t - 1).toInt = t.toInt - 1 := by
    have high := t.toInt_lt
    rw [Int32.toInt_sub, show (1 : Int32).toInt = 1 from rfl, Int.bmod_eq_of_le (by omega) (by omega)]
  have low := (t0 >>> timestampShift).le_toInt
  rw [same, echo_eq, verify_iff]
  constructor
  · rintro (none | one)
    · left
      rw [Int32.toInt_inj.mp (show (t0 >>> timestampShift).toInt = (t1 >>> timestampShift).toInt by omega)]
    · right
      have next := previous (t1 >>> timestampShift) (by omega)
      rw [Int32.toInt_inj.mp (show (t0 >>> timestampShift).toInt = (t1 >>> timestampShift - 1).toInt by omega)]
  · intro far accepted
    have next := previous (t1 >>> timestampShift) (by omega)
    rcases accepted with now | before
    · refine ⟨_, Or.inl rfl, ?_, ((create_eq_iff _ _ _ _).mp now).2.symm⟩
      intro equal
      have level := congrArg Int32.toInt equal
      omega
    · refine ⟨_, Or.inr rfl, ?_, ((create_eq_iff _ _ _ _).mp before).2.symm⟩
      intro equal
      have level := congrArg Int32.toInt equal
      omega

def sampleKey : Key := ⟨0x0706050403020100, 0x0f0e0d0c0b0a0908⟩
def samplePlayer : Netadr := ⟨.naIp, ⟨10, 20, 30, 40⟩, 29070⟩

/-- A challenge made at the end of a window is good at the beginning of the next one. -/
theorem stateless_challenge_sample :
    verify sampleKey 16384 (create sampleKey (16383 >>> timestampShift) samplePlayer) samplePlayer = true :=
  ((stateless_challenge samplePlayer).1 sampleKey 16384 _).mpr (Or.inr (by decide +kernel))

end YbeProxy.Challenge
