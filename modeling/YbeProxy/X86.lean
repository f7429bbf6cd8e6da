import Mathlib.Data.BitVec
import Mathlib.Tactic.Common

/-!
# A part of the 32-bit processor

The instructions that push, call, return and branch, decoded from the bytes at `eip`. Addresses wrap around, and of the
flags there is only the zero flag.
-/

namespace YbeProxy.X86

abbrev Address := BitVec 32

/-- The address is one of a range, which may wrap around. -/
def Within (low : Address) (length : ℕ) (a : Address) : Prop := (a - low).toNat < length

instance (low : Address) (length : ℕ) (a : Address) : Decidable (Within low length a) := Nat.decLt _ _

theorem sub_low (low top a : Address) : a - (top - low) = a - top + low := by
  rw [sub_sub_eq_add_sub, add_sub_right_comm]

/-- The range ends below the top. -/
theorem within_below {top a : Address} {length : ℕ} :
    Within (top - BitVec.ofNat 32 length) length a ↔ 2 ^ 32 ≤ (a - top).toNat + length := by
  have limit := (a - top).isLt
  rw [Within, sub_low, BitVec.toNat_add, BitVec.toNat_ofNat]
  omega

/-! ## Words in memory -/

def wordBytes (word : BitVec 32) : List UInt8 := (List.range 4).map fun i => UInt8.ofNat (word.toNat >>> (8 * i))

/-- The lowest byte comes first. -/
def load (bytes : Address → UInt8) (a : Address) : BitVec 32 :=
  BitVec.ofNat 32 ((bytes a).toNat + 256 * (bytes (a + 1)).toNat + 65536 * (bytes (a + 2)).toNat +
    16777216 * (bytes (a + 3)).toNat)

def store (bytes : Address → UInt8) (a : Address) (word : BitVec 32) : Address → UInt8 :=
  fun x => ((wordBytes word)[(x - a).toNat]?).getD (bytes x)

/-- The bytes of a list from an address on. -/
def CodeAt (bytes : Address → UInt8) (a : Address) (code : List UInt8) : Prop :=
  ∀ i (inside : i < code.length), bytes (a + BitVec.ofNat 32 i) = code[i]

variable {bytes : Address → UInt8} {a : Address} {code more : List UInt8}

theorem length_wordBytes (word : BitVec 32) : (wordBytes word).length = 4 := by simp [wordBytes]

theorem codeAt_append : CodeAt bytes a (code ++ more) ↔
    CodeAt bytes a code ∧ CodeAt bytes (a + BitVec.ofNat 32 code.length) more := by
  constructor
  · intro both
    refine ⟨?_, ?_⟩
    · intro i inside
      rw [both i (by rw [List.length_append]; omega), List.getElem_append_left]
    · intro i inside
      rw [BitVec.add_assoc, ← BitVec.ofNat_add, both (code.length + i) (by rw [List.length_append]; omega),
        List.getElem_append_right (Nat.le_add_right _ _)]
      simp only [Nat.add_sub_cancel_left]
  · rintro ⟨first, second⟩ i inside
    by_cases early : i < code.length
    · rw [first i early, List.getElem_append_left]
    · obtain ⟨j, rfl⟩ := Nat.exists_eq_add_of_le (Nat.le_of_not_lt early)
      rw [List.length_append] at inside
      have later := second j (by omega)
      rw [BitVec.add_assoc, ← BitVec.ofNat_add] at later
      rw [later, List.getElem_append_right (Nat.le_add_right _ _)]
      simp only [Nat.add_sub_cancel_left]

theorem codeAt_congr {other : Address → UInt8}
    (same : ∀ i < code.length, other (a + BitVec.ofNat 32 i) = bytes (a + BitVec.ofNat 32 i)) (held : CodeAt bytes a code) :
    CodeAt other a code := by
  intro i inside
  rw [same i inside, held i inside]

theorem codeAt_store (word : BitVec 32) : CodeAt (store bytes a word) a (wordBytes word) := by
  intro i inside
  have short := length_wordBytes word
  have index : (a + BitVec.ofNat 32 i - a).toNat = i := by
    have low : i < 4 := by omega
    bv_omega
  rw [store, index, List.getElem?_eq_getElem inside, Option.getD_some]

theorem store_outside (word : BitVec 32) {x : Address} (outside : ¬ Within a 4 x) : store bytes a word x = bytes x := by
  rw [store, List.getElem?_eq_none, Option.getD_none]
  rw [length_wordBytes]
  exact Nat.le_of_not_lt outside

theorem load_congr {other : Address → UInt8} (same : ∀ x, Within a 4 x → other x = bytes x) :
    load other a = load bytes a := by
  have near (k : BitVec 32) (small : k.toNat < 4) : Within a 4 (a + k) := by
    unfold Within
    bv_omega
  have zero := same a (by unfold Within; bv_omega)
  rw [load, load, zero, same _ (near 1 (by decide)), same _ (near 2 (by decide)), same _ (near 3 (by decide))]

theorem load_of_codeAt {word : BitVec 32} (held : CodeAt bytes a (wordBytes word)) : load bytes a = word := by
  have size := length_wordBytes word
  have zero := held 0 (by omega)
  have one : bytes (a + 1) = _ := held 1 (by omega)
  have two : bytes (a + 2) = _ := held 2 (by omega)
  have three : bytes (a + 3) = _ := held 3 (by omega)
  rw [BitVec.add_zero] at zero
  apply BitVec.eq_of_toNat_eq
  have bound := word.isLt
  simp only [load, zero, one, two, three, wordBytes, List.getElem_map, List.getElem_range, UInt8.toNat_ofNat',
    Nat.shiftRight_eq_div_pow, BitVec.toNat_ofNat]
  omega

/-- A word that was loaded is stored byte by byte. -/
theorem store_load (other : Address → UInt8) (source x : Address) :
    store bytes a (load other source) x = if Within a 4 x then other (source + (x - a)) else bytes x := by
  split
  · rename_i inside
    unfold store
    have cases : x - a = 0 ∨ x - a = 1 ∨ x - a = 2 ∨ x - a = 3 := by
      unfold Within at inside
      bv_omega
    have zero := (other source).toNat_lt
    have one := (other (source + 1)).toNat_lt
    have two := (other (source + 2)).toNat_lt
    have three := (other (source + 3)).toNat_lt
    rcases cases with index | index | index | index
    · rw [index]
      change UInt8.ofNat ((load other source).toNat >>> 0) = other (source + 0)
      apply UInt8.toNat_inj.mp
      simp only [load, UInt8.toNat_ofNat', BitVec.toNat_ofNat, Nat.shiftRight_eq_div_pow, BitVec.ofNat_eq_ofNat,
        BitVec.add_zero]
      omega
    · rw [index]
      change UInt8.ofNat ((load other source).toNat >>> 8) = other (source + 1)
      apply UInt8.toNat_inj.mp
      simp only [load, UInt8.toNat_ofNat', BitVec.toNat_ofNat, Nat.shiftRight_eq_div_pow]
      omega
    · rw [index]
      change UInt8.ofNat ((load other source).toNat >>> 16) = other (source + 2)
      apply UInt8.toNat_inj.mp
      simp only [load, UInt8.toNat_ofNat', BitVec.toNat_ofNat, Nat.shiftRight_eq_div_pow]
      omega
    · rw [index]
      change UInt8.ofNat ((load other source).toNat >>> 24) = other (source + 3)
      apply UInt8.toNat_inj.mp
      simp only [load, UInt8.toNat_ofNat', BitVec.toNat_ofNat, Nat.shiftRight_eq_div_pow]
      omega
  · rename_i outside
    exact store_outside _ outside

theorem load_store (word : BitVec 32) : load (store bytes a word) a = word := load_of_codeAt (codeAt_store word)

/-! ## Instructions -/

inductive Register
  | eax | ecx | edx | ebx | ebp | esi | edi
  deriving DecidableEq

def Register.calleeSaved : Register → Bool
  | .ebx | .ebp | .esi | .edi => true
  | .eax | .ecx | .edx => false

structure State where
  eip : Address
  esp : Address
  registers : Register → BitVec 32
  zeroFlag : Bool
  bytes : Address → UInt8

inductive Instruction
  /-- `push dword [esp + displacement]`. -/
  | push (displacement : UInt8)
  | call (offset : BitVec 32)
  | addEsp (immediate : UInt8)
  | testEax
  | jnz (offset : UInt8)
  | ret
  | jmp (offset : BitVec 32)

def encode : Instruction → List UInt8
  | .push displacement => [0xFF, 0x74, 0x24, displacement]
  | .call offset => 0xE8 :: wordBytes offset
  | .addEsp immediate => [0x83, 0xC4, immediate]
  | .testEax => [0x85, 0xC0]
  | .jnz offset => [0x75, offset]
  | .ret => [0xC3]
  | .jmp offset => 0xE9 :: wordBytes offset

def decode (bytes : Address → UInt8) (a : Address) : Option Instruction :=
  if bytes a = 0xFF ∧ bytes (a + 1) = 0x74 ∧ bytes (a + 2) = 0x24 then some (.push (bytes (a + 3)))
  else if bytes a = 0xE8 then some (.call (load bytes (a + 1)))
  else if bytes a = 0x83 ∧ bytes (a + 1) = 0xC4 then some (.addEsp (bytes (a + 2)))
  else if bytes a = 0x85 ∧ bytes (a + 1) = 0xC0 then some .testEax
  else if bytes a = 0x75 then some (.jnz (bytes (a + 1)))
  else if bytes a = 0xC3 then some .ret
  else if bytes a = 0xE9 then some (.jmp (load bytes (a + 1)))
  else none

def extend (byte : UInt8) : BitVec 32 := byte.toBitVec.signExtend 32

/-- An operand at `esp` is read before `esp` changes. -/
def execute (s : State) (next : Address) : Instruction → State
  | .push displacement =>
    { s with
      eip := next
      esp := s.esp - 4
      bytes := store s.bytes (s.esp - 4) (load s.bytes (s.esp + extend displacement)) }
  | .call offset => { s with eip := next + offset, esp := s.esp - 4, bytes := store s.bytes (s.esp - 4) next }
  | .addEsp immediate => { s with eip := next, esp := s.esp + extend immediate, zeroFlag := s.esp + extend immediate = 0 }
  | .testEax => { s with eip := next, zeroFlag := s.registers .eax = 0 }
  | .jnz offset => { s with eip := if s.zeroFlag then next else next + extend offset }
  | .ret => { s with eip := load s.bytes s.esp, esp := s.esp + 4 }
  | .jmp offset => { s with eip := next + offset }

/-- Nothing is said of an instruction that is none of these. -/
def step (s : State) : Option State :=
  (decode s.bytes s.eip).map fun instruction =>
    execute s (s.eip + BitVec.ofNat 32 (encode instruction).length) instruction

def run : ℕ → State → Option State
  | 0, s => some s
  | n + 1, s => (step s).bind (run n)

theorem run_add (m n : ℕ) (s : State) : run (m + n) s = (run m s).bind (run n) := by
  induction m generalizing s with
  | zero => simp [run]
  | succ m hypothesis =>
    rw [Nat.succ_add, run, run, Option.bind_assoc]
    exact congrArg _ (funext hypothesis)

theorem run_concat {n : ℕ} {s t next : State} (ran : run n s = some t) (stepped : step t = some next) :
    run (n + 1) s = some next := by
  rw [run_add, ran, Option.bind_some, run, stepped, Option.bind_some, run]

theorem codeAt_cons {byte : UInt8} :
    CodeAt bytes a (byte :: code) ↔ bytes a = byte ∧ CodeAt bytes (a + 1) code := by
  rw [← List.singleton_append, codeAt_append]
  refine and_congr ?_ Iff.rfl
  constructor
  · intro held
    simpa using held 0 (Nat.zero_lt_one)
  · rintro first i inside
    obtain rfl : i = 0 := by simpa using inside
    simpa using first

theorem decode_of_codeAt {instruction : Instruction} (held : CodeAt bytes a (encode instruction)) :
    decode bytes a = some instruction := by
  cases instruction with
  | push displacement =>
    simp only [encode, codeAt_cons, BitVec.add_assoc] at held
    obtain ⟨zero, one, two, three, _⟩ := held
    exact (if_pos ⟨zero, one, two⟩).trans (congrArg _ (congrArg _ three))
  | call offset =>
    obtain ⟨opcode, operand⟩ := codeAt_cons.mp held
    simpa [decode, opcode] using load_of_codeAt operand
  | addEsp immediate =>
    simp only [encode, codeAt_cons, BitVec.add_assoc] at held
    obtain ⟨zero, one, two, _⟩ := held
    simpa [decode, zero] using And.intro one two
  | testEax =>
    simp only [encode, codeAt_cons] at held
    simpa [decode, held.1] using held.2.1
  | jnz offset =>
    simp only [encode, codeAt_cons] at held
    simpa [decode, held.1] using held.2.1
  | ret =>
    simp only [encode, codeAt_cons] at held
    simp [decode, held.1]
  | jmp offset =>
    obtain ⟨opcode, operand⟩ := codeAt_cons.mp held
    simpa [decode, opcode] using load_of_codeAt operand

/-- An instruction is executed where its bytes are. -/
theorem step_of_codeAt {s : State} {instruction : Instruction} (held : CodeAt s.bytes s.eip (encode instruction)) :
    step s = some (execute s (s.eip + BitVec.ofNat 32 (encode instruction).length) instruction) := by
  rw [step, decode_of_codeAt held, Option.map_some]

/-! ## Calls -/

/-- What a `cdecl` function does from its first instruction to its return: it takes its return address from the stack, and
leaves the registers that it has to save and the memory of its caller as they were. -/
structure Returns (kept : Address → Prop) (called returned : State) : Prop where
  eip : returned.eip = load called.bytes called.esp
  esp : returned.esp = called.esp + 4
  saved : ∀ register, register.calleeSaved = true → returned.registers register = called.registers register
  bytes : ∀ a, kept a → returned.bytes a = called.bytes a

end YbeProxy.X86
