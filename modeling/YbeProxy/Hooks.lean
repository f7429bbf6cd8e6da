import YbeProxy.Memory
import YbeProxy.Runs
import Mathlib.Data.List.Induction
import Mathlib.Logic.Function.Basic

/-!
# Hooks

`HookUtils/HookUtils.cpp`: a hook overwrites the first instructions of a function with a jump, keeps them in a trampoline and
puts them back. The decoder and the functions of the operating system are parameters.
-/

namespace YbeProxy.Hooks
open YbeProxy.Memory
open YbeProxy.Runs (trace final)

def jumpLength : Nat := 5
def maxSavedLength : Nat := jumpLength - 1 + 15

inductive Status
  | ok | nullTarget | alreadyAttached | decodeError | functionTooShort | relativeInstruction | outOfRange
  | allocationFailed | protectionFailed | releaseFailed
  deriving DecidableEq

/-- A pointer is its address, the null pointer is 0. The name of the hook is for messages only. -/
structure HookBase where
  originalFunctionAddr : Nat
  savedOpcodes : List UInt8
  savedOpcodeLength : Nat
  trampoline : Nat

/-- What `Analyze` uses of a decoded instruction. -/
structure Instruction where
  length : Nat
  isRelative : Bool
  opcodeMapDefault : Bool
  opcode : UInt8
  immIsRelative : Bool
  immSize : Nat
  isRet : Bool
  length_pos : 0 < length
  length_le : length ≤ 15

structure Zydis where
  decoderInit : Bool
  decode : List UInt8 → Option Instruction

/-- The bytes of the process, and the memory for trampolines that was not released, as addresses and sizes. -/
structure World where
  bytes : Nat → UInt8
  allocated : List (Nat × Nat)

/-- The operating system: where memory is placed if it is, whether code can be made writable, and whether memory is
released. -/
structure Os where
  allocateMemory : List (Nat × Nat) → Nat → Nat
  isWritable : Nat → Nat → Bool
  releaseMemory : List (Nat × Nat) → Nat → Nat → Bool

variable (zydis : Zydis) (os : Os) (is32Bit : Bool)

/-! ## The instructions at the target -/

/-- A `rel32`, if the destination is in reach. -/
def rel32 (nextInstruction destination : Int) : Option (BitVec 32) :=
  if is32Bit then some (BitVec.ofInt 32 (destination - nextInstruction))
  else
    let signedDifference := (BitVec.ofInt 64 (destination - nextInstruction)).toInt
    if signedDifference < -2147483648 ∨ 2147483647 < signedDifference then none
    else some (BitVec.ofInt 32 signedDifference)

def offsetBytes (offset : BitVec 32) : List UInt8 := (List.range 4).map fun i => UInt8.ofNat (offset.toNat >>> (8 * i))

def readOffset (bytes : List UInt8) : BitVec 32 :=
  BitVec.ofNat 32 (bytes.foldr (fun byte offset => byte.toNat + 256 * offset) 0)

/-- The bytes to copy, and where the call or jump among them is whose offset changes with its place. -/
structure Analysis where
  length : Nat
  relocation : Option Nat

def isRel32CallOrJmp (instruction : Instruction) : Bool :=
  instruction.length = jumpLength && instruction.opcodeMapDefault &&
    (instruction.opcode = 0xE8 || instruction.opcode = 0xE9) && instruction.immIsRelative && instruction.immSize = 32

def analyzeFrom (bytes : Nat → UInt8) (target : Nat) (analysis : Analysis) : Except Status Analysis :=
  if _ : analysis.length < jumpLength then
    match zydis.decode (read bytes (target + analysis.length) 15) with
    | none => .error .decodeError
    | some instruction =>
      let nextLength := analysis.length + instruction.length
      if instruction.isRelative then
        if isRel32CallOrJmp instruction then analyzeFrom bytes target ⟨nextLength, some analysis.length⟩
        else .error .relativeInstruction
      else if nextLength < jumpLength ∧ instruction.isRet then .error .functionTooShort
      else analyzeFrom bytes target ⟨nextLength, analysis.relocation⟩
  else .ok analysis
termination_by jumpLength - analysis.length
decreasing_by
  all_goals
    have forward := instruction.length_pos
    omega

def analyze (bytes : Nat → UInt8) (target : Nat) : Except Status Analysis :=
  if zydis.decoderInit then analyzeFrom zydis bytes target ⟨0, none⟩ else .error .decodeError

/-! ## Attaching and detaching -/

/-- Fresh memory is filled with 0. -/
def allocateMemory (world : World) (size : Nat) : Nat × World :=
  let address := os.allocateMemory world.allocated size
  if address = 0 then (0, world)
  else (address, ⟨write world.bytes address (List.replicate size 0), (address, size) :: world.allocated⟩)

def releaseMemory (world : World) (address size : Nat) : Bool × World :=
  if os.releaseMemory world.allocated address size then
    (true, { world with allocated := world.allocated.erase (address, size) })
  else (false, world)

/-- The copied call or jump reaches the same destination from its new place, or is out of range there. -/
def relocate (bytes : Nat → UInt8) (target trampoline : Nat) (relocation : Option Nat) : Bool × (Nat → UInt8) :=
  match relocation with
  | none => (true, bytes)
  | some relocationOffset =>
    let offset := readOffset (read bytes (target + relocationOffset + 1) 4)
    let destination := (target + relocationOffset + jumpLength : Int) + offset.toInt
    match rel32 is32Bit (trampoline + relocationOffset + jumpLength) destination with
    | none => (false, bytes)
    | some offset => (true, write bytes (trampoline + relocationOffset + 1) (offsetBytes offset))

/-- The copy of the first instructions, and the offset of the jump behind them if everything is in range. -/
def copyInstructions (bytes : Nat → UInt8) (target trampoline : Nat) (analysis : Analysis) :
    Option (BitVec 32) × (Nat → UInt8) :=
  let bytes := write bytes trampoline (read bytes target analysis.length)
  match rel32 is32Bit (trampoline + analysis.length + jumpLength) (target + analysis.length) with
  | none => (none, bytes)
  | some jumpBack =>
    let relocated := relocate is32Bit bytes target trampoline analysis.relocation
    (if relocated.1 then some jumpBack else none, relocated.2)

/-- The target jumps to the proxy, and the rest of its first instructions is filled up. -/
def writeJump (bytes : Nat → UInt8) (target length : Nat) (jumpToProxy : BitVec 32) : Nat → UInt8 :=
  let bytes := write bytes target (List.replicate length 0x90)
  let bytes := write bytes target [0xE9]
  write bytes (target + 1) (offsetBytes jumpToProxy)

structure Outcome where
  status : Status
  world : World
  hook : HookBase

/-- `AttachHook` once it has memory for the trampoline. -/
def fillTrampoline (world : World) (hook : HookBase) (analysis : Analysis) (jumpToProxy : BitVec 32) (trampoline : Nat) :
    Outcome :=
  let target := hook.originalFunctionAddr
  let length := analysis.length
  let copied := copyInstructions is32Bit world.bytes target trampoline analysis
  match copied.1 with
  | none =>
    ⟨.outOfRange, (releaseMemory os { world with bytes := copied.2 } trampoline (length + jumpLength)).2, hook⟩
  | some jumpBack =>
    let bytes := write copied.2 (trampoline + length) (0xE9 :: offsetBytes jumpBack)
    if os.isWritable target length then
      ⟨.ok, { world with bytes := writeJump bytes target length jumpToProxy },
        { hook with
          savedOpcodes := read bytes target length ++ hook.savedOpcodes.drop length
          savedOpcodeLength := length
          trampoline }⟩
    else ⟨.protectionFailed, (releaseMemory os { world with bytes } trampoline (length + jumpLength)).2, hook⟩

def attachHook (world : World) (hook : HookBase) (proxyFunction : Nat) : Outcome :=
  let target := hook.originalFunctionAddr
  if target = 0 ∨ proxyFunction = 0 then ⟨.nullTarget, world, hook⟩
  else if hook.trampoline ≠ 0 then ⟨.alreadyAttached, world, hook⟩
  else
    match analyze zydis world.bytes target with
    | .error status => ⟨status, world, hook⟩
    | .ok analysis =>
      match rel32 is32Bit (target + jumpLength) proxyFunction with
      | none => ⟨.outOfRange, world, hook⟩
      | some jumpToProxy =>
        let (trampoline, world) := allocateMemory os world (analysis.length + jumpLength)
        if trampoline = 0 then ⟨.allocationFailed, world, hook⟩
        else fillTrampoline os is32Bit world hook analysis jumpToProxy trampoline

def detachHook (world : World) (hook : HookBase) : Outcome :=
  if hook.trampoline = 0 then ⟨.ok, world, hook⟩
  else if os.isWritable hook.originalFunctionAddr hook.savedOpcodeLength then
    let world := { world with
      bytes := write world.bytes hook.originalFunctionAddr (hook.savedOpcodes.take hook.savedOpcodeLength) }
    let (released, world) := releaseMemory os world hook.trampoline (hook.savedOpcodeLength + jumpLength)
    ⟨if released then .ok else .releaseFailed, world, { hook with trampoline := 0, savedOpcodeLength := 0 }⟩
  else ⟨.protectionFailed, world, hook⟩

/-! ## What a call changes -/

theorem length_offsetBytes (offset : BitVec 32) : (offsetBytes offset).length = 4 := by simp [offsetBytes]

/-- The instructions cover the jump, and the last one ends within 15 bytes of where it had to start. A call or jump whose
offset changes lies in what is copied. -/
def Analysis.Fits (analysis : Analysis) : Prop :=
  jumpLength ≤ analysis.length ∧ analysis.length ≤ maxSavedLength ∧
    ∀ relocationOffset, analysis.relocation = some relocationOffset → relocationOffset + jumpLength ≤ analysis.length

theorem analyzeFrom_cases (bytes : Nat → UInt8) (target : Nat) {analysis : Analysis}
    (bound : analysis.length ≤ maxSavedLength)
    (relocated : ∀ relocationOffset, analysis.relocation = some relocationOffset →
      relocationOffset + jumpLength ≤ analysis.length) :
    (∃ result, analyzeFrom zydis bytes target analysis = .ok result ∧ result.Fits) ∨
      ∃ status, analyzeFrom zydis bytes target analysis = .error status ∧ status ≠ .ok := by
  have limit : maxSavedLength = jumpLength - 1 + 15 := rfl
  induction analysis using analyzeFrom.induct zydis bytes target with
  | case1 analysis short failed =>
    rw [analyzeFrom, dif_pos short, failed]
    exact Or.inr ⟨_, rfl, by rintro ⟨⟩⟩
  | case2 analysis short instruction decoded nextLength relative plain hypothesis =>
    rw [analyzeFrom, dif_pos short, decoded]
    simp only [relative, plain, if_true]
    have size : instruction.length = jumpLength := by
      simp only [isRel32CallOrJmp, Bool.and_eq_true, decide_eq_true_eq] at plain
      exact plain.1.1.1.1
    have longest := instruction.length_le
    refine hypothesis (by dsimp only; omega) ?_
    rintro _ ⟨⟩
    dsimp only
    omega
  | case3 analysis short instruction decoded relative odd =>
    rw [analyzeFrom, dif_pos short, decoded]
    simp only [relative, odd, if_true]
    exact Or.inr ⟨_, rfl, by rintro ⟨⟩⟩
  | case4 analysis short instruction decoded nextLength absolute ends =>
    rw [analyzeFrom, dif_pos short, decoded]
    simp only [absolute]
    rw [if_pos ends]
    exact Or.inr ⟨_, rfl, by rintro ⟨⟩⟩
  | case5 analysis short instruction decoded nextLength absolute goesOn hypothesis =>
    rw [analyzeFrom, dif_pos short, decoded]
    simp only [absolute]
    rw [if_neg goesOn]
    have longest := instruction.length_le
    refine hypothesis (by dsimp only; omega) ?_
    intro relocationOffset listed
    have inside := relocated relocationOffset listed
    dsimp only
    omega
  | case6 analysis long =>
    rw [analyzeFrom, dif_neg long]
    exact Or.inl ⟨analysis, rfl, Nat.le_of_not_lt long, bound, relocated⟩

theorem analyze_cases (bytes : Nat → UInt8) (target : Nat) :
    (∃ analysis, analyze zydis bytes target = .ok analysis ∧ analysis.Fits) ∨
      ∃ status, analyze zydis bytes target = .error status ∧ status ≠ .ok := by
  rw [analyze]
  split
  · exact analyzeFrom_cases zydis bytes target (Nat.zero_le _) (by rintro _ ⟨⟩)
  · exact Or.inr ⟨_, rfl, by rintro ⟨⟩⟩

/-- What is relied on of the operating system, with the memory that is in use: memory for a trampoline is placed outside of
it, and memory that was handed out is released. -/
structure Os.Documented (code : Nat → Prop) : Prop where
  fresh : ∀ allocated size, os.allocateMemory allocated size ≠ 0 →
    Avoids code (os.allocateMemory allocated size) size
  releases : ∀ allocated address size, (address, size) ∈ allocated →
    os.releaseMemory allocated address size = true

variable {zydis os} {code : Nat → Prop}

theorem copyInstructions_sameOn (bytes : Nat → UInt8) (target : Nat) {trampoline : Nat} {analysis : Analysis}
    (fits : analysis.Fits) (avoids : Avoids code trampoline (analysis.length + jumpLength)) :
    SameOn code bytes (copyInstructions is32Bit bytes target trampoline analysis).2 := by
  obtain ⟨_, _, relocated⟩ := fits
  have copied : SameOn code bytes (write bytes trampoline (read bytes target analysis.length)) := by
    refine write_sameOn bytes ?_
    rw [length_read]
    exact avoids.part (Nat.le_refl _) (by omega)
  simp only [copyInstructions]
  split
  · exact copied
  · refine copied.trans ?_
    simp only [relocate]
    split
    · exact SameOn.refl _ _
    · rename_i relocationOffset listed
      have inside := relocated relocationOffset listed
      split
      · exact SameOn.refl _ _
      · refine write_sameOn _ ?_
        rw [length_offsetBytes]
        have size : jumpLength = 5 := rfl
        exact avoids.part (by omega) (by omega)

theorem allocateMemory_cases (os : Os) (world : World) (size : Nat) :
    (allocateMemory os world size = (0, world)) ∨
      ∃ address, address = os.allocateMemory world.allocated size ∧ address ≠ 0 ∧ allocateMemory os world size =
        (address, ⟨write world.bytes address (List.replicate size 0), (address, size) :: world.allocated⟩) := by
  by_cases none : os.allocateMemory world.allocated size = 0
  · exact Or.inl (if_pos none)
  · exact Or.inr ⟨_, rfl, none, if_neg none⟩

/-- What was handed out last is taken back. -/
theorem releaseMemory_last (documented : os.Documented code) (bytes : Nat → UInt8) (allocated : List (Nat × Nat))
    (address size : Nat) :
    releaseMemory os ⟨bytes, (address, size) :: allocated⟩ address size = (true, ⟨bytes, allocated⟩) := by
  have released := documented.releases ((address, size) :: allocated) address size List.mem_cons_self
  rw [releaseMemory, if_pos released, List.erase_cons_head]

/-- Nothing has changed: the hook, the memory handed out, and the memory in use. -/
def Unchanged (code : Nat → Prop) (world : World) (hook : HookBase) (outcome : Outcome) : Prop :=
  outcome.hook = hook ∧ outcome.world.allocated = world.allocated ∧ SameOn code world.bytes outcome.world.bytes

/-- The hook is attached. The bytes before the jump is written differ in the trampoline only. -/
def Attached (code : Nat → Prop) (world : World) (hook : HookBase) (outcome : Outcome) : Prop :=
  ∃ length trampoline bytes jumpToProxy, trampoline ≠ 0 ∧ jumpLength ≤ length ∧ length ≤ maxSavedLength ∧
    SameOn code world.bytes bytes ∧
    outcome.world.bytes = writeJump bytes hook.originalFunctionAddr length jumpToProxy ∧
    outcome.hook = { hook with
      savedOpcodes := read bytes hook.originalFunctionAddr length ++ hook.savedOpcodes.drop length
      savedOpcodeLength := length
      trampoline }

theorem fillTrampoline_cases (documented : os.Documented code) (bytes : Nat → UInt8) (allocated : List (Nat × Nat))
    (hook : HookBase) {analysis : Analysis} (fits : analysis.Fits) (jumpToProxy : BitVec 32) {trampoline : Nat}
    (placed : trampoline ≠ 0) (avoids : Avoids code trampoline (analysis.length + jumpLength)) :
    let outcome := fillTrampoline os is32Bit ⟨bytes, (trampoline, analysis.length + jumpLength) :: allocated⟩ hook analysis
      jumpToProxy trampoline
    (outcome.status ≠ .ok ∧ Unchanged code ⟨bytes, allocated⟩ hook outcome) ∨
      outcome.status = .ok ∧ Attached code ⟨bytes, allocated⟩ hook outcome := by
  have copied := copyInstructions_sameOn is32Bit bytes hook.originalFunctionAddr fits avoids
  have released (bytes : Nat → UInt8) :=
    releaseMemory_last documented bytes allocated trampoline (analysis.length + jumpLength)
  simp only [fillTrampoline]
  split
  · left
    rw [released]
    exact ⟨by rintro ⟨⟩, rfl, rfl, copied⟩
  · rename_i jumpBack _
    have size : jumpLength = 5 := rfl
    have filled := copied.trans (@write_sameOn _ _
      (copyInstructions is32Bit bytes hook.originalFunctionAddr trampoline analysis).2 _ (0xE9 :: offsetBytes jumpBack)
      (avoids.part (Nat.le_add_right trampoline analysis.length) (by
        rw [List.length_cons, length_offsetBytes]
        omega)))
    split
    · exact Or.inr ⟨rfl, _, trampoline, _, jumpToProxy, placed, fits.1, fits.2.1, filled, rfl, rfl⟩
    · left
      rw [released]
      exact ⟨by rintro ⟨⟩, rfl, rfl, filled⟩

/-- What `AttachHook` comes to: nothing has changed, or the hook is attached. -/
theorem attachHook_cases (documented : os.Documented code) (zydis : Zydis) (world : World) (hook : HookBase)
    (proxyFunction : Nat) :
    let outcome := attachHook zydis os is32Bit world hook proxyFunction
    (outcome.status ≠ .ok ∧ Unchanged code world hook outcome) ∨
      outcome.status = .ok ∧ hook.trampoline = 0 ∧ Attached code world hook outcome := by
  have unchanged {status : Status} : Unchanged code world hook ⟨status, world, hook⟩ := ⟨rfl, rfl, SameOn.refl _ _⟩
  simp only [attachHook]
  split
  · exact Or.inl ⟨by rintro ⟨⟩, unchanged⟩
  split
  · exact Or.inl ⟨by rintro ⟨⟩, unchanged⟩
  rename_i detached
  rcases analyze_cases zydis world.bytes hook.originalFunctionAddr with ⟨analysis, analyzed, fits⟩ | ⟨status, analyzed, failed⟩
  · simp only [analyzed]
    split
    · exact Or.inl ⟨by rintro ⟨⟩, unchanged⟩
    · rename_i jumpToProxy _
      rcases allocateMemory_cases os world (analysis.length + jumpLength) with none | ⟨trampoline, placed, nonnull, some⟩
      · rw [none, if_pos rfl]
        exact Or.inl ⟨by rintro ⟨⟩, unchanged⟩
      · have avoids : Avoids code trampoline (analysis.length + jumpLength) := by
          rw [placed] at nonnull ⊢
          exact documented.fresh _ _ nonnull
        have cleared : SameOn code world.bytes
            (write world.bytes trampoline (List.replicate (analysis.length + jumpLength) 0)) :=
          write_sameOn world.bytes (by rwa [List.length_replicate])
        rw [some, if_neg nonnull]
        rcases fillTrampoline_cases is32Bit documented _ world.allocated hook fits jumpToProxy nonnull avoids with
          ⟨failed, same, released, kept⟩ | ⟨ok, attached⟩
        · exact Or.inl ⟨failed, same, released, cleared.trans kept⟩
        · obtain ⟨length, address, bytes, jump, found, low, high, kept, written, after⟩ := attached
          exact Or.inr ⟨ok, not_not.mp detached, length, address, bytes, jump, found, low, high, cleared.trans kept,
            written, after⟩
  · simp only [analyzed]
    exact Or.inl ⟨failed, unchanged⟩

/-- A result other than Ok leaves the hook and every byte in use as they were, and no memory for a trampoline. -/
theorem attachHook_atomic (documented : os.Documented code) (zydis : Zydis) (world : World) (hook : HookBase)
    (proxyFunction : Nat) (failed : (attachHook zydis os is32Bit world hook proxyFunction).status ≠ .ok) :
    (attachHook zydis os is32Bit world hook proxyFunction).hook = hook ∧
      (attachHook zydis os is32Bit world hook proxyFunction).world.allocated = world.allocated ∧
      ∀ a, code a → (attachHook zydis os is32Bit world hook proxyFunction).world.bytes a = world.bytes a := by
  rcases attachHook_cases is32Bit documented zydis world hook proxyFunction with ⟨_, unchanged⟩ | ⟨ok, _⟩
  · exact unchanged
  · exact absurd ok failed

/-- The bytes from 1000 on are one-byte instructions, and code below 5000 cannot be made writable. -/
def nopZydis : Zydis := ⟨true, fun _ => some ⟨1, false, true, 0x90, false, 0, false, by decide, by decide⟩⟩
def lockedOs : Os := ⟨fun _ _ => 5000, fun _ _ => false, fun allocated address size => allocated.contains (address, size)⟩
def sampleHook : HookBase := ⟨1000, List.replicate maxSavedLength 0, 0, 0⟩

theorem attachHook_atomic_sample :
    (attachHook nopZydis lockedOs true ⟨fun _ => 0x90, []⟩ sampleHook 2000).status = .protectionFailed ∧
      (attachHook nopZydis lockedOs true ⟨fun _ => 0x90, []⟩ sampleHook 2000).hook = sampleHook ∧
      (attachHook nopZydis lockedOs true ⟨fun _ => 0x90, []⟩ sampleHook 2000).world.allocated = [] ∧
      ∀ a, a < 5000 → (attachHook nopZydis lockedOs true ⟨fun _ => 0x90, []⟩ sampleHook 2000).world.bytes a = 0x90 := by
  have failed : (attachHook nopZydis lockedOs true ⟨fun _ => 0x90, []⟩ sampleHook 2000).status = .protectionFailed := by
    decide +kernel
  have documented : lockedOs.Documented (· < 5000) := by
    constructor
    · rintro _ _ _ a ⟨low, _⟩ below
      exact absurd below (Nat.not_lt.mpr low)
    · intro allocated address size listed
      exact List.contains_iff_mem.mpr listed
  exact ⟨failed, attachHook_atomic true documented nopZydis ⟨fun _ => 0x90, []⟩ sampleHook 2000 (by rw [failed]; rintro ⟨⟩)⟩

/-! ## Runs of attaching and detaching -/

theorem writeJump_outside (bytes : Nat → UInt8) (target : Nat) {length : Nat} (room : jumpLength ≤ length)
    (jumpToProxy : BitVec 32) {a : Nat} (outside : ¬ Within target length a) :
    writeJump bytes target length jumpToProxy a = bytes a := by
  have size : jumpLength = 5 := rfl
  have part {start count : Nat} (before : target ≤ start) (behind : start + count ≤ target + length) :
      ¬ Within start count a := by
    rintro ⟨low, high⟩
    exact outside ⟨by omega, by omega⟩
  rw [writeJump, write_outside, write_outside, write_outside]
  · rw [List.length_replicate]
    exact outside
  · exact part (Nat.le_refl _) (by rw [List.length_singleton]; omega)
  · exact part (by omega) (by rw [length_offsetBytes]; omega)

theorem detachHook_ok {world : World} {hook : HookBase} (ok : (detachHook os world hook).status = .ok) :
    hook.trampoline = 0 ∧ detachHook os world hook = ⟨.ok, world, hook⟩ ∨
      hook.trampoline ≠ 0 ∧
        (detachHook os world hook).world.bytes =
          write world.bytes hook.originalFunctionAddr (hook.savedOpcodes.take hook.savedOpcodeLength) ∧
        (detachHook os world hook).hook = { hook with trampoline := 0, savedOpcodeLength := 0 } := by
  by_cases detached : hook.trampoline = 0
  · exact Or.inl ⟨detached, if_pos detached⟩
  · right
    simp only [detachHook, if_neg detached] at ok ⊢
    split at ok
    · rename_i writable
      rw [if_pos writable]
      refine ⟨detached, ?_, rfl⟩
      rw [releaseMemory]
      split <;> rfl
    · cases ok

/-- The hooks of the proxy, on one memory. -/
structure Hooked (ι : Type) where
  world : World
  hooks : ι → HookBase

inductive Event (ι : Type)
  | attach (i : ι) (zydis : Zydis) (os : Os) (proxyFunction : Nat)
  | detach (i : ι) (os : Os)

variable {ι : Type} [DecidableEq ι]

def step (state : Hooked ι) : Event ι → Status × Hooked ι
  | .attach i zydis os proxyFunction =>
    let outcome := attachHook zydis os is32Bit state.world (state.hooks i) proxyFunction
    (outcome.status, ⟨outcome.world, Function.update state.hooks i outcome.hook⟩)
  | .detach i os =>
    let outcome := detachHook os state.world (state.hooks i)
    (outcome.status, ⟨outcome.world, Function.update state.hooks i outcome.hook⟩)

/-- The address is in the recorded range of a hook. -/
def HookBase.Overwrites (hook : HookBase) (a : Nat) : Prop := Within hook.originalFunctionAddr hook.savedOpcodeLength a

/-- The ranges of the attached hooks are code, and no two have a byte in common. -/
def Apart (code : Nat → Prop) (state : Hooked ι) : Prop :=
  ∀ i, (state.hooks i).trampoline ≠ 0 → ∀ a, (state.hooks i).Overwrites a →
    code a ∧ ∀ j, (state.hooks j).trampoline ≠ 0 → (state.hooks j).Overwrites a → j = i

/-- What a hook keeps: nothing but room for the saved bytes while it is detached, the original bytes of its range while it is
attached. -/
def HookBase.Saves (original : Nat → UInt8) (hook : HookBase) : Prop :=
  hook.savedOpcodes.length = maxSavedLength ∧
    (hook.trampoline = 0 → hook.savedOpcodeLength = 0) ∧
    (hook.trampoline ≠ 0 → jumpLength ≤ hook.savedOpcodeLength ∧ hook.savedOpcodeLength ≤ maxSavedLength ∧
      hook.savedOpcodes.take hook.savedOpcodeLength = read original hook.originalFunctionAddr hook.savedOpcodeLength)

structure Restorable (original : Nat → UInt8) (code : Nat → Prop) (state : Hooked ι) : Prop where
  saves : ∀ i, (state.hooks i).Saves original
  elsewhere : ∀ a, code a → state.world.bytes a ≠ original a →
    ∃ i, (state.hooks i).trampoline ≠ 0 ∧ (state.hooks i).Overwrites a

variable {original : Nat → UInt8}

omit [DecidableEq ι] in
/-- A hook that changes leaves what is known of the others. -/
theorem Restorable.of_hook {state next : Hooked ι} (restorable : Restorable original code state) {i : ι}
    (others : ∀ j, j ≠ i → next.hooks j = state.hooks j) (saves : (next.hooks i).Saves original)
    (elsewhere : ∀ a, code a → next.world.bytes a ≠ original a →
      ((next.hooks i).trampoline ≠ 0 ∧ (next.hooks i).Overwrites a) ∨
        state.world.bytes a ≠ original a ∧ ((state.hooks i).trampoline ≠ 0 → ¬ (state.hooks i).Overwrites a)) :
    Restorable original code next := by
  constructor
  · intro j
    by_cases same : j = i
    · rw [same]
      exact saves
    · rw [others j same]
      exact restorable.saves j
  · intro a used different
    rcases elsewhere a used different with mine | ⟨before, outside⟩
    · exact ⟨i, mine⟩
    · obtain ⟨j, attached, overwrites⟩ := restorable.elsewhere a used before
      have other : j ≠ i := by
        rintro rfl
        exact outside attached overwrites
      refine ⟨j, ?_⟩
      rw [others j other]
      exact ⟨attached, overwrites⟩

/-- A hook that is attached saves the original bytes: none of its range is overwritten by another. -/
theorem attach_restorable (documented : os.Documented code) {state : Hooked ι}
    (restorable : Restorable original code state) (i : ι) (zydis : Zydis) (proxyFunction : Nat)
    (ok : (step is32Bit state (.attach i zydis os proxyFunction)).1 = .ok)
    (apart : Apart code (step is32Bit state (.attach i zydis os proxyFunction)).2) :
    Restorable original code (step is32Bit state (.attach i zydis os proxyFunction)).2 := by
  have others (j : ι) (other : j ≠ i) :
      (step is32Bit state (.attach i zydis os proxyFunction)).2.hooks j = state.hooks j :=
    Function.update_of_ne other _ _
  have mine : (step is32Bit state (.attach i zydis os proxyFunction)).2.hooks i =
      (attachHook zydis os is32Bit state.world (state.hooks i) proxyFunction).hook := Function.update_self _ _ _
  rcases attachHook_cases is32Bit documented zydis state.world (state.hooks i) proxyFunction with
    ⟨failed, _⟩ | ⟨_, detached, length, trampoline, bytes, jumpToProxy, placed, low, high, kept, written, after⟩
  · exact absurd ok failed
  rw [after] at mine
  have range (a : Nat) (inside : Within (state.hooks i).originalFunctionAddr length a) : bytes a = original a := by
    obtain ⟨used, alone⟩ := apart i (by rwa [mine]) a (by rwa [mine])
    rw [kept a used]
    by_contra different
    obtain ⟨j, attached, overwrites⟩ := restorable.elsewhere a used different
    have other : j ≠ i := by
      rintro rfl
      exact attached detached
    rw [← others j other] at attached overwrites
    exact other (alone j attached overwrites)
  refine restorable.of_hook others ?_ ?_
  · rw [mine]
    have room := (restorable.saves i).1
    refine ⟨?_, fun none => absurd none placed, fun _ => ⟨low, high, ?_⟩⟩
    · rw [List.length_append, length_read, List.length_drop, room]
      omega
    · rw [List.take_left' (length_read _ _ _)]
      exact read_congr range
  · intro a used different
    by_cases inside : Within (state.hooks i).originalFunctionAddr length a
    · rw [mine]
      exact Or.inl ⟨placed, inside⟩
    · refine Or.inr ⟨?_, fun attached => absurd detached attached⟩
      have same : (step is32Bit state (.attach i zydis os proxyFunction)).2.world.bytes a = state.world.bytes a := by
        rw [← kept a used, ← writeJump_outside bytes _ low jumpToProxy inside, ← written]
        rfl
      rwa [same] at different

/-- The saved bytes are back, and no other hook has lost its jump. -/
theorem detach_restorable {state : Hooked ι} (restorable : Restorable original code state) (i : ι)
    (ok : (step is32Bit state (.detach i os)).1 = .ok) :
    Restorable original code (step is32Bit state (.detach i os)).2 := by
  have others (j : ι) (other : j ≠ i) : (step is32Bit state (.detach i os)).2.hooks j = state.hooks j :=
    Function.update_of_ne other _ _
  have mine : (step is32Bit state (.detach i os)).2.hooks i = (detachHook os state.world (state.hooks i)).hook :=
    Function.update_self _ _ _
  rcases detachHook_ok ok with ⟨_, same⟩ | ⟨attached, written, after⟩
  · simp only [step, same, Function.update_eq_self]
    exact restorable
  obtain ⟨room, _, saved⟩ := restorable.saves i
  obtain ⟨_, _, bytes⟩ := saved attached
  rw [after] at mine
  refine restorable.of_hook others ?_ ?_
  · rw [mine]
    exact ⟨room, fun _ => rfl, fun absurdity => absurd rfl absurdity⟩
  · intro a used different
    have restored : (step is32Bit state (.detach i os)).2.world.bytes a =
        write state.world.bytes (state.hooks i).originalFunctionAddr
          (read original (state.hooks i).originalFunctionAddr (state.hooks i).savedOpcodeLength) a := by
      rw [← bytes, ← written]
      rfl
    rw [restored] at different
    have outside : ¬ (state.hooks i).Overwrites a := fun inside => different (write_read_inside _ _ _ _ inside)
    rw [write_outside _ _ _ (by rwa [length_read])] at different
    exact Or.inr ⟨different, fun _ => outside⟩

/-! ## Whole runs -/

/-- The last call on a hook attached it. -/
def attachedAfter (events : List (Event ι)) (i : ι) : Bool :=
  events.foldl (fun attached event =>
    match event with
    | .attach j _ _ _ => if j = i then true else attached
    | .detach j _ => if j = i then false else attached) false

def Event.Documented (code : Nat → Prop) : Event ι → Prop
  | .attach _ _ os _ => os.Documented code
  | .detach _ _ => True

/-- As the hooks are before any is attached. -/
def HookBase.Fresh (hook : HookBase) : Prop :=
  hook.savedOpcodes.length = maxSavedLength ∧ hook.savedOpcodeLength = 0 ∧ hook.trampoline = 0

theorem attachedAfter_concat (events : List (Event ι)) (event : Event ι) (i : ι) :
    attachedAfter (events ++ [event]) i =
      match event with
      | .attach j _ _ _ => if j = i then true else attachedAfter events i
      | .detach j _ => if j = i then false else attachedAfter events i := by
  rw [attachedAfter, List.foldl_append]
  rfl

theorem step_attached {event : Event ι} (documented : event.Documented code) {state : Hooked ι} {events : List (Event ι)}
    (known : ∀ i, (state.hooks i).trampoline ≠ 0 ↔ attachedAfter events i = true)
    (ok : (step is32Bit state event).1 = .ok) (i : ι) :
    ((step is32Bit state event).2.hooks i).trampoline ≠ 0 ↔ attachedAfter (events ++ [event]) i = true := by
  rw [attachedAfter_concat]
  cases event with
  | attach j zydis os proxyFunction =>
    rcases attachHook_cases is32Bit documented zydis state.world (state.hooks j) proxyFunction with
      ⟨failed, _⟩ | ⟨_, _, length, trampoline, _, _, placed, _, _, _, _, after⟩
    · exact absurd ok failed
    by_cases same : j = i
    · subst same
      simp [step, after, placed]
    · simpa [step, same, Function.update_of_ne (Ne.symm same)] using known i
  | detach j os =>
    by_cases same : j = i
    · subst same
      rcases detachHook_ok ok with ⟨detached, unchanged⟩ | ⟨_, _, after⟩
      · simp [step, unchanged, detached]
      · simp [step, after]
    · simpa [step, same, Function.update_of_ne (Ne.symm same)] using known i

theorem run_restorable {state : Hooked ι} (fresh : ∀ i, (state.hooks i).Fresh) {events : List (Event ι)}
    (documented : ∀ event ∈ events, event.Documented code)
    (ok : ∀ entry ∈ trace (step is32Bit) state events, entry.2 = .ok)
    (apart : ∀ before after, events = before ++ after → Apart code (final (step is32Bit) state before)) :
    Restorable state.world.bytes code (final (step is32Bit) state events) ∧
      ∀ i, ((final (step is32Bit) state events).hooks i).trampoline ≠ 0 ↔ attachedAfter events i = true := by
  induction events using List.reverseRecOn with
  | nil =>
    refine ⟨⟨?_, fun a _ different => absurd rfl different⟩, ?_⟩
    · intro i
      obtain ⟨room, length, detached⟩ := fresh i
      exact ⟨room, fun _ => length, fun attached => absurd detached attached⟩
    · intro i
      simp [final, attachedAfter, (fresh i).2.2]
  | append_singleton events event hypothesis =>
    rw [Runs.trace_concat] at ok
    have answered := ok _ (List.mem_append_right _ List.mem_cons_self)
    have allowed := documented event (List.mem_append_right _ List.mem_cons_self)
    obtain ⟨restorable, known⟩ := hypothesis (fun earlier member => documented earlier (List.mem_append_left _ member))
      (fun entry member => ok entry (List.mem_append_left _ member))
      (fun before after split => apart before (after ++ [event]) (by simp [split]))
    have next := apart (events ++ [event]) [] (by simp)
    rw [Runs.final_concat] at next ⊢
    refine ⟨?_, step_attached is32Bit allowed known answered⟩
    cases event with
    | attach i zydis os proxyFunction => exact attach_restorable is32Bit allowed restorable i zydis _ answered next
    | detach i os => exact detach_restorable is32Bit restorable i answered

/-- Calls on hooks whose ranges stay apart, all of them Ok: only the ranges of attached hooks differ from the original code,
and none once every hook is detached. -/
theorem detach_undoes_attach {state : Hooked ι} (fresh : ∀ i, (state.hooks i).Fresh) {events : List (Event ι)}
    (documented : ∀ event ∈ events, event.Documented code)
    (ok : ∀ entry ∈ trace (step is32Bit) state events, entry.2 = .ok)
    (apart : ∀ before after, events = before ++ after → Apart code (final (step is32Bit) state before)) :
    ∀ before after, events = before ++ after →
      (∀ i, ((final (step is32Bit) state before).hooks i).trampoline ≠ 0 →
        jumpLength ≤ ((final (step is32Bit) state before).hooks i).savedOpcodeLength ∧
        ((final (step is32Bit) state before).hooks i).savedOpcodeLength ≤ maxSavedLength ∧
        ((final (step is32Bit) state before).hooks i).savedOpcodes.length = maxSavedLength) ∧
      (∀ a, code a → (final (step is32Bit) state before).world.bytes a ≠ state.world.bytes a →
        ∃ i, ((final (step is32Bit) state before).hooks i).trampoline ≠ 0 ∧
          ((final (step is32Bit) state before).hooks i).Overwrites a) ∧
      ((∀ i, attachedAfter before i = false) →
        (∀ i, ((final (step is32Bit) state before).hooks i).trampoline = 0 ∧
          ((final (step is32Bit) state before).hooks i).savedOpcodeLength = 0) ∧
        ∀ a, code a → (final (step is32Bit) state before).world.bytes a = state.world.bytes a) := by
  rintro before after rfl
  obtain ⟨restorable, known⟩ := run_restorable is32Bit fresh
    (fun event member => documented event (List.mem_append_left _ member))
    (fun entry member => ok entry (by
      rw [Runs.trace_append]
      exact List.mem_append_left _ member))
    (fun earlier later split => apart earlier (later ++ after) (by simp [split]))
  refine ⟨?_, restorable.elsewhere, ?_⟩
  · intro i attached
    obtain ⟨room, _, saved⟩ := restorable.saves i
    obtain ⟨low, high, _⟩ := saved attached
    exact ⟨low, high, room⟩
  · intro detached
    have free (i : ι) : ((final (step is32Bit) state before).hooks i).trampoline = 0 := by
      by_contra attached
      have last := (known i).mp attached
      rw [detached i] at last
      cases last
    refine ⟨fun i => ⟨free i, (restorable.saves i).2.1 (free i)⟩, ?_⟩
    intro a used
    by_contra different
    obtain ⟨i, attached, _⟩ := restorable.elsewhere a used different
    exact attached (free i)

def openOs : Os := { lockedOs with
  allocateMemory := fun allocated _ => 5000 + 100 * allocated.length
  isWritable := fun _ _ => true }

def sampleHooks : Hooked Bool :=
  ⟨⟨fun _ => 0x90, []⟩, fun i => { sampleHook with originalFunctionAddr := if i then 1000 else 2000 }⟩

/-- One hook is detached and attached again while the other is attached. -/
def sampleCalls : List (Event Bool) :=
  [.attach true nopZydis openOs 3000, .attach false nopZydis openOs 3100, .detach true openOs,
    .attach true nopZydis openOs 3000, .detach false openOs, .detach true openOs]

theorem openOs_documented : openOs.Documented (· < 5000) := by
  constructor
  · rintro allocated size _ a ⟨low, _⟩ below
    have placed : openOs.allocateMemory allocated size = 5000 + 100 * allocated.length := rfl
    omega
  · intro allocated address size listed
    exact List.contains_iff_mem.mpr listed

theorem sampleCalls_ranges : ∀ n < 7, ∀ i : Bool,
    ((final (step true) sampleHooks (sampleCalls.take n)).hooks i).originalFunctionAddr = (if i then 1000 else 2000) ∧
      ((final (step true) sampleHooks (sampleCalls.take n)).hooks i).savedOpcodeLength ≤ 5 := by
  decide +kernel

theorem detach_undoes_attach_sample :
    (∀ i, ((final (step true) sampleHooks sampleCalls).hooks i).trampoline = 0) ∧
      ∀ a, a < 5000 → (final (step true) sampleHooks sampleCalls).world.bytes a = 0x90 := by
  have documented : ∀ event ∈ sampleCalls, event.Documented (· < 5000) := by
    simp [sampleCalls, Event.Documented, openOs_documented]
  have answers : (trace (step true) sampleHooks sampleCalls).map Prod.snd = List.replicate 6 .ok := by decide +kernel
  have ok : ∀ entry ∈ trace (step true) sampleHooks sampleCalls, entry.2 = .ok := by
    intro entry member
    have answer : entry.2 ∈ List.replicate 6 Status.ok := answers ▸ List.mem_map_of_mem member
    exact List.eq_of_mem_replicate answer
  have apart (before after : List (Event Bool)) (split : sampleCalls = before ++ after) :
      Apart (· < 5000) (final (step true) sampleHooks before) := by
    have taken : before = sampleCalls.take before.length := by rw [split, List.take_left' rfl]
    have short : before.length < 7 := by
      have count := congrArg List.length split
      rw [List.length_append, sampleCalls] at count
      simp only [List.length_cons, List.length_nil] at count
      omega
    rw [taken]
    have ranges := sampleCalls_ranges before.length short
    rintro i _ a ⟨low, high⟩
    obtain ⟨address, length⟩ := ranges i
    refine ⟨by split at address <;> omega, ?_⟩
    rintro j _ ⟨low', high'⟩
    obtain ⟨address', length'⟩ := ranges j
    cases i <;> cases j <;> simp at address address' ⊢ <;> omega
  obtain ⟨_, _, detached⟩ := detach_undoes_attach true (fun i => ⟨rfl, rfl, rfl⟩) documented ok apart sampleCalls []
    (by simp)
  obtain ⟨free, same⟩ := detached (by decide)
  exact ⟨fun i => (free i).1, same⟩

end YbeProxy.Hooks
