import Mathlib.Algebra.Order.BigOperators.Group.List
import Mathlib.Algebra.Order.Ring.Nat
import YbeProxy.HookCode
import YbeProxy.X86

/-!
# The stub of the packet filter

`SV_PacketEvent` jumps to 42 bytes that call the filter with a copy of its arguments, and then return or jump to the
trampoline. What these bytes do is told for every processor state that comes to them.
-/

namespace YbeProxy.FilterStub
open YbeProxy.Memory YbeProxy.Hooks YbeProxy.HookCode
open YbeProxy.X86 (State Address Instruction CodeAt Returns encode load store step run)

def filterStubLength : ℕ := 42

/-- The offset behind the instruction of a `call` or `jmp`. -/
def offset (nextInstruction destination : ℕ) : BitVec 32 := BitVec.ofInt 32 (destination - nextInstruction)

/-- What is written through `p`. -/
structure Writer where
  bytes : ℕ → UInt8
  p : ℕ

def Writer.emit (w : Writer) (data : List UInt8) : Writer := ⟨write w.bytes w.p data, w.p + data.length⟩

/-- The instructions of the stub, one after the other. -/
def writeStub (w : Writer) (filter : ℕ) : Writer :=
  let w := (List.range 6).foldl (fun w _ => w.emit [0xFF, 0x74, 0x24, 0x18]) w
  let w := w.emit [0xE8]
  let w := w.emit (offsetBytes (offset (w.p + 4) filter))
  let w := w.emit [0x83, 0xC4, 0x18]
  let w := w.emit [0x85, 0xC0]
  let w := w.emit [0x75, 0x01]
  let w := w.emit [0xC3]
  let w := w.emit [0xE9]
  w.emit (offsetBytes 0)

/-- The last `rel32` (`jmp` trampoline) is written once `Attach` has created the trampoline. -/
def makeFilterStub (os : Os) (world : World) (filter : ℕ) : ℕ × World :=
  let (stub, world) := allocateMemory os world filterStubLength
  if stub = 0 then (0, world) else (stub, { world with bytes := (writeStub ⟨world.bytes, stub⟩ filter).bytes })

structure Attachment where
  packetEventFilterStub : ℕ
  world : World
  hook : HookBase

/-- Where the hook cannot be installed, the server is stopped with the status. -/
def attachPacketEventFilter (zydis : Zydis) (os : Os) (world : World) (hook : HookBase) (filter : ℕ) :
    Except Status Attachment :=
  let (stub, world) := makeFilterStub os world filter
  if stub = 0 then .error .allocationFailed
  else
    let outcome := attachHook zydis os true world hook stub
    if outcome.status ≠ .ok then .error outcome.status
    else
      let jmpRel32 := stub + filterStubLength - 4
      .ok ⟨stub, { outcome.world with
        bytes := write outcome.world.bytes jmpRel32 (offsetBytes (offset (jmpRel32 + 4) outcome.hook.trampoline)) },
        outcome.hook⟩

/-! ## The code of the stub -/

/-- The instructions of the stub. -/
def stubCode (stub filter trampoline : ℕ) : List UInt8 :=
  (List.replicate 6 (encode (.push 0x18))).flatten ++
    (encode (.call (offset (stub + 29) filter)) ++
      (encode (.addEsp 0x18) ++ (encode .testEax ++ (encode (.jnz 1) ++ (encode .ret ++
        encode (.jmp (offset (stub + filterStubLength) trampoline)))))))

theorem length_stubCode (stub filter trampoline : ℕ) : (stubCode stub filter trampoline).length = filterStubLength := by
  simp [stubCode, encode, X86.length_wordBytes, filterStubLength]

theorem offset_reaches (nextInstruction destination : ℕ) :
    BitVec.ofNat 32 nextInstruction + offset nextInstruction destination = BitVec.ofNat 32 destination := by
  rw [offset, ← BitVec.ofInt_natCast, ← BitVec.ofInt_natCast, ← BitVec.ofInt_add, add_sub_cancel]

/-- Where the instructions lie. -/
theorem stubCode_parts {bytes : Address → UInt8} {a : Address} {stub filter trampoline : ℕ}
    (held : CodeAt bytes a (stubCode stub filter trampoline)) :
    CodeAt bytes a (List.replicate 6 (encode (.push 0x18))).flatten ∧
      CodeAt bytes (a + 24) (encode (.call (offset (stub + 29) filter))) ∧
      CodeAt bytes (a + 29) (encode (.addEsp 0x18)) ∧ CodeAt bytes (a + 32) (encode .testEax) ∧
      CodeAt bytes (a + 34) (encode (.jnz 1)) ∧ CodeAt bytes (a + 36) (encode .ret) ∧
      CodeAt bytes (a + 37) (encode (.jmp (offset (stub + filterStubLength) trampoline))) := by
  unfold stubCode at held
  simp only [X86.codeAt_append, add_assoc] at held
  exact held

/-! ## The copy of the arguments -/

/-- The state after some of the pushes: what they wrote is what lies 28 bytes above. -/
structure Pushed (s : State) (n : ℕ) (t : State) : Prop where
  eip : t.eip = s.eip + BitVec.ofNat 32 (4 * n)
  esp : t.esp = s.esp - BitVec.ofNat 32 (4 * n)
  registers : t.registers = s.registers
  bytes : ∀ a, t.bytes a = if X86.Within (s.esp - BitVec.ofNat 32 (4 * n)) (4 * n) a then s.bytes (a + 28) else s.bytes a

theorem pushed_next {s t : State} {n : ℕ} (few : n < 6) (pushed : Pushed s n t)
    (code : CodeAt t.bytes t.eip (encode (.push 0x18))) : ∃ next, step t = some next ∧ Pushed s (n + 1) next := by
  obtain ⟨eip, esp, registers, bytes⟩ := pushed
  have displacement : X86.extend 0x18 = 24 := by decide
  have four : BitVec.ofNat 32 (4 * (n + 1)) = BitVec.ofNat 32 (4 * n) + 4 := BitVec.ofNat_add _ _
  refine ⟨_, X86.step_of_codeAt code, ?_, ?_, registers, ?_⟩
  · rw [four, ← BitVec.add_assoc, ← eip]
    rfl
  · rw [four, ← sub_sub, ← esp]
    rfl
  · intro a
    change store t.bytes (t.esp - 4) (load t.bytes (t.esp + X86.extend 0x18)) a = _
    have source : t.esp + 24 + (a - (t.esp - 4)) = a + 28 := by
      rw [X86.sub_low, add_comm t.esp, add_assoc, ← add_assoc t.esp, add_sub_cancel, add_left_comm]
      rfl
    have next : t.esp - 4 = s.esp - BitVec.ofNat 32 (4 * (n + 1)) := by
      rw [four, ← sub_sub, ← esp]
    have limit := (a - s.esp).isLt
    have new : X86.Within (s.esp - BitVec.ofNat 32 (4 * (n + 1))) 4 a ↔
        2 ^ 32 ≤ (a - s.esp).toNat + 4 * (n + 1) ∧ (a - s.esp).toNat + 4 * n < 2 ^ 32 := by
      rw [X86.Within, X86.sub_low, BitVec.toNat_add, BitVec.toNat_ofNat]
      omega
    have above : (a + 28 - s.esp).toNat = ((a - s.esp).toNat + 28) % 2 ^ 32 := by
      rw [add_sub_right_comm, BitVec.toNat_add]
      rfl
    rw [X86.store_load, displacement, source, bytes, bytes, next]
    simp only [new, X86.within_below, above]
    by_cases last : 2 ^ 32 ≤ (a - s.esp).toNat + 4 * (n + 1) ∧ (a - s.esp).toNat + 4 * n < 2 ^ 32
    · -- The dword that is read lies above everything that was pushed.
      rw [if_pos last, if_neg (by omega), if_pos last.1]
    · rw [if_neg last]
      by_cases before : 2 ^ 32 ≤ (a - s.esp).toNat + 4 * n
      · rw [if_pos before, if_pos (by omega)]
      · rw [if_neg before, if_neg (by omega)]

/-- Code in which the stack does not lie is left alone. -/
theorem Pushed.code {s t : State} {n : ℕ} (pushed : Pushed s n t) (few : n ≤ 6) {code : List UInt8} {a : Address}
    (apart : ∀ i < code.length, ¬ X86.Within (s.esp - 28) 28 (a + BitVec.ofNat 32 i)) (held : CodeAt s.bytes a code) :
    CodeAt t.bytes a code := by
  refine X86.codeAt_congr ?_ held
  intro i inside
  have outside : ¬ 2 ^ 32 ≤ (a + BitVec.ofNat 32 i - s.esp).toNat + 28 := fun within =>
    apart i inside (X86.within_below.mpr within)
  rw [pushed.bytes, if_neg]
  rw [X86.within_below]
  omega

theorem codeAt_pushes {bytes : Address → UInt8} {a : Address} {total : ℕ}
    (held : CodeAt bytes a (List.replicate total (encode (.push 0x18))).flatten) {n : ℕ} (inside : n < total) :
    CodeAt bytes (a + BitVec.ofNat 32 (4 * n)) (encode (.push 0x18)) := by
  induction n generalizing a total with
  | zero =>
    obtain ⟨total, rfl⟩ := Nat.exists_eq_add_of_le' inside
    rw [List.replicate_succ, List.flatten_cons] at held
    have first := (X86.codeAt_append.mp held).1
    simpa using first
  | succ n hypothesis =>
    obtain ⟨total, rfl⟩ := Nat.exists_eq_add_of_le' (Nat.lt_of_le_of_lt (Nat.zero_le _) inside)
    rw [List.replicate_succ, List.flatten_cons] at held
    have later := hypothesis (X86.codeAt_append.mp held).2 (by omega)
    have address : a + BitVec.ofNat 32 (4 * (n + 1)) = a + BitVec.ofNat 32 4 + BitVec.ofNat 32 (4 * n) := by
      rw [add_assoc, ← BitVec.ofNat_add]
      congr 2
      omega
    rwa [address]

theorem run_pushes {s : State} (apart : ∀ i < 24, ¬ X86.Within (s.esp - 28) 28 (s.eip + BitVec.ofNat 32 i))
    (held : CodeAt s.bytes s.eip (List.replicate 6 (encode (.push 0x18))).flatten) {n : ℕ} (few : n ≤ 6) :
    ∃ t, run n s = some t ∧ Pushed s n t := by
  have apart' : ∀ i < (List.replicate 6 (encode (.push 0x18))).flatten.length,
      ¬ X86.Within (s.esp - 28) 28 (s.eip + BitVec.ofNat 32 i) := apart
  induction n with
  | zero =>
    refine ⟨s, rfl, by simp, by simp, rfl, ?_⟩
    intro a
    rw [if_neg (by unfold X86.Within; omega)]
  | succ n hypothesis =>
    obtain ⟨t, ran, pushed⟩ := hypothesis (by omega)
    have code := codeAt_pushes (pushed.code (by omega) apart' held) (by omega : n < 6)
    rw [← pushed.eip] at code
    obtain ⟨next, stepped, pushed'⟩ := pushed_next (by omega) pushed code
    exact ⟨next, X86.run_concat ran stepped, pushed'⟩

/-! ## The call and what follows it -/

/-- The state at the first instruction of the filter. -/
structure Called (stub filter : ℕ) (s called : State) : Prop where
  eip : called.eip = BitVec.ofNat 32 filter
  esp : called.esp = s.esp - 28
  returns : load called.bytes called.esp = BitVec.ofNat 32 (stub + 29)
  arguments : ∀ i < 24, called.bytes (called.esp + 4 + BitVec.ofNat 32 i) = s.bytes (s.esp + 4 + BitVec.ofNat 32 i)
  registers : called.registers = s.registers
  elsewhere : ∀ a, ¬ X86.Within (s.esp - 28) 28 a → called.bytes a = s.bytes a

theorem run_call {stub filter trampoline : ℕ} {s : State} (eip : s.eip = BitVec.ofNat 32 stub)
    (held : CodeAt s.bytes s.eip (stubCode stub filter trampoline))
    (apart : ∀ i < filterStubLength, ¬ X86.Within (s.esp - 28) 28 (s.eip + BitVec.ofNat 32 i)) :
    ∃ called, run 7 s = some called ∧ Called stub filter s called := by
  obtain ⟨t, ran, pushed⟩ := run_pushes (fun i inside => apart i (by unfold filterStubLength; omega))
    (stubCode_parts held).1 (le_refl 6)
  have code := (stubCode_parts (pushed.code (le_refl 6) (by rwa [length_stubCode]) held)).2.1
  have place : t.eip = s.eip + 24 := pushed.eip
  rw [← place] at code
  have next : t.eip + 5 = BitVec.ofNat 32 (stub + 29) := by
    rw [place, eip, BitVec.ofNat_add, add_assoc]
    rfl
  have top : t.esp - 4 = s.esp - 28 := by
    rw [pushed.esp, sub_sub]
    rfl
  have copied (a : Address) (outside : ¬ X86.Within (s.esp - 28) 4 a) :
      store t.bytes (t.esp - 4) (t.eip + 5) a = t.bytes a := by
    rw [top]
    exact X86.store_outside _ outside
  refine ⟨_, X86.run_concat ran (X86.step_of_codeAt code), ?_, top, ?_, ?_, pushed.registers, ?_⟩
  · change t.eip + 5 + offset (stub + 29) filter = _
    rw [next, offset_reaches]
  · change load (store t.bytes (t.esp - 4) (t.eip + 5)) (t.esp - 4) = _
    rw [X86.load_store, next]
  · intro i inside
    change store t.bytes (t.esp - 4) (t.eip + 5) (t.esp - 4 + 4 + BitVec.ofNat 32 i) = _
    have index : (BitVec.ofNat 32 i).toNat = i := by
      rw [BitVec.toNat_ofNat]
      omega
    have behind : ¬ X86.Within (s.esp - 28) 4 (s.esp - 28 + 4 + BitVec.ofNat 32 i) := by
      rw [X86.Within, add_assoc, add_sub_cancel_left, BitVec.toNat_add, index]
      change ¬ (4 + i) % 2 ^ 32 < 4
      omega
    have below : s.esp - 28 + 4 = s.esp - 24 := by
      rw [sub_add]
      rfl
    have within : X86.Within (s.esp - 24) 24 (s.esp - 24 + BitVec.ofNat 32 i) := by
      rw [X86.Within, add_sub_cancel_left, index]
      exact inside
    have source : s.esp - 24 + BitVec.ofNat 32 i + 28 = s.esp + 4 + BitVec.ofNat 32 i := by
      rw [add_right_comm, sub_add_eq_add_sub, add_sub_assoc]
      rfl
    rw [top] at copied ⊢
    rw [copied _ behind, below, pushed.bytes]
    exact (if_pos within).trans (congrArg s.bytes source)
  · intro a outside
    change store t.bytes (t.esp - 4) (t.eip + 5) a = _
    have lowest : ¬ X86.Within (s.esp - 28) 4 a := fun within => outside (lt_trans within (by decide))
    have other : ¬ X86.Within (s.esp - 24) 24 a := by
      intro within
      have far : 2 ^ 32 ≤ (a - s.esp).toNat + 24 := X86.within_below.mp within
      have farther : 2 ^ 32 ≤ (a - s.esp).toNat + 28 := by omega
      exact outside (X86.within_below.mpr farther)
    rw [copied a lowest, pushed.bytes]
    exact if_neg other

/-- From the return of the filter on, nothing but `esp` and `eip` changes. -/
theorem run_answer {stub filter trampoline : ℕ} {s : State} (eip : s.eip = BitVec.ofNat 32 (stub + 29))
    (held : CodeAt s.bytes (BitVec.ofNat 32 stub) (stubCode stub filter trampoline)) :
    ∃ final, run 4 s = some final ∧ final.registers = s.registers ∧ final.bytes = s.bytes ∧
      (s.registers .eax = 0 → final.eip = load s.bytes (s.esp + 24) ∧ final.esp = s.esp + 28) ∧
      (s.registers .eax ≠ 0 → final.eip = BitVec.ofNat 32 trampoline ∧ final.esp = s.esp + 24) := by
  obtain ⟨_, _, add, test, jnz, ret, jmp⟩ := stubCode_parts held
  have start : s.eip = BitVec.ofNat 32 stub + 29 := by
    rw [eip, BitVec.ofNat_add]
    rfl
  rw [← start] at add
  obtain ⟨added, ran₁, eip₁, esp₁, registers₁, bytes₁⟩ : ∃ t, run 1 s = some t ∧ t.eip = BitVec.ofNat 32 stub + 32 ∧
      t.esp = s.esp + 24 ∧ t.registers = s.registers ∧ t.bytes = s.bytes := by
    refine ⟨_, X86.run_concat (rfl : run 0 s = some s) (X86.step_of_codeAt add), ?_, rfl, rfl, rfl⟩
    change s.eip + 3 = _
    rw [start, add_assoc]
    rfl
  rw [← eip₁, ← bytes₁] at test
  obtain ⟨tested, ran₂, eip₂, esp₂, registers₂, bytes₂, zero⟩ : ∃ t, run 2 s = some t ∧
      t.eip = BitVec.ofNat 32 stub + 34 ∧ t.esp = s.esp + 24 ∧ t.registers = s.registers ∧ t.bytes = s.bytes ∧
      t.zeroFlag = decide (s.registers .eax = 0) := by
    refine ⟨_, X86.run_concat ran₁ (X86.step_of_codeAt test), ?_, esp₁, registers₁, bytes₁, ?_⟩
    · change added.eip + 2 = _
      rw [eip₁, add_assoc]
      rfl
    · change decide (added.registers .eax = 0) = _
      rw [registers₁]
  rw [← eip₂, ← bytes₂] at jnz
  obtain ⟨branched, ran₃, eip₃, esp₃, registers₃, bytes₃⟩ : ∃ t, run 3 s = some t ∧
      t.eip = BitVec.ofNat 32 stub + (if s.registers .eax = 0 then 36 else 37) ∧ t.esp = s.esp + 24 ∧
      t.registers = s.registers ∧ t.bytes = s.bytes := by
    refine ⟨_, X86.run_concat ran₂ (X86.step_of_codeAt jnz), ?_, esp₂, registers₂, bytes₂⟩
    change (if tested.zeroFlag then tested.eip + 2 else tested.eip + 2 + X86.extend 1) = _
    have short : X86.extend 1 = 1 := by decide
    simp only [zero, eip₂, short, decide_eq_true_eq, add_assoc]
    split <;> rfl
  by_cases dropped : s.registers .eax = 0
  · rw [if_pos dropped] at eip₃
    rw [← eip₃, ← bytes₃] at ret
    refine ⟨_, X86.run_concat ran₃ (X86.step_of_codeAt ret), registers₃, bytes₃, ?_, fun kept => absurd dropped kept⟩
    intro _
    refine ⟨?_, ?_⟩
    · change load branched.bytes branched.esp = _
      rw [bytes₃, esp₃]
    · change branched.esp + 4 = _
      rw [esp₃, add_assoc]
      rfl
  · rw [if_neg dropped] at eip₃
    rw [← eip₃, ← bytes₃] at jmp
    refine ⟨_, X86.run_concat ran₃ (X86.step_of_codeAt jmp), registers₃, bytes₃, fun none => absurd none dropped, ?_⟩
    intro _
    refine ⟨?_, esp₃⟩
    have next : branched.eip + 5 = BitVec.ofNat 32 (stub + filterStubLength) := by
      rw [eip₃, BitVec.ofNat_add, add_assoc]
      rfl
    change branched.eip + 5 + offset (stub + filterStubLength) trampoline = _
    rw [next, offset_reaches]

/-! ## The bytes that are written -/

/-- The stub up to the offset of its last instruction. -/
def stubFront (stub filter : ℕ) : List UInt8 :=
  (List.replicate 6 (encode (.push 0x18))).flatten ++
    (encode (.call (offset (stub + 29) filter)) ++
      (encode (.addEsp 0x18) ++ (encode .testEax ++ (encode (.jnz 1) ++ (encode .ret ++ [0xE9])))))

theorem length_stubFront (stub filter : ℕ) : (stubFront stub filter).length = 38 := by
  simp [stubFront, encode, X86.length_wordBytes]

theorem stubFront_append (stub filter trampoline : ℕ) :
    stubFront stub filter ++ offsetBytes (offset (stub + filterStubLength) trampoline) = stubCode stub filter trampoline := by
  simp only [stubFront, List.append_assoc]
  rfl

theorem emit_emit (w : Writer) (data more : List UInt8) : (w.emit data).emit more = w.emit (data ++ more) := by
  rw [Writer.emit, Writer.emit, Writer.emit, write_append, List.length_append, Nat.add_assoc]

/-- What is relied on of the operating system: memory that it hands out is neither code nor handed out already. -/
structure Separates (os : Os) (code : ℕ → Prop) : Prop where
  fresh : ∀ allocated size, os.allocateMemory allocated size ≠ 0 →
    Avoids (fun a => code a ∨ ∃ block ∈ allocated, Within block.1 block.2 a) (os.allocateMemory allocated size) size

theorem writeStub_front (bytes : ℕ → UInt8) (stub filter : ℕ) :
    read (writeStub ⟨bytes, stub⟩ filter).bytes stub 38 = stubFront stub filter := by
  have place : (((List.range 6).foldl (fun w _ => w.emit [0xFF, 0x74, 0x24, 0x18]) (Writer.mk bytes stub)).emit [0xE8]).p =
      stub + 25 := rfl
  have once : writeStub ⟨bytes, stub⟩ filter = (Writer.mk bytes stub).emit (stubFront stub filter ++ offsetBytes 0) := by
    simp only [writeStub, place]
    simp only [List.range, List.range.loop, List.foldl_cons, List.foldl_nil, emit_emit]
    congr 1
  have self := read_write_self bytes stub (stubFront stub filter ++ offsetBytes 0)
  rw [List.length_append, length_stubFront, length_offsetBytes, read_append] at self
  rw [once]
  exact (List.append_inj self (by rw [length_read, length_stubFront])).1

theorem makeFilterStub_cases (os : Os) (world : World) (filter : ℕ) :
    (makeFilterStub os world filter).1 = 0 ∨
      ∃ stub made, stub = os.allocateMemory world.allocated filterStubLength ∧ stub ≠ 0 ∧
        makeFilterStub os world filter = (stub, made) ∧ made.allocated = (stub, filterStubLength) :: world.allocated ∧
        read made.bytes stub 38 = stubFront stub filter := by
  rcases allocateMemory_cases os world filterStubLength with none | ⟨stub, placed, nonnull, some⟩
  · left
    rw [makeFilterStub, none]
    rfl
  · right
    refine ⟨stub, ⟨(writeStub ⟨write world.bytes stub (List.replicate filterStubLength 0), stub⟩ filter).bytes,
      (stub, filterStubLength) :: world.allocated⟩, placed, nonnull, ?_, rfl, writeStub_front _ _ _⟩
    rw [makeFilterStub, some]
    exact if_neg nonnull

/-- The 42 bytes of the stub of a filter that was attached. -/
theorem attachPacketEventFilter_code {zydis : Zydis} {os : Os} {code : ℕ → Prop} (separates : Separates os code)
    {world : World} {hook : HookBase} {filter : ℕ}
    (inUse : ∀ analysis, analyze zydis (makeFilterStub os world filter).2.bytes hook.originalFunctionAddr = .ok analysis →
      ∀ a, Within hook.originalFunctionAddr analysis.length a → code a)
    {attachment : Attachment} (attached : attachPacketEventFilter zydis os world hook filter = .ok attachment) :
    read attachment.world.bytes attachment.packetEventFilterStub filterStubLength =
      stubCode attachment.packetEventFilterStub filter attachment.hook.trampoline := by
  unfold attachPacketEventFilter at attached
  rcases makeFilterStub_cases os world filter with none | ⟨stub, made, placed, nonnull, equal, listed, front⟩
  · simp [none] at attached
  rw [equal] at inUse
  simp only [equal, if_neg nonnull] at attached
  split at attached
  · cases attached
  rename_i ok
  cases attached
  obtain ⟨analysis, trampoline, analyzed, placed', nonnull', kept, outside⟩ := attachHook_outside true (not_not.mp ok)
  -- The stub is neither code nor memory of the trampoline.
  have code_apart (a : ℕ) (inside : Within stub filterStubLength a) : ¬ code a := by
    intro used
    refine separates.fresh world.allocated filterStubLength (placed ▸ nonnull) a ?_ (.inl used)
    rwa [← placed]
  have trampoline_apart (a : ℕ) (inside : Within stub filterStubLength a) :
      ¬ Within trampoline (analysis.length + jumpLength) a := by
    intro overlaps
    refine separates.fresh made.allocated (analysis.length + jumpLength) (placed' ▸ nonnull') a ?_ (.inr ?_)
    · rwa [← placed']
    · rw [listed]
      exact ⟨_, List.mem_cons_self, inside⟩
  have unchanged (a : ℕ) (inside : Within stub filterStubLength a) :
      (attachHook zydis os true made hook stub).world.bytes a = made.bytes a :=
    outside a (fun target => code_apart a inside (inUse analysis analyzed a target)) (trampoline_apart a inside)
  simp only [kept]
  rw [show filterStubLength = 38 + 4 from rfl, read_append, ← stubFront_append]
  refine congrArg₂ _ ?_ ?_
  · rw [← front, read_write_of_disjoint]
    · refine read_congr ?_
      rintro a ⟨low, high⟩
      exact unchanged a ⟨low, by unfold filterStubLength; omega⟩
    · rintro a ⟨low, high⟩ ⟨late, _⟩
      omega
  · have self := read_write_self (attachHook zydis os true made hook stub).world.bytes (stub + 38)
      (offsetBytes (offset (stub + filterStubLength) trampoline))
    rw [length_offsetBytes] at self
    exact self

/-! ## The stub as a whole -/

/-- The stub calls the filter with a copy of its arguments and afterwards returns or goes on in the trampoline, whatever a
`cdecl` filter does with its copy. -/
theorem filterStub_correct {zydis : Zydis} {os : Os} {code : ℕ → Prop} (separates : Separates os code) {world : World}
    {hook : HookBase} {filter : ℕ}
    (inUse : ∀ analysis, analyze zydis (makeFilterStub os world filter).2.bytes hook.originalFunctionAddr = .ok analysis →
      ∀ a, Within hook.originalFunctionAddr analysis.length a → code a)
    {attachment : Attachment} (attached : attachPacketEventFilter zydis os world hook filter = .ok attachment) {s : State}
    (eip : s.eip = BitVec.ofNat 32 attachment.packetEventFilterStub)
    (held : ∀ i < filterStubLength, s.bytes (s.eip + BitVec.ofNat 32 i) =
      attachment.world.bytes (attachment.packetEventFilterStub + i))
    (apart : ∀ i < filterStubLength, ¬ X86.Within (s.esp - 28) 28 (s.eip + BitVec.ofNat 32 i)) :
    ∃ called, run 7 s = some called ∧ Called attachment.packetEventFilterStub filter s called ∧
      ∀ kept returned, (∀ a, X86.Within s.esp 28 a → kept a) →
        (∀ i < filterStubLength, kept (s.eip + BitVec.ofNat 32 i)) → Returns kept called returned →
        ∃ final, run 4 returned = some final ∧ (∀ a, X86.Within s.esp 28 a → final.bytes a = s.bytes a) ∧
          (∀ register, register.calleeSaved = true → final.registers register = s.registers register) ∧
          (returned.registers .eax = 0 → final.eip = load s.bytes s.esp ∧ final.esp = s.esp + 4) ∧
          (returned.registers .eax ≠ 0 → final.eip = BitVec.ofNat 32 attachment.hook.trampoline ∧ final.esp = s.esp) := by
  have written := attachPacketEventFilter_code separates inUse attached
  set stub := attachment.packetEventFilterStub
  have code : CodeAt s.bytes s.eip (stubCode stub filter attachment.hook.trampoline) := by
    intro i inside
    have short : i < filterStubLength := by rwa [length_stubCode] at inside
    rw [held i short]
    simp only [← written, getElem_read]
  obtain ⟨called, ran, calls⟩ := run_call eip code apart
  refine ⟨called, ran, calls, ?_⟩
  intro kept returned frame stubKept returns
  have own (a : Address) (inside : X86.Within s.esp 28 a) : returned.bytes a = s.bytes a := by
    have outside : ¬ X86.Within (s.esp - 28) 28 a := by
      intro below
      have far : 2 ^ 32 ≤ (a - s.esp).toNat + 28 := X86.within_below.mp below
      unfold X86.Within at inside
      omega
    rw [returns.bytes a (frame a inside), calls.elsewhere a outside]
  have stays : CodeAt returned.bytes (BitVec.ofNat 32 stub) (stubCode stub filter attachment.hook.trampoline) := by
    rw [← eip]
    refine X86.codeAt_congr ?_ code
    intro i inside
    have short : i < filterStubLength := by rwa [length_stubCode] at inside
    rw [returns.bytes _ (stubKept i short), calls.elsewhere _ (apart i short)]
  have back : returned.eip = BitVec.ofNat 32 (stub + 29) := by rw [returns.eip, calls.returns]
  have esp : returned.esp = s.esp - 24 := by
    rw [returns.esp, calls.esp, sub_add]
    rfl
  obtain ⟨final, ran', registers, bytes, dropped, passed⟩ := run_answer back stays
  have restored : returned.esp + 24 = s.esp := by rw [esp, sub_add_cancel]
  refine ⟨final, ran', ?_, ?_, ?_, ?_⟩
  · intro a inside
    rw [bytes, own a inside]
  · intro register saved
    rw [registers, returns.saved register saved, calls.registers]
  · intro zero
    obtain ⟨target, top⟩ := dropped zero
    refine ⟨?_, ?_⟩
    · rw [target, restored]
      refine X86.load_congr ?_
      intro a inside
      exact own a (lt_trans inside (by decide))
    · rw [top, esp, sub_add_eq_add_sub, add_sub_assoc]
      rfl
  · intro nonzero
    obtain ⟨target, top⟩ := passed nonzero
    exact ⟨target, by rw [top, restored]⟩

/-- Memory is handed out behind all that was handed out before. -/
def bumpOs : Os := { openOs with
  allocateMemory := fun allocated _ => 5000 + (allocated.map fun block => block.1 + block.2).sum }

theorem bumpOs_separates : Separates bumpOs (· < 5000) := by
  constructor
  rintro allocated size _ a ⟨low, _⟩ (code | ⟨block, member, _, high⟩)
  · exact absurd ((Nat.le_add_right 5000 _).trans low) (Nat.not_le.mpr code)
  · have behind : block.1 + block.2 ≤ (allocated.map fun block => block.1 + block.2).sum :=
      List.le_sum_of_mem (List.mem_map_of_mem member)
    have top : 5000 + (allocated.map fun block => block.1 + block.2).sum ≤ a := low
    omega

theorem attachPacketEventFilter_sample :
    (attachPacketEventFilter nopZydis bumpOs ⟨fun _ => 0x90, []⟩ sampleHook 3000).toOption.map
      (fun attachment => (attachment.packetEventFilterStub, attachment.hook.trampoline)) = some (5000, 10042) := by
  decide +kernel

/-- A filter that returns 0. -/
theorem filterStub_correct_drop :
    ∃ attachment, attachPacketEventFilter nopZydis bumpOs ⟨fun _ => 0x90, []⟩ sampleHook 3000 = .ok attachment ∧
      let s : State := ⟨5000, 0x100000, fun _ => 0, false, fun a => attachment.world.bytes a.toNat⟩
      ∃ called final, run 7 s = some called ∧ called.eip = 3000 ∧
        run 4 { called with eip := load called.bytes called.esp, esp := called.esp + 4 } = some final ∧
        final.eip = load s.bytes s.esp ∧ final.esp = s.esp + 4 := by
  have sample := attachPacketEventFilter_sample
  cases attached : attachPacketEventFilter nopZydis bumpOs ⟨fun _ => 0x90, []⟩ sampleHook 3000 with
  | error status =>
    rw [attached] at sample
    cases sample
  | ok attachment =>
    rw [attached] at sample
    have stub : attachment.packetEventFilterStub = 5000 := congrArg Prod.fst (Option.some.inj sample)
    have inUse (analysis : Analysis)
        (analyzed : analyze nopZydis (makeFilterStub bumpOs ⟨fun _ => 0x90, []⟩ 3000).2.bytes
          sampleHook.originalFunctionAddr = .ok analysis) (a : ℕ)
        (inside : Within sampleHook.originalFunctionAddr analysis.length a) : a < 5000 := by
      have longest : analysis.length ≤ 19 := (analyze_fits analyzed).2.1
      have high : a < 1000 + analysis.length := inside.2
      omega
    refine ⟨attachment, rfl, ?_⟩
    intro s
    have eip : s.eip = BitVec.ofNat 32 attachment.packetEventFilterStub := by
      rw [stub]
      rfl
    have held (i : ℕ) (inside : i < filterStubLength) :
        s.bytes (s.eip + BitVec.ofNat 32 i) = attachment.world.bytes (attachment.packetEventFilterStub + i) := by
      rw [stub]
      have place : (5000 + BitVec.ofNat 32 i : BitVec 32).toNat = 5000 + i := by
        unfold filterStubLength at inside
        rw [BitVec.toNat_add, BitVec.toNat_ofNat]
        change (5000 + i % 2 ^ 32) % 2 ^ 32 = _
        omega
      exact congrArg attachment.world.bytes place
    have apart : ∀ i < filterStubLength, ¬ X86.Within (s.esp - 28) 28 (s.eip + BitVec.ofNat 32 i) := by
      change ∀ i < 42, ¬ X86.Within (0x100000 - 28) 28 (5000 + BitVec.ofNat 32 i)
      decide
    obtain ⟨called, ran, calls, answers⟩ := filterStub_correct bumpOs_separates inUse attached eip held apart
    have returns : Returns (fun _ => True) called
        { called with eip := load called.bytes called.esp, esp := called.esp + 4 } :=
      ⟨rfl, rfl, fun _ _ => rfl, fun _ _ => rfl⟩
    obtain ⟨final, ran', _, _, dropped, _⟩ := answers _ _ (fun _ _ => trivial) (fun _ _ => trivial) returns
    have zero : called.registers .eax = 0 := by rw [calls.registers]
    exact ⟨called, final, ran, calls.eip, ran', dropped zero⟩

end YbeProxy.FilterStub
