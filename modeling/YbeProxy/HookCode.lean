import YbeProxy.Hooks
import Mathlib.Data.BitVec

/-!
# The code of a hook

What a processor finds where `AttachHook` wrote: the jumps it decodes there and where they go, modulo the size of an
address.
-/

namespace YbeProxy.HookCode
open YbeProxy.Memory YbeProxy.Hooks

variable (is32Bit : Bool)

def addressBits : ℕ := if is32Bit then 32 else 64

/-- Where a `call` or `jmp` with a 32-bit offset goes. -/
def destination (bytes : ℕ → UInt8) (address : ℕ) : BitVec (addressBits is32Bit) :=
  BitVec.ofNat _ (address + jumpLength) + (readOffset (read bytes (address + 1) 4)).signExtend _

/-- The five bytes are a `jmp` to the target. -/
def JumpsTo (bytes : ℕ → UInt8) (address target : ℕ) : Prop :=
  bytes address = 0xE9 ∧ destination is32Bit bytes address = BitVec.ofNat _ target

/-- A `rel32` of a 64-bit instruction is enough. -/
def InReach (nextInstruction destination : ℤ) : Prop :=
  -2 ^ 31 ≤ (BitVec.ofInt 64 (destination - nextInstruction)).toInt ∧
    (BitVec.ofInt 64 (destination - nextInstruction)).toInt < 2 ^ 31

/-- The destination of a call or jump before it is moved. -/
def farDestination (bytes : ℕ → UInt8) (address : ℕ) : ℤ :=
  (address + jumpLength : ℤ) + (readOffset (read bytes (address + 1) 4)).toInt

/-- The code of a hook with the bytes before and after. -/
structure Built (before after : ℕ → UInt8) (target trampoline proxyFunction : ℕ) (analysis : Analysis) : Prop where
  entry : JumpsTo is32Bit after target proxyFunction
  filled : ∀ i, jumpLength ≤ i → i < analysis.length → after (target + i) = 0x90
  copied : ∀ i < analysis.length, (∀ r, analysis.relocation = some r → ¬ Within (r + 1) 4 i) →
    after (trampoline + i) = before (target + i)
  relocated : ∀ r, analysis.relocation = some r →
    destination is32Bit after (trampoline + r) = destination is32Bit before (target + r)
  back : JumpsTo is32Bit after (trampoline + analysis.length) (target + analysis.length)
  reach : is32Bit = false →
    InReach (target + jumpLength) proxyFunction ∧
      InReach (trampoline + analysis.length + jumpLength) (target + analysis.length) ∧
      ∀ r, analysis.relocation = some r → InReach (trampoline + r + jumpLength) (farDestination before (target + r))

/-! ## Offsets -/

theorem readOffset_offsetBytes (offset : BitVec 32) : readOffset (offsetBytes offset) = offset := by
  apply BitVec.eq_of_toNat_eq
  have bound := offset.isLt
  simp only [readOffset, offsetBytes, List.range, List.range.loop, List.map_cons, List.map_nil, List.foldr_cons,
    List.foldr_nil, UInt8.toNat_ofNat', BitVec.toNat_ofNat, Nat.shiftRight_eq_div_pow]
  omega

theorem rel32_reach {nextInstruction target : ℤ} {offset : BitVec 32}
    (found : rel32 false nextInstruction target = some offset) :
    InReach nextInstruction target ∧ offset = BitVec.ofInt 32 (BitVec.ofInt 64 (target - nextInstruction)).toInt := by
  simp only [rel32, Bool.false_eq_true, if_false] at found
  split at found
  · cases found
  · rename_i inside
    cases found
    exact ⟨⟨by omega, by omega⟩, rfl⟩

theorem signExtend_of_reach {difference : BitVec 64} (low : -2 ^ 31 ≤ difference.toInt) (high : difference.toInt < 2 ^ 31) :
    (BitVec.ofInt 32 difference.toInt).signExtend 64 = difference := by
  apply BitVec.eq_of_toInt_eq
  rw [BitVec.toInt_signExtend_of_le (by decide), BitVec.toInt_ofInt]
  exact Int.bmod_eq_of_le (by omega) (by omega)

/-- The offset leads from the next instruction to its destination. -/
theorem rel32_spec {nextInstruction target : ℤ} {offset : BitVec 32}
    (found : rel32 is32Bit nextInstruction target = some offset) :
    BitVec.ofInt (addressBits is32Bit) nextInstruction + offset.signExtend _ = BitVec.ofInt _ target := by
  cases is32Bit with
  | true =>
    cases found
    change BitVec.ofInt 32 nextInstruction + (BitVec.ofInt 32 (target - nextInstruction)).signExtend 32 = BitVec.ofInt 32 target
    rw [BitVec.signExtend_eq, ← BitVec.ofInt_add, add_sub_cancel]
  | false =>
    obtain ⟨⟨low, high⟩, rfl⟩ := rel32_reach found
    change BitVec.ofInt 64 nextInstruction + BitVec.signExtend 64 _ = BitVec.ofInt 64 target
    rw [signExtend_of_reach low high, ← BitVec.ofInt_add, add_sub_cancel]

/-- A jump that was written with its offset. -/
theorem jumpsTo_of_read {bytes : ℕ → UInt8} {address target : ℕ} {offset : BitVec 32}
    (code : read bytes address jumpLength = 0xE9 :: offsetBytes offset)
    (found : rel32 is32Bit (address + jumpLength) target = some offset) : JumpsTo is32Bit bytes address target := by
  rw [jumpLength, read_succ] at code
  obtain ⟨opcode, operand⟩ := List.cons.inj code
  refine ⟨opcode, ?_⟩
  rw [destination, operand, readOffset_offsetBytes, ← BitVec.ofInt_natCast, ← BitVec.ofInt_natCast]
  exact rel32_spec is32Bit found

/-! ## What was written -/

theorem writeJump_entry (bytes : ℕ → UInt8) (target length : ℕ) (jumpToProxy : BitVec 32) :
    read (writeJump bytes target length jumpToProxy) target jumpLength = 0xE9 :: offsetBytes jumpToProxy := by
  have operand := read_write_self (write (write bytes target (List.replicate length 0x90)) target [0xE9]) (target + 1)
    (offsetBytes jumpToProxy)
  rw [length_offsetBytes] at operand
  rw [jumpLength, read_succ]
  refine congrArg₂ _ ?_ operand
  have before : ¬ Within (target + 1) (offsetBytes jumpToProxy).length target := by
    rintro ⟨late, _⟩
    omega
  rw [writeJump, write_outside _ _ _ before]
  exact write_inside _ target (by decide : 0 < [(0xE9 : UInt8)].length)

theorem writeJump_filled (bytes : ℕ → UInt8) (target length : ℕ) (jumpToProxy : BitVec 32) {i : ℕ} (behind : jumpLength ≤ i)
    (inside : i < length) : writeJump bytes target length jumpToProxy (target + i) = 0x90 := by
  have size : jumpLength = 5 := rfl
  have operand : ¬ Within (target + 1) (offsetBytes jumpToProxy).length (target + i) := by
    rw [length_offsetBytes]
    rintro ⟨_, early⟩
    omega
  have opcode : ¬ Within target [(0xE9 : UInt8)].length (target + i) := by
    rintro ⟨_, early⟩
    rw [List.length_singleton] at early
    omega
  rw [writeJump, write_outside _ _ _ operand, write_outside _ _ _ opcode,
    write_inside bytes target (by rwa [List.length_replicate]), List.getElem_replicate]

/-- The copy of the instructions, with the offset of the call or jump among them made anew. -/
theorem copyInstructions_ok {bytes : ℕ → UInt8} {target trampoline : ℕ} {analysis : Analysis} {jumpBack : BitVec 32}
    (ok : (copyInstructions is32Bit bytes target trampoline analysis).1 = some jumpBack) :
    let copy := write bytes trampoline (read bytes target analysis.length)
    rel32 is32Bit (trampoline + analysis.length + jumpLength) (target + analysis.length) = some jumpBack ∧
      (analysis.relocation = none ∧ (copyInstructions is32Bit bytes target trampoline analysis).2 = copy ∨
        ∃ r offset, analysis.relocation = some r ∧
          rel32 is32Bit (trampoline + r + jumpLength)
            ((target + r + jumpLength : ℤ) + (readOffset (read copy (target + r + 1) 4)).toInt) = some offset ∧
          (copyInstructions is32Bit bytes target trampoline analysis).2 =
            write copy (trampoline + r + 1) (offsetBytes offset)) := by
  intro copy
  unfold copyInstructions at ok ⊢
  cases back : rel32 is32Bit (trampoline + analysis.length + jumpLength) (target + analysis.length) with
  | none => simp [back] at ok
  | some found =>
    simp only [back] at ok ⊢
    unfold relocate at ok ⊢
    cases listed : analysis.relocation with
    | none =>
      simp only [listed, if_true] at ok ⊢
      exact ⟨ok, .inl ⟨trivial, rfl⟩⟩
    | some r =>
      simp only [listed] at ok ⊢
      cases moved : rel32 is32Bit (trampoline + r + jumpLength)
        ((target + r + jumpLength : ℤ) + (readOffset (read copy (target + r + 1) 4)).toInt) with
      | none => simp [copy, moved] at ok
      | some offset =>
        simp only [copy, moved, if_true] at ok ⊢
        exact ⟨ok, .inr ⟨r, offset, rfl, moved, rfl⟩⟩

/-- The steps of an `AttachHook` that succeeds. -/
theorem attachHook_ok {zydis : Zydis} {os : Os} {world : World} {hook : HookBase} {proxyFunction : ℕ}
    (ok : (attachHook zydis os is32Bit world hook proxyFunction).status = .ok) :
    ∃ analysis jumpToProxy jumpBack trampoline,
      analyze zydis world.bytes hook.originalFunctionAddr = .ok analysis ∧
      rel32 is32Bit (hook.originalFunctionAddr + jumpLength) proxyFunction = some jumpToProxy ∧
      trampoline = os.allocateMemory world.allocated (analysis.length + jumpLength) ∧ trampoline ≠ 0 ∧
      (attachHook zydis os is32Bit world hook proxyFunction).hook.trampoline = trampoline ∧
      let copied := copyInstructions is32Bit
        (write world.bytes trampoline (List.replicate (analysis.length + jumpLength) 0)) hook.originalFunctionAddr trampoline
        analysis
      copied.1 = some jumpBack ∧ (attachHook zydis os is32Bit world hook proxyFunction).world.bytes =
        writeJump (write copied.2 (trampoline + analysis.length) (0xE9 :: offsetBytes jumpBack)) hook.originalFunctionAddr
          analysis.length jumpToProxy := by
  simp only [attachHook] at ok ⊢
  by_cases null : hook.originalFunctionAddr = 0 ∨ proxyFunction = 0
  · rw [if_pos null] at ok
    cases ok
  by_cases attached : hook.trampoline ≠ 0
  · rw [if_neg null, if_pos attached] at ok
    cases ok
  rw [if_neg null, if_neg attached] at ok ⊢
  rcases analyze_cases zydis world.bytes hook.originalFunctionAddr with ⟨analysis, analyzed, _⟩ | ⟨status, analyzed, failed⟩
  · simp only [analyzed] at ok ⊢
    cases found : rel32 is32Bit (hook.originalFunctionAddr + jumpLength) proxyFunction with
    | none => simp [found] at ok
    | some jumpToProxy =>
      simp only [found] at ok ⊢
      rcases allocateMemory_cases os world (analysis.length + jumpLength) with none | ⟨trampoline, placed, nonnull, some⟩
      · rw [none, if_pos rfl] at ok
        cases ok
      · rw [some, if_neg nonnull] at ok ⊢
        simp only [fillTrampoline] at ok ⊢
        split at ok
        · cases ok
        · rename_i jumpBack copied
          split at ok
          · rename_i writable
            refine ⟨analysis, jumpToProxy, jumpBack, trampoline, rfl, rfl, placed, nonnull, ?_, copied, ?_⟩
            · simp only [writable, if_true]
            · simp only [writable, if_true]
          · cases ok
  · simp only [analyzed] at ok
    exact absurd ok failed

section Copied
variable {bytes : ℕ → UInt8} {target trampoline : ℕ} {analysis : Analysis} {jumpBack : BitVec 32}
  (ok : (copyInstructions is32Bit bytes target trampoline analysis).1 = some jumpBack)
include ok

theorem copyInstructions_copied {i : ℕ} (inside : i < analysis.length)
    (elsewhere : ∀ r, analysis.relocation = some r → ¬ Within (r + 1) 4 i) :
    (copyInstructions is32Bit bytes target trampoline analysis).2 (trampoline + i) = bytes (target + i) := by
  have copy := write_read_at bytes bytes trampoline target inside
  rcases (copyInstructions_ok is32Bit ok).2 with ⟨_, same⟩ | ⟨r, offset, listed, _, same⟩
  · rw [same]
    exact copy
  · rw [same, ← copy]
    refine write_outside _ _ _ fun within => elsewhere r listed ?_
    rw [length_offsetBytes] at within
    exact ⟨by have := within.1; omega, by have := within.2; omega⟩

/-- The call or jump that is moved gets the offset of its destination, which it has before from what is at the target. -/
theorem copyInstructions_relocated (fits : analysis.Fits)
    (apart : ∀ a, Within target analysis.length a → ¬ Within trampoline analysis.length a) {r : ℕ}
    (listed : analysis.relocation = some r) :
    ∃ offset, rel32 is32Bit (trampoline + r + jumpLength) (farDestination bytes (target + r)) = some offset ∧
      read (copyInstructions is32Bit bytes target trampoline analysis).2 (trampoline + r + 1) 4 = offsetBytes offset := by
  have size : jumpLength = 5 := rfl
  have room := fits.2.2 r listed
  rcases (copyInstructions_ok is32Bit ok).2 with ⟨none, _⟩ | ⟨r', offset, listed', found, same⟩
  · rw [listed] at none
    cases none
  · rw [listed] at listed'
    cases listed'
    have unmoved : read (write bytes trampoline (read bytes target analysis.length)) (target + r + 1) 4 =
        read bytes (target + r + 1) 4 := by
      refine read_congr ?_
      rintro a ⟨low, high⟩
      refine write_outside _ _ _ fun within => apart a ⟨by omega, by omega⟩ ?_
      rwa [length_read] at within
    have operand := read_write_self (write bytes trampoline (read bytes target analysis.length)) (trampoline + r + 1)
      (offsetBytes offset)
    rw [length_offsetBytes, ← same] at operand
    rw [unmoved] at found
    exact ⟨offset, found, operand⟩

end Copied

theorem analyze_fits {zydis : Zydis} {bytes : ℕ → UInt8} {target : ℕ} {analysis : Analysis}
    (analyzed : analyze zydis bytes target = .ok analysis) : analysis.Fits := by
  rcases analyze_cases zydis bytes target with ⟨other, same, fits⟩ | ⟨_, failed, _⟩
  · rw [analyzed] at same
    cases same
    exact fits
  · rw [analyzed] at failed
    cases failed

/-- Nothing is written outside of the target and the trampoline. -/
theorem attachHook_outside {zydis : Zydis} {os : Os} {world : World} {hook : HookBase} {proxyFunction : ℕ}
    (ok : (attachHook zydis os is32Bit world hook proxyFunction).status = .ok) :
    ∃ analysis trampoline, analyze zydis world.bytes hook.originalFunctionAddr = .ok analysis ∧
      trampoline = os.allocateMemory world.allocated (analysis.length + jumpLength) ∧ trampoline ≠ 0 ∧
      (attachHook zydis os is32Bit world hook proxyFunction).hook.trampoline = trampoline ∧
      ∀ a, ¬ Within hook.originalFunctionAddr analysis.length a →
        ¬ Within trampoline (analysis.length + jumpLength) a →
        (attachHook zydis os is32Bit world hook proxyFunction).world.bytes a = world.bytes a := by
  obtain ⟨analysis, jumpToProxy, jumpBack, trampoline, analyzed, _, placed, nonnull, kept, _, written⟩ :=
    attachHook_ok is32Bit ok
  have fits := analyze_fits analyzed
  refine ⟨analysis, trampoline, analyzed, placed, nonnull, kept, ?_⟩
  intro a target elsewhere
  have avoids : Avoids (· = a) trampoline (analysis.length + jumpLength) := by
    rintro _ inside rfl
    exact elsewhere inside
  have jump : ¬ Within (trampoline + analysis.length) (0xE9 :: offsetBytes jumpBack).length a := by
    rw [List.length_cons, length_offsetBytes]
    intro inside
    exact elsewhere ⟨by have := inside.1; omega, by have := inside.2; have : jumpLength = 5 := rfl; omega⟩
  rw [written, writeJump_outside _ _ fits.1 _ target, write_outside _ _ _ jump,
    copyInstructions_sameOn is32Bit _ hook.originalFunctionAddr fits avoids a rfl, write_outside]
  rwa [List.length_replicate]

theorem destination_eq (bytes : ℕ → UInt8) (address : ℕ) :
    destination is32Bit bytes address = BitVec.ofInt _ (farDestination bytes address) := by
  rw [destination, farDestination, BitVec.ofInt_add, ← BitVec.ofInt_natCast]
  rfl

variable {is32Bit}

/-- What is in use stays apart from the trampoline, and so does all that `AttachHook` writes over the target. -/
theorem attachHook_built {zydis : Zydis} {os : Os} {code : ℕ → Prop} (documented : os.Documented code) {world : World}
    {hook : HookBase} {proxyFunction : ℕ}
    (inUse : ∀ analysis, analyze zydis world.bytes hook.originalFunctionAddr = .ok analysis →
      ∀ a, Within hook.originalFunctionAddr analysis.length a → code a)
    (ok : (attachHook zydis os is32Bit world hook proxyFunction).status = .ok) :
    ∃ analysis, analyze zydis world.bytes hook.originalFunctionAddr = .ok analysis ∧
      Built is32Bit world.bytes (attachHook zydis os is32Bit world hook proxyFunction).world.bytes
        hook.originalFunctionAddr (attachHook zydis os is32Bit world hook proxyFunction).hook.trampoline proxyFunction
        analysis := by
  obtain ⟨analysis, jumpToProxy, jumpBack, trampoline, analyzed, toProxy, placed, nonnull, kept, copiedOk, written⟩ :=
    attachHook_ok is32Bit ok
  have fits := analyze_fits analyzed
  have size : jumpLength = 5 := rfl
  set target := hook.originalFunctionAddr
  set cleared := write world.bytes trampoline (List.replicate (analysis.length + jumpLength) 0)
  set copied := (copyInstructions is32Bit cleared target trampoline analysis).2
  set after := (attachHook zydis os is32Bit world hook proxyFunction).world.bytes
  have apart (a : ℕ) (overlaps : Within target analysis.length a) :
      ¬ Within trampoline (analysis.length + jumpLength) a := by
    intro inside
    refine documented.fresh world.allocated (analysis.length + jumpLength) ?_ a ?_ (inUse analysis analyzed a overlaps)
    · exact placed ▸ nonnull
    · exact placed ▸ inside
  have cleared_target (a : ℕ) (inside : Within target analysis.length a) : cleared a = world.bytes a :=
    write_outside _ _ _ (by rw [List.length_replicate]; exact apart a inside)
  have after_trampoline (a : ℕ) (inside : Within trampoline (analysis.length + jumpLength) a) :
      after a = write copied (trampoline + analysis.length) (0xE9 :: offsetBytes jumpBack) a := by
    rw [written, writeJump_outside _ _ fits.1 _ fun overlaps => apart a overlaps inside]
  have after_copied (a : ℕ) (inside : Within trampoline analysis.length a) : after a = copied a := by
    rw [after_trampoline a ⟨inside.1, by have := inside.2; omega⟩, write_outside]
    rintro ⟨late, _⟩
    exact absurd inside.2 (by omega)
  have moved (r : ℕ) (listed : analysis.relocation = some r) :
      ∃ offset, rel32 is32Bit (trampoline + r + jumpLength) (farDestination world.bytes (target + r)) = some offset ∧
        read after (trampoline + r + 1) 4 = offsetBytes offset := by
    have room := fits.2.2 r listed
    obtain ⟨offset, found, operand⟩ := copyInstructions_relocated is32Bit copiedOk fits
      (fun a overlaps inside => apart a overlaps ⟨inside.1, by have := inside.2; omega⟩) listed
    have unmoved : read cleared (target + r + 1) 4 = read world.bytes (target + r + 1) 4 := by
      refine read_congr ?_
      rintro a ⟨low, high⟩
      exact cleared_target a ⟨by omega, by omega⟩
    refine ⟨offset, ?_, ?_⟩
    · rw [farDestination, ← unmoved]
      exact found
    · rw [← operand]
      refine read_congr ?_
      rintro a ⟨low, high⟩
      exact after_copied a ⟨by omega, by omega⟩
  refine ⟨analysis, analyzed, ?_⟩
  rw [kept]
  refine ⟨?_, ?_, ?_, ?_, ?_, ?_⟩
  · refine jumpsTo_of_read is32Bit ?_ toProxy
    rw [written]
    exact writeJump_entry _ _ _ _
  · intro i behind inside
    rw [written]
    exact writeJump_filled _ _ _ _ behind inside
  · intro i inside elsewhere
    rw [after_copied _ ⟨by omega, by omega⟩, ← cleared_target _ ⟨by omega, by omega⟩]
    exact copyInstructions_copied is32Bit copiedOk inside elsewhere
  · intro r listed
    obtain ⟨offset, found, operand⟩ := moved r listed
    rw [destination, operand, readOffset_offsetBytes, destination_eq, ← BitVec.ofInt_natCast]
    exact rel32_spec is32Bit found
  · refine jumpsTo_of_read is32Bit ?_ (copyInstructions_ok is32Bit copiedOk).1
    have self := read_write_self copied (trampoline + analysis.length) (0xE9 :: offsetBytes jumpBack)
    rw [List.length_cons, length_offsetBytes] at self
    rw [← self]
    refine read_congr ?_
    rintro a ⟨low, high⟩
    exact after_trampoline a ⟨by omega, by omega⟩
  · rintro rfl
    refine ⟨(rel32_reach toProxy).1, (rel32_reach (copyInstructions_ok false copiedOk).1).1, ?_⟩
    intro r listed
    obtain ⟨offset, found, _⟩ := moved r listed
    exact (rel32_reach found).1

/-- A `sub esp, 16` and a `call` 16 bytes behind it from 1000 on. -/
def callBytes (a : ℕ) : UInt8 :=
  if a = 1000 then 0x83 else if a = 1001 then 0xEC else if a = 1003 then 0xE8 else if a = 1002 ∨ a = 1004 then 16 else 0

def callZydis : Zydis :=
  ⟨true, fun bytes => some (if bytes.headD 0 = 0xE8 then ⟨5, true, true, 0xE8, true, 32, false, by decide, by decide⟩
    else ⟨3, false, true, 0x83, false, 8, false, by decide, by decide⟩)⟩

theorem analyze_call : analyze callZydis callBytes 1000 = .ok ⟨8, some 3⟩ := by
  have subtract : callZydis.decode (read callBytes 1000 15) =
      some ⟨3, false, true, 0x83, false, 8, false, by decide, by decide⟩ := rfl
  have call : callZydis.decode (read callBytes 1003 15) =
      some ⟨5, true, true, 0xE8, true, 32, false, by decide, by decide⟩ := rfl
  have starts : callZydis.decoderInit = true := by decide
  rw [analyze, if_pos starts, analyzeFrom, dif_pos (by decide)]
  simp only [Nat.add_zero, subtract]
  rw [if_neg (by decide), if_neg (by decide), analyzeFrom, dif_pos (by decide)]
  simp only [call]
  rw [if_pos trivial, if_pos (by decide), analyzeFrom, dif_neg (by decide)]

theorem attachHook_built_call :
    Built true callBytes (attachHook callZydis openOs true ⟨callBytes, []⟩ sampleHook 2000).world.bytes 1000 5000 2000
      ⟨8, some 3⟩ := by
  have ok : (attachHook callZydis openOs true ⟨callBytes, []⟩ sampleHook 2000).status = .ok := by decide +kernel
  have placed : (attachHook callZydis openOs true ⟨callBytes, []⟩ sampleHook 2000).hook.trampoline = 5000 := by
    decide +kernel
  have inUse (analysis : Analysis) (analyzed : analyze callZydis callBytes 1000 = .ok analysis) (a : ℕ)
      (inside : Within 1000 analysis.length a) : a < 5000 := by
    rw [analyze_call] at analyzed
    cases analyzed
    exact lt_trans inside.2 (by decide)
  obtain ⟨analysis, analyzed, built⟩ := attachHook_built openOs_documented inUse ok
  rw [placed] at built
  cases analyze_call.symm.trans analyzed
  exact built

end YbeProxy.HookCode
