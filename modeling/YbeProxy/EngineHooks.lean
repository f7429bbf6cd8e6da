import YbeProxy.FilterStub

/-!
# The hooks of the engine

`Engine/Patches.cpp` with the addresses of `Engine/Addresses.hpp`. A map change unloads the proxy and loads it again: each
life of the module patches the engine for good, hooks its functions, and undoes the hooks when the game shuts down. The
hooks and the stub are variables of the module, fresh each time; the code of the engine stays.
-/

namespace YbeProxy.EngineHooks
open YbeProxy.Memory YbeProxy.Hooks YbeProxy.FilterStub

/-! ## The engine -/

inductive Platform
  | windows | linux
  deriving DecidableEq

inductive HookName
  | comPrintf | msgReadBits | cmdTokenizeString | comWriteConfigF | infoPrint | svSendMessageToClient | svCalcPings
  | svSvEntityForGentity | svDirectConnect | svSendClientGameState | svExecuteClientMessage | svUserinfoChanged
  | svDumpUserF | svStatusF | svBeginDownloadF | svDoneDownloadF | svExecuteClientCommand | svWriteDownloadToClient
  | svPacketEvent
  deriving DecidableEq

def Platform.choose {α : Type} (platform : Platform) (windows linux : α) : α :=
  match platform with
  | .windows => windows
  | .linux => linux

def address (platform : Platform) : HookName → Nat
  | .comPrintf => platform.choose 0x40fbe0 0x8072ca4
  | .msgReadBits => platform.choose 0x4186d0 0x8077834
  | .cmdTokenizeString => platform.choose 0x40f580 0x812c454
  | .comWriteConfigF => platform.choose 0x410680 0x8074d64
  | .infoPrint => platform.choose 0x410ce0 0x8073504
  | .svSendMessageToClient => platform.choose 0x444dc0 0x8058c84
  | .svCalcPings => platform.choose 0x444220 0x8057204
  | .svSvEntityForGentity => platform.choose 0x43cd80 0x804ffb4
  | .svDirectConnect => platform.choose 0x43c4e0 0x804c014
  | .svSendClientGameState => platform.choose 0x43ae70 0x804cee4
  | .svExecuteClientMessage => platform.choose 0x43c3a0 0x804e8c4
  | .svUserinfoChanged => platform.choose 0x43b8c0 0x804e144
  | .svDumpUserF => platform.choose 0x43a8c0 0x804fd74
  | .svStatusF => platform.choose 0x43a4a0 0x804f7f4
  | .svBeginDownloadF => platform.choose 0x43b3c0 0x804d714
  | .svDoneDownloadF => platform.choose 0x43b390 0x804eaa4
  | .svExecuteClientCommand => platform.choose 0x43bad0 0x804e3d4
  | .svWriteDownloadToClient => platform.choose 0x43b3f0 0x804d764
  | .svPacketEvent => platform.choose 0x4440e0 0x8057024

def hookEntries : List HookName :=
  [.comPrintf, .msgReadBits, .cmdTokenizeString, .comWriteConfigF, .infoPrint, .svSendMessageToClient, .svCalcPings,
    .svSvEntityForGentity, .svDirectConnect, .svSendClientGameState, .svExecuteClientMessage, .svUserinfoChanged,
    .svDumpUserF, .svStatusF, .svBeginDownloadF, .svDoneDownloadF, .svExecuteClientCommand, .svWriteDownloadToClient]

/-! ## Patches that stay -/

def setActiveAddr (platform : Platform) : Nat := platform.choose 0x439f1f 0x804f23f
def setActiveBytes (platform : Platform) : List UInt8 :=
  platform.choose [0x83, 0x3E, 0x04, 0x75, 0x06, 0x90] [0x83, 0x3C, 0x0E, 0x04, 0x75, 0x13, 0x90]

/-- Where bytes are written, in order: the timer of `rcon` as NOPs, the size of its buffer, a `jb` in both
`Info_SetValueForKey`, and the state test of `map_restart`, byte by byte. -/
def inlineWrites (platform : Platform) : List (Nat × List UInt8) :=
  [(platform.choose 0x443ced 0x8056b26, List.replicate 25 0x90), (platform.choose 0x443de8 0x8056c7d, [0x03]),
    (platform.choose 0x41beb2 0x807fe24, [0x72]), (platform.choose 0x41c091 0x8080024, [0x72])] ++
    (setActiveBytes platform).mapIdx fun i byte => (setActiveAddr platform + i, [byte])

/-- `Patch` and `Patch_NOP_Bytes`. -/
def patch (os : Os) (world : World) (bytes : Nat × List UInt8) : Option World :=
  if os.isWritable bytes.1 bytes.2.length then some { world with bytes := write world.bytes bytes.1 bytes.2 } else none

/-- None where the server stops. -/
def inlinePatches (os : Os) (platform : Platform) (world : World) : Option World :=
  (inlineWrites platform).foldlM (patch os) world

/-! ## One life of the module -/

/-- A loaded module: the decoder, the operating system, the addresses of its functions, and what the engine makes of the
memory until the module is unloaded. -/
structure Life where
  zydis : Zydis
  os : Os
  proxyFunctions : HookName → Nat
  filter : Nat
  engine : (Nat → UInt8) → Nat → UInt8

def loaded (platform : Platform) (world : World) : Hooked HookName :=
  ⟨world, fun name => ⟨address platform name, List.replicate maxSavedLength 0, 0, 0⟩⟩

structure Patches extends Hooked HookName where
  packetEventFilterStub : Nat

def attachOne (life : Life) (state : Hooked HookName) (name : HookName) : Option (Hooked HookName) :=
  let attached := step true state (.attach name life.zydis life.os (life.proxyFunctions name))
  if attached.1 = .ok then some attached.2 else none

def attach (life : Life) (state : Hooked HookName) : Option Patches :=
  (hookEntries.foldlM (attachOne life) state).bind fun state =>
    match attachPacketEventFilter life.zydis life.os state.world (state.hooks .svPacketEvent) life.filter with
    | .error _ => none
    | .ok attachment =>
      some ⟨⟨attachment.world, Function.update state.hooks .svPacketEvent attachment.hook⟩,
        attachment.packetEventFilterStub⟩

/-- With the hooks that could not be undone, which are printed. -/
def detachOne (os : Os) (state : List (HookName × Status) × Hooked HookName) (name : HookName) :
    List (HookName × Status) × Hooked HookName :=
  let detached := step true state.2 (.detach name os)
  (if detached.1 = .ok then state.1 else state.1 ++ [(name, detached.1)], detached.2)

def detach (os : Os) (patches : Patches) : List (HookName × Status) × World :=
  let done := hookEntries.foldl (detachOne os) ([], patches.toHooked)
  if patches.packetEventFilterStub = 0 then (done.1, done.2.world)
  else
    let done := detachOne os done .svPacketEvent
    (done.1, (releaseMemory os done.2.world patches.packetEventFilterStub filterStubLength).2)

/-- `Init` up to the game. -/
def start (life : Life) (platform : Platform) (world : World) : Option Patches :=
  (inlinePatches life.os platform world).bind fun world => attach life (loaded platform world)

def Life.runs (life : Life) (patches : Patches) : Patches :=
  { patches with world := { patches.world with bytes := life.engine patches.world.bytes } }

/-- Some lives one after the other; none where one stops the server or leaves a hook behind. -/
def lives (platform : Platform) (world : World) : List Life → Option World
  | [] => some world
  | life :: rest =>
    match start life platform world with
    | none => none
    | some patches =>
      let done := detach life.os (life.runs patches)
      if done.1 = [] then lives platform done.2 rest else none

/-! ## Patching -/

theorem foldlM_patch {os : Os} {writes : List (Nat × List UInt8)} {world patched : World}
    (done : writes.foldlM (patch os) world = some patched) :
    patched = { world with bytes := writeAll world.bytes writes } := by
  induction writes generalizing world with
  | nil =>
    cases done
    rfl
  | cons entry writes hypothesis =>
    rw [List.foldlM_cons, patch] at done
    split at done
    · exact hypothesis done
    · cases done

/-! ## The hooks of a life -/

/-- The memory of the trampoline of a hook. -/
def block (hook : HookBase) : Nat × Nat := (hook.trampoline, hook.savedOpcodeLength + jumpLength)

theorem attachHook_block {zydis : Zydis} {os : Os} {is32Bit : Bool} {world : World} {hook : HookBase} {proxyFunction : Nat}
    (ok : (attachHook zydis os is32Bit world hook proxyFunction).status = .ok) :
    (attachHook zydis os is32Bit world hook proxyFunction).world.allocated =
      block (attachHook zydis os is32Bit world hook proxyFunction).hook :: world.allocated := by
  simp only [attachHook] at ok ⊢
  by_cases null : hook.originalFunctionAddr = 0 ∨ proxyFunction = 0
  · rw [if_pos null] at ok
    cases ok
  by_cases attached : hook.trampoline ≠ 0
  · rw [if_neg null, if_pos attached] at ok
    cases ok
  rw [if_neg null, if_neg attached] at ok ⊢
  rcases analyze_cases zydis world.bytes hook.originalFunctionAddr with ⟨analysis, analyzed, _⟩ | ⟨status, analyzed, failed⟩
  · simp only [analyzed] at ok ⊢
    cases found : rel32 is32Bit (hook.originalFunctionAddr + jumpLength) proxyFunction with
    | none => simp [found] at ok
    | some jumpToProxy =>
      simp only [found] at ok ⊢
      rcases allocateMemory_cases os world (analysis.length + jumpLength) with none | ⟨trampoline, placed, nonnull, some⟩
      · rw [none, if_pos rfl] at ok
        cases ok
      · rw [some, if_neg nonnull] at ok ⊢
        simp only [fillTrampoline] at ok ⊢
        split at ok
        · cases ok
        · split at ok
          · rename_i writable
            simp only [writable, if_true, block]
          · cases ok
  · simp only [analyzed] at ok
    exact absurd ok failed

theorem detachHook_block {os : Os} {world : World} {hook : HookBase} (ok : (detachHook os world hook).status = .ok)
    (attached : hook.trampoline ≠ 0) :
    (detachHook os world hook).world.allocated = world.allocated.erase (block hook) := by
  simp only [detachHook, if_neg attached] at ok ⊢
  split at ok
  · rename_i writable
    rw [if_pos writable]
    simp only [releaseMemory] at ok ⊢
    split at ok
    · rename_i released
      rw [if_pos released]
      rfl
    · cases ok
  · cases ok

/-- No two hooks are closer than what a hook can overwrite. -/
theorem address_apart : ∀ platform : Platform, ∀ first ∈ hookEntries ++ [.svPacketEvent],
    ∀ second ∈ hookEntries ++ [.svPacketEvent], first ≠ second →
      address platform first + maxSavedLength ≤ address platform second ∨
        address platform second + maxSavedLength ≤ address platform first := by
  intro platform
  cases platform <;> decide +kernel

theorem mem_names (name : HookName) : name ∈ hookEntries ++ [.svPacketEvent] := by
  cases name <;> decide

/-- The code of the engine that a hook can overwrite is in use. -/
def Covers (platform : Platform) (code : Nat → Prop) : Prop :=
  ∀ name a, Within (address platform name) maxSavedLength a → code a

def Life.Documented (code : Nat → Prop) (life : Life) : Prop :=
  life.os.Documented code ∧ ∀ bytes, SameOn code bytes (life.engine bytes)

/-- The hooks are on their functions, and the code can be restored. -/
structure Sound (platform : Platform) (original : Nat → UInt8) (code : Nat → Prop) (state : Hooked HookName) : Prop where
  placed : ∀ name, (state.hooks name).originalFunctionAddr = address platform name
  restorable : Restorable original code state

section
variable {platform : Platform} {original : Nat → UInt8} {code : Nat → Prop} (covers : Covers platform code)

include covers in
theorem apart_of_placed {state : Hooked HookName}
    (placed : ∀ name, (state.hooks name).originalFunctionAddr = address platform name)
    (short : ∀ name, (state.hooks name).trampoline ≠ 0 → (state.hooks name).savedOpcodeLength ≤ maxSavedLength) :
    Apart code state := by
  intro i attached a overwrites
  have inside (name : HookName) (attached : (state.hooks name).trampoline ≠ 0) (overwrites : (state.hooks name).Overwrites a) :
      Within (address platform name) maxSavedLength a := by
    rw [HookBase.Overwrites, placed name] at overwrites
    have room := short name attached
    exact ⟨overwrites.1, by have := overwrites.2; omega⟩
  have mine := inside i attached overwrites
  refine ⟨covers i a mine, fun j attached overwrites => ?_⟩
  have other := inside j attached overwrites
  by_contra different
  rcases address_apart platform j (mem_names j) i (mem_names i) different with before | behind
  · exact absurd other.2 (by have := mine.1; omega)
  · exact absurd mine.2 (by have := other.1; omega)

theorem sound_loaded (world : World) : Sound platform world.bytes code (loaded platform world) := by
  refine ⟨fun _ => rfl, ⟨?_, fun a _ different => absurd rfl different⟩⟩
  intro name
  exact ⟨List.length_replicate, fun _ => rfl, fun attached => absurd rfl attached⟩

/-- What the rest of the memory does is nothing to the hooks. -/
theorem Sound.of_sameOn {state : Hooked HookName} (sound : Sound platform original code state) {world : World}
    (same : SameOn code state.world.bytes world.bytes) : Sound platform original code ⟨world, state.hooks⟩ := by
  refine ⟨sound.placed, sound.restorable.saves, fun a used different => ?_⟩
  rw [same a used] at different
  exact sound.restorable.elsewhere a used different

include covers in
theorem step_attach_sound {state : Hooked HookName} (sound : Sound platform original code state) {os : Os}
    (documented : os.Documented code) (zydis : Zydis) {name : HookName} {proxyFunction : Nat}
    (ok : (step true state (.attach name zydis os proxyFunction)).1 = .ok) :
    let next := (step true state (.attach name zydis os proxyFunction)).2
    Sound platform original code next ∧ (next.hooks name).trampoline ≠ 0 ∧
      (∀ other, other ≠ name → next.hooks other = state.hooks other) ∧
      next.world.allocated = block (next.hooks name) :: state.world.allocated := by
  intro next
  have others (other : HookName) (different : other ≠ name) : next.hooks other = state.hooks other :=
    Function.update_of_ne different _ _
  have mine : next.hooks name = (attachHook zydis os true state.world (state.hooks name) proxyFunction).hook :=
    Function.update_self _ _ _
  have allocated : next.world.allocated = block (next.hooks name) :: state.world.allocated := by
    rw [mine]
    exact attachHook_block ok
  rcases attachHook_cases true documented zydis state.world (state.hooks name) proxyFunction with
    ⟨failed, _⟩ | ⟨_, _, length, trampoline, _, _, nonnull, _, high, _, _, after⟩
  · exact absurd ok failed
  have placed (other : HookName) : (next.hooks other).originalFunctionAddr = address platform other := by
    by_cases same : other = name
    · subst same
      rw [mine, after]
      exact sound.placed other
    · rw [others other same]
      exact sound.placed other
  have short (other : HookName) (attached : (next.hooks other).trampoline ≠ 0) :
      (next.hooks other).savedOpcodeLength ≤ maxSavedLength := by
    by_cases same : other = name
    · subst same
      rw [mine, after]
      exact high
    · rw [others other same] at attached ⊢
      exact ((sound.restorable.saves other).2.2 attached).2.1
  refine ⟨⟨placed, attach_restorable true documented sound.restorable name zydis proxyFunction ok
    (apart_of_placed covers placed short)⟩, ?_, others, allocated⟩
  rw [mine, after]
  exact nonnull

theorem step_detach_sound {state : Hooked HookName} (sound : Sound platform original code state) {os : Os}
    {name : HookName} (ok : (step true state (.detach name os)).1 = .ok) (attached : (state.hooks name).trampoline ≠ 0) :
    let next := (step true state (.detach name os)).2
    Sound platform original code next ∧ (next.hooks name).trampoline = 0 ∧
      (∀ other, other ≠ name → next.hooks other = state.hooks other) ∧
      next.world.allocated = state.world.allocated.erase (block (state.hooks name)) := by
  intro next
  have others (other : HookName) (different : other ≠ name) : next.hooks other = state.hooks other :=
    Function.update_of_ne different _ _
  have mine : next.hooks name = (detachHook os state.world (state.hooks name)).hook := Function.update_self _ _ _
  rcases detachHook_ok ok with ⟨detached, _⟩ | ⟨_, _, after⟩
  · exact absurd detached attached
  refine ⟨⟨fun other => ?_, detach_restorable true sound.restorable name ok⟩, ?_, others, detachHook_block ok attached⟩
  · by_cases same : other = name
    · subst same
      rw [mine, after]
      exact sound.placed other
    · rw [others other same]
      exact sound.placed other
  · rw [mine, after]

include covers in
theorem foldlM_attachOne {life : Life} (documented : life.os.Documented code) {names : List HookName} (apart : names.Nodup)
    {state next : Hooked HookName} (sound : Sound platform original code state)
    (done : names.foldlM (attachOne life) state = some next) :
    Sound platform original code next ∧ (∀ name ∈ names, (next.hooks name).trampoline ≠ 0) ∧
      (∀ name, name ∉ names → next.hooks name = state.hooks name) ∧
      next.world.allocated.Perm (names.map (fun name => block (next.hooks name)) ++ state.world.allocated) := by
  induction names generalizing state with
  | nil =>
    cases done
    exact ⟨sound, fun _ member => absurd member List.not_mem_nil, fun _ _ => rfl, List.Perm.refl _⟩
  | cons name names hypothesis =>
    rw [List.foldlM_cons] at done
    obtain ⟨first, attached, done⟩ := Option.bind_eq_some_iff.mp done
    rw [attachOne] at attached
    split at attached
    · rename_i ok
      cases attached
      obtain ⟨absent, apart⟩ := List.nodup_cons.mp apart
      obtain ⟨one, nonnull, others, allocated⟩ := step_attach_sound covers sound documented life.zydis ok
      obtain ⟨all, placed, kept, blocks⟩ := hypothesis apart one done
      refine ⟨all, List.forall_mem_cons.mpr ⟨?_, placed⟩, fun other outside => ?_, ?_⟩
      · rw [kept name absent]
        exact nonnull
      · rw [List.mem_cons, not_or] at outside
        rw [kept other outside.2, others other outside.1]
      · rw [allocated, ← kept name absent] at blocks
        exact blocks.trans List.perm_middle
    · cases attached

theorem detachOne_failed (os : Os) {names : List HookName} {state : List (HookName × Status) × Hooked HookName}
    (done : (names.foldl (detachOne os) state).1 = []) : state.1 = [] := by
  induction names generalizing state with
  | nil => exact done
  | cons name names hypothesis =>
    have one := hypothesis done
    rw [detachOne] at one
    dsimp only at one
    split at one
    · exact one
    · simp at one

theorem detachOne_ok {os : Os} {state : Hooked HookName} {name : HookName} (done : (detachOne os ([], state) name).1 = []) :
    (step true state (.detach name os)).1 = .ok ∧ detachOne os ([], state) name = ([], (step true state (.detach name os)).2) := by
  rw [detachOne] at done ⊢
  dsimp only at done ⊢
  split at done
  · rename_i ok
    exact ⟨ok, by rw [if_pos ok]⟩
  · simp at done

theorem foldl_detachOne {os : Os} {names : List HookName} (apart : names.Nodup) {state : Hooked HookName}
    (sound : Sound platform original code state) (attached : ∀ name ∈ names, (state.hooks name).trampoline ≠ 0)
    {rest : List (Nat × Nat)}
    (allocated : state.world.allocated.Perm (names.map (fun name => block (state.hooks name)) ++ rest))
    (done : (names.foldl (detachOne os) ([], state)).1 = []) :
    ∃ next, names.foldl (detachOne os) ([], state) = ([], next) ∧ Sound platform original code next ∧
      (∀ name ∈ names, (next.hooks name).trampoline = 0) ∧
      (∀ name, name ∉ names → next.hooks name = state.hooks name) ∧ next.world.allocated.Perm rest := by
  induction names generalizing state with
  | nil =>
    exact ⟨state, rfl, sound, fun _ member => absurd member List.not_mem_nil, fun _ _ => rfl, by simpa using allocated⟩
  | cons name names hypothesis =>
    obtain ⟨ok, first⟩ := detachOne_ok (detachOne_failed os done)
    obtain ⟨absent, apart⟩ := List.nodup_cons.mp apart
    obtain ⟨one, freed, others, erased⟩ := step_detach_sound sound ok (attached name List.mem_cons_self)
    have blocks : (names.map fun other => block ((step true state (.detach name os)).2.hooks other)) =
        names.map fun other => block (state.hooks other) := by
      refine List.map_congr_left fun other member => ?_
      rw [others other fun same => absent (same ▸ member)]
    rw [List.foldl_cons, first] at done ⊢
    obtain ⟨next, all, restored, none, kept, left⟩ := hypothesis apart one
      (fun other member => by
        rw [others other fun same => absent (same ▸ member)]
        exact attached other (List.mem_cons_of_mem name member))
      (by
        rw [erased, blocks]
        exact (allocated.erase (block (state.hooks name))).trans (List.Perm.of_eq (List.erase_cons_head ..)))
      done
    refine ⟨next, all, restored, List.forall_mem_cons.mpr ⟨?_, none⟩, fun other outside => ?_, left⟩
    · rw [kept name absent]
      exact freed
    · rw [List.mem_cons, not_or] at outside
      rw [kept other outside.2, others other outside.1]

/-! ## The stub of the packet filter -/

theorem writeStub_bytes (bytes : Nat → UInt8) (stub filter : Nat) :
    (writeStub ⟨bytes, stub⟩ filter).bytes = write bytes stub (stubFront stub filter ++ offsetBytes 0) := by
  have place : (((List.range 6).foldl (fun w _ => w.emit [0xFF, 0x74, 0x24, 0x18]) (Writer.mk bytes stub)).emit [0xE8]).p =
      stub + 25 := rfl
  simp only [writeStub, place]
  simp only [List.range, List.range.loop, List.foldl_cons, List.foldl_nil, emit_emit]
  rfl

/-- The stub is made in memory of its own. -/
theorem makeFilterStub_ok {os : Os} (documented : os.Documented code) {world : World} {filter : Nat}
    (made : (makeFilterStub os world filter).1 ≠ 0) :
    Avoids code (makeFilterStub os world filter).1 filterStubLength ∧
      SameOn code world.bytes (makeFilterStub os world filter).2.bytes ∧
      (makeFilterStub os world filter).2.allocated =
        ((makeFilterStub os world filter).1, filterStubLength) :: world.allocated := by
  rcases allocateMemory_cases os world filterStubLength with none | ⟨stub, placed, nonnull, some⟩
  · rw [makeFilterStub, none] at made
    exact absurd rfl made
  · rw [makeFilterStub, some]
    simp only [if_neg nonnull]
    have avoids : Avoids code stub filterStubLength := by
      rw [placed] at nonnull ⊢
      exact documented.fresh _ _ nonnull
    refine ⟨avoids, ?_, trivial⟩
    rw [writeStub_bytes]
    refine SameOn.trans (write_sameOn world.bytes ?_) (write_sameOn _ ?_)
    · rwa [List.length_replicate]
    · rwa [List.length_append, length_stubFront, length_offsetBytes]

include covers in
theorem attachPacketEventFilter_sound {life : Life} (documented : life.os.Documented code) {state : Hooked HookName}
    (sound : Sound platform original code state) {attachment : Attachment}
    (attached : attachPacketEventFilter life.zydis life.os state.world (state.hooks .svPacketEvent) life.filter =
      .ok attachment) :
    Sound platform original code
        ⟨attachment.world, Function.update state.hooks .svPacketEvent attachment.hook⟩ ∧
      attachment.packetEventFilterStub ≠ 0 ∧ attachment.hook.trampoline ≠ 0 ∧
      attachment.world.allocated =
        block attachment.hook :: (attachment.packetEventFilterStub, filterStubLength) :: state.world.allocated := by
  rw [attachPacketEventFilter] at attached
  rcases equal : makeFilterStub life.os state.world life.filter with ⟨stub, made⟩
  rw [equal] at attached
  dsimp only at attached
  split at attached
  · cases attached
  rename_i nonnull
  split at attached
  · cases attached
  rename_i ok
  cases attached
  obtain ⟨avoids, same, listed⟩ := makeFilterStub_ok documented (by rwa [equal] : (makeFilterStub life.os state.world life.filter).1 ≠ 0)
  rw [equal] at avoids same listed
  have hooked := step_attach_sound covers (sound.of_sameOn same) documented life.zydis (not_not.mp ok)
  obtain ⟨one, placed, _, allocated⟩ := hooked
  refine ⟨?_, nonnull, ?_, ?_⟩
  · refine one.of_sameOn (write_sameOn _ ?_)
    rw [length_offsetBytes]
    exact avoids.part (by unfold filterStubLength; omega) (by unfold filterStubLength; omega)
  · simpa [step] using placed
  · dsimp only at allocated listed ⊢
    rw [listed] at allocated
    simpa [step] using allocated

end

/-! ## Lives of the module -/

section
variable {platform : Platform} {code : Nat → Prop} (covers : Covers platform code)

theorem nodup_hookEntries : hookEntries.Nodup := by decide

include covers in
/-- A life that has started: its hooks are sound over the patched code, and it has their memory and that of the stub. -/
theorem start_sound {life : Life} (documented : life.Documented code) {world : World} {patches : Patches}
    (started : start life platform world = some patches) :
    Sound platform (writeAll world.bytes (inlineWrites platform)) code patches.toHooked ∧
      (∀ name, (patches.hooks name).trampoline ≠ 0) ∧ patches.packetEventFilterStub ≠ 0 ∧
      patches.world.allocated.Perm (hookEntries.map (fun name => block (patches.hooks name)) ++
        (block (patches.hooks .svPacketEvent) :: (patches.packetEventFilterStub, filterStubLength) :: world.allocated)) := by
  obtain ⟨patched, inline, attached⟩ := Option.bind_eq_some_iff.mp started
  obtain ⟨state, hooked, filtered⟩ := Option.bind_eq_some_iff.mp attached
  cases foldlM_patch inline
  obtain ⟨sound, placed, kept, allocated⟩ := foldlM_attachOne covers documented.1 nodup_hookEntries (sound_loaded _) hooked
  split at filtered
  · cases filtered
  · rename_i attachment found
    cases filtered
    obtain ⟨all, stub, nonnull, blocks⟩ := attachPacketEventFilter_sound covers documented.1 sound found
    refine ⟨all, fun name => ?_, stub, ?_⟩
    · by_cases same : name = .svPacketEvent
      · subst same
        simpa using nonnull
      · dsimp only
        rw [Function.update_of_ne same]
        refine placed name ?_
        have listed := mem_names name
        simpa [same] using listed
    · have others : (hookEntries.map fun name => block (Function.update state.hooks .svPacketEvent attachment.hook name)) =
          hookEntries.map fun name => block (state.hooks name) := by
        refine List.map_congr_left fun name member => ?_
        rw [Function.update_of_ne]
        rintro rfl
        exact absurd member (by decide)
      dsimp only
      rw [others, Function.update_self, blocks]
      refine ((allocated.cons _).cons _).trans ?_
      exact List.perm_append_comm_assoc [block attachment.hook, (attachment.packetEventFilterStub, filterStubLength)]
        (hookEntries.map fun name => block (state.hooks name)) world.allocated

include covers in
/-- A life that undoes all of its hooks leaves the patched code, and gives its memory back. -/
theorem life_restores {life : Life} (documented : life.Documented code) {world : World} {patches : Patches}
    (started : start life platform world = some patches) (undone : (detach life.os (life.runs patches)).1 = []) :
    SameOn code (writeAll world.bytes (inlineWrites platform)) (detach life.os (life.runs patches)).2.bytes ∧
      (detach life.os (life.runs patches)).2.allocated.Perm world.allocated := by
  obtain ⟨sound, placed, stub, allocated⟩ := start_sound covers documented started
  have later : Sound platform (writeAll world.bytes (inlineWrites platform)) code (life.runs patches).toHooked :=
    sound.of_sameOn (documented.2 patches.world.bytes)
  have filtered : detach life.os (life.runs patches) =
      let done := detachOne life.os (hookEntries.foldl (detachOne life.os) ([], (life.runs patches).toHooked)) .svPacketEvent
      (done.1, (releaseMemory life.os done.2.world patches.packetEventFilterStub filterStubLength).2) := if_neg stub
  rw [filtered] at undone ⊢
  dsimp only at undone ⊢
  have entries := @detachOne_failed life.os [.svPacketEvent] _ undone
  obtain ⟨state, folded, restored, none, kept, left⟩ :=
    foldl_detachOne nodup_hookEntries later (fun name _ => placed name) allocated entries
  rw [folded] at undone ⊢
  obtain ⟨ok, last⟩ := detachOne_ok undone
  rw [last]
  have filter : state.hooks .svPacketEvent = patches.hooks .svPacketEvent := kept .svPacketEvent (by decide)
  obtain ⟨all, freed, others, erased⟩ := step_detach_sound restored ok (by rw [filter]; exact placed .svPacketEvent)
  rw [filter] at erased
  have blocks := (left.erase (block (patches.hooks .svPacketEvent))).trans (List.Perm.of_eq (List.erase_cons_head ..))
  rw [← erased] at blocks
  have listed : (patches.packetEventFilterStub, filterStubLength) ∈
      (step true state (.detach .svPacketEvent life.os)).2.world.allocated := blocks.mem_iff.mpr List.mem_cons_self
  rw [releaseMemory, if_pos (documented.1.releases _ _ _ listed)]
  refine ⟨fun a used => ?_, (blocks.erase _).trans (List.Perm.of_eq (List.erase_cons_head ..))⟩
  by_contra different
  obtain ⟨name, attached, _⟩ := all.restorable.elsewhere a used different
  by_cases same : name = .svPacketEvent
  · exact attached (same ▸ freed)
  · rw [others name same] at attached
    refine attached (none name ?_)
    have member := mem_names name
    simpa [same] using member

include covers in
theorem lives_restore {ls : List Life} (documented : ∀ life ∈ ls, life.Documented code) {world after : World}
    (ran : lives platform world ls = some after) :
    after.allocated.Perm world.allocated ∧
      SameOn code (writeAll world.bytes (inlineWrites platform)) (writeAll after.bytes (inlineWrites platform)) ∧
      (ls ≠ [] → SameOn code (writeAll world.bytes (inlineWrites platform)) after.bytes) := by
  induction ls generalizing world with
  | nil =>
    cases ran
    exact ⟨List.Perm.refl _, SameOn.refl _ _, fun some => absurd rfl some⟩
  | cons life ls hypothesis =>
    rw [lives] at ran
    split at ran
    · cases ran
    rename_i patches started
    dsimp only at ran
    split at ran
    · rename_i undone
      obtain ⟨same, freed⟩ := life_restores covers (documented life List.mem_cons_self) started undone
      obtain ⟨allocated, again, rest⟩ := hypothesis (fun other member => documented other (List.mem_cons_of_mem life member)) ran
      have patched : SameOn code (writeAll world.bytes (inlineWrites platform))
          (writeAll (detach life.os (life.runs patches)).2.bytes (inlineWrites platform)) :=
        fun a used => writeAll_again (same a used)
      refine ⟨allocated.trans freed, patched.trans again, fun _ => ?_⟩
      by_cases last : ls = []
      · subst last
        cases ran
        exact same
      · exact patched.trans (rest last)
    · cases ran

include covers in
/-- Whatever the number of map changes: once a module is unloaded the code of the engine is the original with the patches
that stay, and no memory is left allocated. While a module is loaded nothing else differs but what its hooks overwrite. -/
theorem map_changes_restore (ls : List Life) (documented : ∀ life ∈ ls, life.Documented code) {world after : World}
    (ran : lives platform world ls = some after) :
    after.allocated.Perm world.allocated ∧
      (ls ≠ [] → SameOn code (writeAll world.bytes (inlineWrites platform)) after.bytes) ∧
      ∀ (life : Life) (patches : Patches), life.Documented code → start life platform after = some patches →
        ∀ a, code a → (∀ name, ¬ Within (address platform name) maxSavedLength a) →
          patches.world.bytes a = writeAll world.bytes (inlineWrites platform) a := by
  obtain ⟨allocated, again, restored⟩ := lives_restore covers documented ran
  refine ⟨allocated, restored, fun life patches documented started a used outside => ?_⟩
  obtain ⟨sound, _⟩ := start_sound covers documented started
  rw [← again a used]
  by_contra different
  obtain ⟨name, attached, overwrites⟩ := sound.restorable.elsewhere a used different
  obtain ⟨_, short, _⟩ := (sound.restorable.saves name).2.2 attached
  rw [HookBase.Overwrites, sound.placed name] at overwrites
  exact outside name ⟨overwrites.1, by have := overwrites.2; omega⟩

end

/-- An operating system that places every block behind the code of the engine. -/
def sampleOs : Os := { openOs with allocateMemory := fun allocated _ => 0x10000000 + 100 * allocated.length }

def sampleLife : Life := ⟨nopZydis, sampleOs, fun _ => 0x20000000, 0x20000000, id⟩

theorem sampleLife_documented : sampleLife.Documented (· < 0x10000000) := by
  refine ⟨⟨?_, ?_⟩, fun bytes => SameOn.refl _ _⟩
  · rintro allocated size _ a ⟨low, _⟩ below
    have placed : sampleLife.os.allocateMemory allocated size = 0x10000000 + 100 * allocated.length := rfl
    omega
  · intro allocated address size listed
    exact List.contains_iff_mem.mpr listed

theorem sample_covers : Covers .linux (· < 0x10000000) := by
  rintro name a ⟨_, high⟩
  have below : ∀ name ∈ hookEntries ++ [.svPacketEvent], address .linux name + maxSavedLength ≤ 0x10000000 := by
    decide +kernel
  have bound := below name (mem_names name)
  omega

theorem map_changes_restore_sample : ∃ after, lives .linux ⟨fun _ => 0x90, []⟩ [sampleLife, sampleLife] = some after ∧
    after.allocated.Perm [] ∧ after.bytes 0x807fe24 = 0x72 := by
  have runs : (lives .linux ⟨fun _ => 0x90, []⟩ [sampleLife, sampleLife]).isSome = true := by decide +kernel
  obtain ⟨after, ran⟩ := Option.isSome_iff_exists.mp runs
  have documented : ∀ life ∈ [sampleLife, sampleLife], life.Documented (· < 0x10000000) := by
    simp [sampleLife_documented]
  obtain ⟨allocated, restored, _⟩ := map_changes_restore sample_covers [sampleLife, sampleLife] documented ran
  refine ⟨after, ran, allocated, ?_⟩
  rw [restored (by simp) _ (by decide)]
  decide +kernel

end YbeProxy.EngineHooks
