import YbeProxy.Strings
import Mathlib.Logic.Function.Basic

/-!
# The entities of the server

`Engine/Hooks/server/sv_game.cpp`: the server keeps data of its own for each entity of the game, and finds it by the
address of the entity. Over a run in which the game numbers its entities as it likes, the data of an entity goes through
what is done to that entity and nothing else.
-/

namespace YbeProxy.Entities
open YbeProxy.Strings

def maxGentities : ℕ := 1024

/-- Where the game keeps its entities, as it has told the server. -/
structure Server where
  gentities : BitVec 32
  gentitySize : ℤ

variable (sv : Server)

/-- The index of the entity at an address, or -1. The difference of two addresses is a signed word, and so is what it
divides into. -/
def proxySvNumForGentity (ent : BitVec 32) : ℤ :=
  let offset := (ent - sv.gentities).toInt
  if sv.gentitySize ≤ 0 ∨ offset < 0 ∨ offset % sv.gentitySize ≠ 0 then -1 else offset / sv.gentitySize

/-- The comparison with `MAX_GENTITIES` as unsigned numbers. -/
def isIndex (num : ℤ) : Bool := 0 ≤ num && num < maxGentities

/-- The index in `svEntities` of the entity at an address, or the error that drops the game; `number` is the `s.number`
of each entity. -/
def proxySvSvEntityForGentity (number : BitVec 32 → ℤ) (gEnt : BitVec 32) : Except CString ℕ :=
  if gEnt = 0 then .error "SV_SvEntityForGentity: null gEnt\n".toList
  else
    let num := proxySvNumForGentity sv gEnt
    let num := if isIndex num then num else number gEnt
    if isIndex num then .ok num.toNat else .error "SV_SvEntityForGentity: bad gEnt\n".toList

/-! ## The entity at an address -/

/-- The game has told where its entities are, and there is room for all of them. -/
structure Located : Prop where
  present : sv.gentities ≠ 0
  positive : 0 < sv.gentitySize
  small : maxGentities * sv.gentitySize ≤ 2 ^ 31
  fits : sv.gentities.toNat + maxGentities * sv.gentitySize ≤ 2 ^ 32

/-- The address of an entity. -/
def element (i : ℕ) : BitVec 32 := sv.gentities + BitVec.ofInt 32 (i * sv.gentitySize)

theorem isIndex_iff (num : ℤ) : isIndex num = true ↔ ∃ i : ℕ, i < maxGentities ∧ num = i := by
  simp only [isIndex, Bool.and_eq_true, decide_eq_true_eq]
  constructor
  · rintro ⟨nonneg, small⟩
    exact ⟨num.toNat, by omega, by omega⟩
  · rintro ⟨i, small, rfl⟩
    exact ⟨by omega, by omega⟩

/-- An index is always one of the array. -/
theorem entity_lt {number : BitVec 32 → ℤ} {gEnt : BitVec 32} {n : ℕ}
    (found : proxySvSvEntityForGentity sv number gEnt = .ok n) : n < maxGentities := by
  rw [proxySvSvEntityForGentity] at found
  split at found
  · cases found
  simp only at found
  generalize (if isIndex (proxySvNumForGentity sv gEnt) then proxySvNumForGentity sv gEnt else number gEnt) = num at found
  split at found
  · rename_i index
    obtain ⟨i, small, same⟩ := (isIndex_iff _).mp index
    rw [same] at found
    cases found
    exact small
  · cases found

variable {sv}

theorem Located.offset_bounds (located : Located sv) {i : ℕ} (small : i < maxGentities) :
    0 ≤ i * sv.gentitySize ∧ i * sv.gentitySize + sv.gentitySize ≤ maxGentities * sv.gentitySize := by
  have positive := located.positive
  have next : (i : ℤ) + 1 ≤ maxGentities := by exact_mod_cast small
  have scaled := Int.mul_le_mul_of_nonneg_right next (Int.le_of_lt positive)
  rw [Int.add_mul, Int.one_mul] at scaled
  exact ⟨Int.mul_nonneg (Int.natCast_nonneg i) (Int.le_of_lt positive), scaled⟩

/-- An address has an index where it is that of an entity, and the index is that entity's. -/
theorem numForGentity_iff (located : Located sv) (ent : BitVec 32) {i : ℕ} (small : i < maxGentities) :
    proxySvNumForGentity sv ent = i ↔ ent = element sv i := by
  have positive := located.positive
  obtain ⟨nonneg, bounded⟩ := located.offset_bounds small
  have room := located.small
  have exact : (BitVec.ofInt 32 (i * sv.gentitySize)).toInt = i * sv.gentitySize := by
    rw [BitVec.toInt_ofInt]
    exact Int.bmod_eq_of_le (by omega) (by omega)
  rw [proxySvNumForGentity]
  constructor
  · intro number
    split at number
    · omega
    · rename_i whole
      simp only [not_or, not_not] at whole
      have offset : (ent - sv.gentities).toInt = i * sv.gentitySize := by
        rw [← number, Int.ediv_mul_cancel (Int.dvd_of_emod_eq_zero whole.2.2)]
      have difference : ent - sv.gentities = BitVec.ofInt 32 (i * sv.gentitySize) :=
        BitVec.eq_of_toInt_eq (offset.trans exact.symm)
      rw [element, ← difference]
      bv_omega
  · rintro rfl
    have difference : element sv i - sv.gentities = BitVec.ofInt 32 (i * sv.gentitySize) := by
      rw [element]
      bv_omega
    rw [difference, exact, Int.mul_emod_left, Int.mul_ediv_cancel _ (by omega), if_neg]
    omega

theorem element_ne_zero (located : Located sv) {i : ℕ} (small : i < maxGentities) : element sv i ≠ 0 := by
  obtain ⟨nonneg, bounded⟩ := located.offset_bounds small
  have fits := located.fits
  have positive := located.positive
  have present : sv.gentities.toNat ≠ 0 := fun zero => located.present (BitVec.eq_of_toNat_eq zero)
  intro zero
  have address : (element sv i).toNat = sv.gentities.toNat + (i * sv.gentitySize).toNat := by
    rw [element, BitVec.toNat_add, BitVec.toNat_ofInt]
    omega
  rw [zero] at address
  simp at address
  omega

theorem entity_of_element (located : Located sv) (number : BitVec 32 → ℤ) {i : ℕ} (small : i < maxGentities) :
    proxySvSvEntityForGentity sv number (element sv i) = .ok i := by
  have num := (numForGentity_iff located (element sv i) small).mpr rfl
  have index : isIndex (i : ℤ) = true := (isIndex_iff _).mpr ⟨i, small, rfl⟩
  rw [proxySvSvEntityForGentity, if_neg (element_ne_zero located small)]
  simp only [num, index, if_true]
  rfl

/-- An address that is no entity's is taken for the entity that it says it is. -/
theorem entity_of_stranger (located : Located sv) (number : BitVec 32 → ℤ) {gEnt : BitVec 32} (given : gEnt ≠ 0)
    (stranger : ∀ i < maxGentities, gEnt ≠ element sv i) :
    proxySvSvEntityForGentity sv number gEnt =
      if isIndex (number gEnt) then .ok (number gEnt).toNat else .error "SV_SvEntityForGentity: bad gEnt\n".toList := by
  have none : isIndex (proxySvNumForGentity sv gEnt) = false := by
    by_contra index
    obtain ⟨i, small, same⟩ := (isIndex_iff _).mp (Bool.of_not_eq_false index)
    exact stranger i small ((numForGentity_iff located gEnt small).mp same)
  rw [proxySvSvEntityForGentity, if_neg given]
  simp only [none, Bool.false_eq_true, if_false]

/-! ## Runs -/

section
variable {σ : Type}

/-- What the game and the engine do with entities: the game numbers them anew, or the engine does something to the data
of the entity at an address. -/
inductive Event (σ : Type)
  | renumber (number : BitVec 32 → ℤ)
  | reach (gEnt : BitVec 32) (does : σ → σ)

structure World (σ : Type) where
  number : BitVec 32 → ℤ
  svEntities : ℕ → σ

variable (sv)

def step (world : World σ) : Event σ → World σ
  | .renumber number => { world with number }
  | .reach gEnt does =>
    match proxySvSvEntityForGentity sv world.number gEnt with
    | .ok n => { world with svEntities := Function.update world.svEntities n (does (world.svEntities n)) }
    | .error _ => world

/-- What an event does to the entity at an address. -/
def doneTo (address : BitVec 32) : Event σ → Option (σ → σ)
  | .renumber _ => none
  | .reach gEnt does => if gEnt = address then some does else none

/-- The event reaches for an entity of the game, if for any. -/
def Known : Event σ → Prop
  | .renumber _ => True
  | .reach gEnt _ => ∃ i < maxGentities, gEnt = element sv i

variable {sv}

theorem step_entity (located : Located sv) (world : World σ) {event : Event σ} (known : Known sv event) {i : ℕ}
    (small : i < maxGentities) :
    (step sv world event).svEntities i =
      match doneTo (element sv i) event with
      | some does => does (world.svEntities i)
      | none => world.svEntities i := by
  cases event with
  | renumber number => rfl
  | reach gEnt does =>
    obtain ⟨j, inside, rfl⟩ := known
    have other : element sv j = element sv i ↔ j = i := by
      constructor
      · intro same
        have mine := (numForGentity_iff located _ inside).mpr same.symm
        rw [(numForGentity_iff located _ small).mpr rfl] at mine
        exact_mod_cast mine.symm
      · rintro rfl
        rfl
    simp only [step, doneTo, entity_of_element located world.number inside, other]
    by_cases same : j = i
    · rw [if_pos same, same]
      exact Function.update_self i _ _
    · rw [if_neg same]
      exact Function.update_of_ne (Ne.symm same) _ _

/-- Whatever the game numbers its entities in between, the data of an entity goes through what is done to this entity,
in order, and nothing that is done to another. -/
theorem entities_apart (located : Located sv) (world : World σ) {events : List (Event σ)}
    (known : ∀ event ∈ events, Known sv event) {i : ℕ} (small : i < maxGentities) :
    (events.foldl (step sv) world).svEntities i =
      (events.filterMap (doneTo (element sv i))).foldl (fun data does => does data) (world.svEntities i) := by
  induction events generalizing world with
  | nil => rfl
  | cons event rest hypothesis =>
    have later := hypothesis (step sv world event) fun other member => known other (List.mem_cons_of_mem event member)
    rw [List.foldl_cons, later, step_entity located world (known event List.mem_cons_self) small]
    cases done : doneTo (element sv i) event with
    | some does => rw [List.filterMap_cons_some done, List.foldl_cons]
    | none => rw [List.filterMap_cons_none done]

end

def sampleGame : Server := ⟨0x100000, 1016⟩

theorem sampleGame_located : Located sampleGame := ⟨by decide, by decide, by decide, by decide⟩

/-- Two players that both say that they are entity 0. -/
def samplePlayers : List (Event ℕ) :=
  [.reach (element sampleGame 0) (· + 1), .reach (element sampleGame 1) (· + 10), .renumber fun _ => 0,
    .reach (element sampleGame 1) (· + 100)]

theorem entities_apart_sample :
    (samplePlayers.foldl (step sampleGame) ⟨fun _ => 0, fun _ => 0⟩).svEntities 0 = 1 ∧
      (samplePlayers.foldl (step sampleGame) ⟨fun _ => 0, fun _ => 0⟩).svEntities 1 = 110 := by
  have known : ∀ event ∈ samplePlayers, Known sampleGame event := by
    simp only [samplePlayers, List.forall_mem_cons, List.not_mem_nil, false_implies, implies_true, and_true]
    exact ⟨⟨0, by decide, rfl⟩, ⟨1, by decide, rfl⟩, trivial, ⟨1, by decide, rfl⟩⟩
  have first := entities_apart sampleGame_located ⟨fun _ => 0, fun _ => 0⟩ known (show 0 < maxGentities by decide)
  have second := entities_apart sampleGame_located ⟨fun _ => 0, fun _ => 0⟩ known (show 1 < maxGentities by decide)
  exact ⟨first.trans (by decide), second.trans (by decide)⟩

end YbeProxy.Entities
