import YbeProxy.Runs
import YbeProxy.Strings
import Mathlib.Data.List.Induction

/-!
# Loading the map before a counter wraps

`BeforeWrap` of `Engine/Restart.cpp`, in the frames of the engine: `SV_Frame` checks two counters against its limits, then the
game runs its frame, then the snapshots are built.
-/

namespace YbeProxy.Restart
open YbeProxy.Strings
open YbeProxy.Runs (trace final)

def maxQPath : Nat := 64

structure Svs where
  time : Int32
  nextSnapshotEntities : Int32
  numSnapshotEntities : Int32

inductive Call
  | print (text : CString)
  | sendConsoleCommand (text : CString)
  deriving DecidableEq

/-- One minute before the limit of `SV_Frame`. -/
def timeWraps (svs : Svs) : Bool := svs.time > 0x70000000 - 60000

/-- One `numSnapshotEntities` before the limit of `SV_Frame`. -/
def entitiesWrap (svs : Svs) : Bool := svs.nextSnapshotEntities ≥ 0x7FFFFFFE - 2 * svs.numSnapshotEntities

/-- What is requested, if anything, with the value of the cvar `mapname`, and the `requested` of the file then. -/
def beforeWrap (svs : Svs) (mapname : CString) (requested : Bool) : List Call × Bool :=
  if requested then ([], requested)
  else if !timeWraps svs && !entitiesWrap svs then ([], requested)
  else
    let mapname := qStrncpyz mapname maxQPath
    let counter := if timeWraps svs then "svs.time".toList else "svs.nextSnapshotEntities".toList
    ([.print ("----- Proxy: ".toList ++ counter ++ " is about to wrap, loading ".toList ++ mapname ++
        " again\n".toList),
      .sendConsoleCommand ((if timeWraps svs then "killserver\n".toList else []) ++ "map ".toList ++ mapname ++
        "\n".toList)], true)

/-- The check of `SV_Frame`. -/
def svFrameStops (svs : Svs) : Bool :=
  svs.time > 0x70000000 || svs.nextSnapshotEntities ≥ 0x7FFFFFFE - svs.numSnapshotEntities

/-! ## Frames -/

/-- The time that passes before the check of a frame and between it and the game, and the entities of its snapshots. -/
structure Frame where
  beforeCheck : Nat
  afterCheck : Nat
  entities : Nat
  mapname : CString

structure Answer where
  stops : Bool
  calls : List Call

structure Loaded where
  svs : Svs
  requested : Bool

def Svs.advance (svs : Svs) (msec : Nat) : Svs := { svs with time := svs.time + Int32.ofNat msec }

def Svs.grow (svs : Svs) (entities : Nat) : Svs :=
  { svs with nextSnapshotEntities := svs.nextSnapshotEntities + Int32.ofNat entities }

def svFrame (loaded : Loaded) (frame : Frame) : Answer × Loaded :=
  let checked := loaded.svs.advance frame.beforeCheck
  let svs := checked.advance frame.afterCheck
  let (calls, requested) := beforeWrap svs frame.mapname loaded.requested
  (⟨svFrameStops checked, calls⟩, ⟨svs.grow frame.entities, requested⟩)

/-- Between two calls of `BeforeWrap` little time passes, and few entities are added. -/
def Frame.Paced (numSnapshotEntities : Int32) (frame : Frame) : Prop :=
  frame.beforeCheck + frame.afterCheck ≤ 59000 ∧ (frame.entities : Int) ≤ numSnapshotEntities.toInt

/-! ## The margins -/

theorem toInt_add_of_bounds {a b : Int32} (low : -2147483648 ≤ a.toInt + b.toInt)
    (high : a.toInt + b.toInt < 2147483648) : (a + b).toInt = a.toInt + b.toInt := by
  rw [Int32.toInt_add]
  exact Int.bmod_eq_of_le (by omega) (by omega)

theorem toInt_sub_of_bounds {a b : Int32} (low : -2147483648 ≤ a.toInt - b.toInt)
    (high : a.toInt - b.toInt < 2147483648) : (a - b).toInt = a.toInt - b.toInt := by
  rw [Int32.toInt_sub]
  exact Int.bmod_eq_of_le (by omega) (by omega)

theorem advance_time {svs : Svs} {msec : Nat} (short : msec ≤ 59000) (early : svs.time.toInt ≤ 0x70000000) :
    (svs.advance msec).time.toInt = svs.time.toInt + msec := by
  have low := svs.time.le_toInt
  have value : (Int32.ofNat msec).toInt = msec := Int32.toInt_ofNat_of_lt (by omega)
  rw [Svs.advance, toInt_add_of_bounds, value] <;> rw [value] <;> omega

theorem grow_entities {svs : Svs} {entities : Nat} (few : (entities : Int) ≤ svs.numSnapshotEntities.toInt)
    (room : svs.nextSnapshotEntities.toInt < 0x7FFFFFFE - 2 * svs.numSnapshotEntities.toInt) :
    (svs.grow entities).nextSnapshotEntities.toInt < 0x7FFFFFFE - svs.numSnapshotEntities.toInt := by
  have low := svs.nextSnapshotEntities.le_toInt
  have high := svs.numSnapshotEntities.toInt_lt
  have value : (Int32.ofNat entities).toInt = entities := Int32.toInt_ofNat_of_lt (by omega)
  have sum : (svs.nextSnapshotEntities + Int32.ofNat entities).toInt = svs.nextSnapshotEntities.toInt + entities := by
    rw [toInt_add_of_bounds, value] <;> rw [value] <;> omega
  rw [Svs.grow, sum]
  omega

/-- The two limits of a check are what they say: no subtraction overflows. -/
theorem limits_exact {num : Int32} (positive : 0 ≤ num.toInt) (small : 2 * num.toInt < 0x7FFFFFFE) :
    (0x7FFFFFFE - num).toInt = 0x7FFFFFFE - num.toInt ∧ (0x7FFFFFFE - 2 * num).toInt = 0x7FFFFFFE - 2 * num.toInt := by
  have top : (0x7FFFFFFE : Int32).toInt = 0x7FFFFFFE := rfl
  have double : (2 * num).toInt = 2 * num.toInt := by
    rw [Int32.toInt_mul, show (2 : Int32).toInt = 2 from rfl]
    exact Int.bmod_eq_of_le (by omega) (by omega)
  constructor
  · rw [toInt_sub_of_bounds] <;> rw [top]
    all_goals omega
  · rw [toInt_sub_of_bounds] <;> rw [top, double]
    all_goals omega

theorem timeWraps_eq_false {svs : Svs} : timeWraps svs = false ↔ svs.time.toInt ≤ 0x70000000 - 60000 := by
  have margin : (0x70000000 - 60000 : Int32).toInt = 0x70000000 - 60000 := rfl
  rw [timeWraps, decide_eq_false_iff_not, gt_iff_lt, Int32.lt_iff_toInt_lt, margin, Int.not_lt]

theorem entitiesWrap_eq_false {svs : Svs} (positive : 0 ≤ svs.numSnapshotEntities.toInt)
    (small : 2 * svs.numSnapshotEntities.toInt < 0x7FFFFFFE) :
    entitiesWrap svs = false ↔
      svs.nextSnapshotEntities.toInt < 0x7FFFFFFE - 2 * svs.numSnapshotEntities.toInt := by
  rw [entitiesWrap, decide_eq_false_iff_not, ge_iff_le, Int32.le_iff_toInt_le, (limits_exact positive small).2, Int.not_le]

theorem svFrameStops_eq_false {svs : Svs} (positive : 0 ≤ svs.numSnapshotEntities.toInt)
    (small : 2 * svs.numSnapshotEntities.toInt < 0x7FFFFFFE) :
    svFrameStops svs = false ↔ svs.time.toInt ≤ 0x70000000 ∧
      svs.nextSnapshotEntities.toInt < 0x7FFFFFFE - svs.numSnapshotEntities.toInt := by
  have limit : (0x70000000 : Int32).toInt = 0x70000000 := rfl
  rw [svFrameStops, Bool.or_eq_false_iff, decide_eq_false_iff_not, decide_eq_false_iff_not, gt_iff_lt, ge_iff_le,
    Int32.lt_iff_toInt_lt, Int32.le_iff_toInt_le, (limits_exact positive small).1, limit, Int.not_lt, Int.not_le]

/-! ## What a frame keeps -/

/-- What `BeforeWrap` comes to: it requests nothing more, nothing yet, or the command of this load. -/
theorem beforeWrap_cases (svs : Svs) (mapname : CString) (requested : Bool) :
    (requested = true ∧ beforeWrap svs mapname requested = ([], true)) ∨
      (requested = false ∧ timeWraps svs = false ∧ entitiesWrap svs = false ∧
        beforeWrap svs mapname requested = ([], false)) ∨
      requested = false ∧ (beforeWrap svs mapname requested).2 = true := by
  cases requested with
  | true => exact Or.inl ⟨rfl, rfl⟩
  | false =>
    right
    simp only [beforeWrap, Bool.false_eq_true, if_false]
    split
    · rename_i quiet
      simp only [Bool.and_eq_true, Bool.not_eq_true'] at quiet
      exact Or.inl ⟨trivial, quiet.1, quiet.2, rfl⟩
    · exact Or.inr ⟨trivial, rfl⟩

/-- Where nothing is requested yet, the time was early enough at the last call of `BeforeWrap`, and there is room for the
entities of one more frame. -/
def Early (num : Int32) (loaded : Loaded) : Prop :=
  loaded.svs.numSnapshotEntities = num ∧ (loaded.requested = false →
    loaded.svs.time.toInt ≤ 0x70000000 - 60000 ∧ loaded.svs.nextSnapshotEntities.toInt < 0x7FFFFFFE - num.toInt)

theorem frame_early {num : Int32} (small : 2 * num.toInt < 0x7FFFFFFE) {loaded : Loaded} (early : Early num loaded)
    {frame : Frame} (paced : frame.Paced num) : Early num (svFrame loaded frame).2 := by
  obtain ⟨rfl, _⟩ := early
  obtain ⟨short, few⟩ := paced
  refine ⟨rfl, ?_⟩
  intro quiet
  rcases beforeWrap_cases ((loaded.svs.advance frame.beforeCheck).advance frame.afterCheck) frame.mapname
    loaded.requested with ⟨_, result⟩ | ⟨_, time, entities, _⟩ | ⟨_, result⟩
  · simp [svFrame, result] at quiet
  · have positive : 0 ≤ loaded.svs.numSnapshotEntities.toInt := Int.le_trans (Int.natCast_nonneg _) few
    have room := (@entitiesWrap_eq_false ((loaded.svs.advance frame.beforeCheck).advance frame.afterCheck)
      positive small).mp entities
    exact ⟨timeWraps_eq_false.mp time, grow_entities few room⟩
  · simp [svFrame, result] at quiet

/-- No check before the request finds a counter at its limit. -/
theorem frame_goes_on {num : Int32} (small : 2 * num.toInt < 0x7FFFFFFE) {loaded : Loaded} (early : Early num loaded)
    {frame : Frame} (paced : frame.Paced num) (unrequested : loaded.requested = false) :
    (svFrame loaded frame).1.stops = false := by
  obtain ⟨rfl, counters⟩ := early
  obtain ⟨short, few⟩ := paced
  obtain ⟨time, room⟩ := counters unrequested
  have checked := @advance_time loaded.svs frame.beforeCheck (by omega) (by omega)
  have positive : 0 ≤ (loaded.svs.advance frame.beforeCheck).numSnapshotEntities.toInt :=
    Int.le_trans (Int.natCast_nonneg _) few
  refine (svFrameStops_eq_false positive small).mpr ⟨?_, room⟩
  omega

/-! ## Whole runs -/

theorem run_early {num : Int32} (small : 2 * num.toInt < 0x7FFFFFFE) {loaded : Loaded} (early : Early num loaded)
    {frames : List Frame} (paced : ∀ frame ∈ frames, frame.Paced num) : Early num (final svFrame loaded frames) := by
  refine Runs.final_keeps svFrame (Early num) ?_ loaded early
  intro frame member state known
  exact frame_early small known (paced frame member)

/-- A frame in which the command is requested. -/
def requests (entry : Frame × Answer) : Bool := !entry.2.calls.isEmpty

/-- The command is requested once at most, and not where it was requested before. -/
theorem requests_le (loaded : Loaded) (frames : List Frame) :
    (trace svFrame loaded frames).countP requests ≤ if loaded.requested then 0 else 1 := by
  induction frames generalizing loaded with
  | nil => exact Nat.zero_le _
  | cons frame rest hypothesis =>
    have later := hypothesis (svFrame loaded frame).2
    rw [trace, List.countP_cons]
    rcases beforeWrap_cases ((loaded.svs.advance frame.beforeCheck).advance frame.afterCheck) frame.mapname
      loaded.requested with ⟨before, result⟩ | ⟨before, _, _, result⟩ | ⟨before, result⟩
    · have quiet : requests (frame, (svFrame loaded frame).1) = false := by simp [requests, svFrame, result]
      have requested : (svFrame loaded frame).2.requested = true := by simp [svFrame, result]
      rw [requested] at later
      rw [quiet, before]
      simpa using later
    · have quiet : requests (frame, (svFrame loaded frame).1) = false := by simp [requests, svFrame, result]
      have requested : (svFrame loaded frame).2.requested = false := by simp [svFrame, result]
      rw [requested] at later
      rw [quiet, before]
      simpa using later
    · have requested : (svFrame loaded frame).2.requested = true := by simp [svFrame, result]
      rw [requested] at later
      have once : (if requests (frame, (svFrame loaded frame).1) = true then 1 else 0) ≤ 1 := by split <;> omega
      rw [before]
      simp only [if_true, Bool.false_eq_true, if_false] at later ⊢
      omega

/-- The command runs before the check that follows its request, so the checks before it are those with no request. -/
theorem loaded_again_in_time {svs : Svs} (early : svs.time ≤ 0x70000000 - 60000)
    (empty : svs.nextSnapshotEntities = 0) (small : 2 * svs.numSnapshotEntities.toInt < 0x7FFFFFFE)
    {frames : List Frame} (paced : ∀ frame ∈ frames, frame.Paced svs.numSnapshotEntities) :
    (∀ before frame after, frames = before ++ frame :: after →
      (final svFrame ⟨svs, false⟩ before).requested = false →
        (svFrame (final svFrame ⟨svs, false⟩ before) frame).1.stops = false ∧
        (0x7FFFFFFE - svs.numSnapshotEntities).toInt = 0x7FFFFFFE - svs.numSnapshotEntities.toInt ∧
        (0x7FFFFFFE - 2 * svs.numSnapshotEntities).toInt = 0x7FFFFFFE - 2 * svs.numSnapshotEntities.toInt) ∧
      (trace svFrame ⟨svs, false⟩ frames).countP requests ≤ 1 := by
  refine ⟨?_, requests_le ⟨svs, false⟩ frames⟩
  rintro before frame after rfl unrequested
  have pace := paced frame (List.mem_append_right _ List.mem_cons_self)
  have positive : 0 ≤ svs.numSnapshotEntities.toInt := Int.le_trans (Int.natCast_nonneg _) pace.2
  have loaded : Early svs.numSnapshotEntities ⟨svs, false⟩ := by
    refine ⟨rfl, fun _ => ⟨Int32.le_iff_toInt_le.mp early, ?_⟩⟩
    have zero : (0 : Int32).toInt = 0 := rfl
    dsimp only
    rw [empty, zero]
    omega
  have known := @run_early _ small _ loaded before fun earlier member =>
    paced earlier (List.mem_append_left _ member)
  exact ⟨frame_goes_on small known pace unrequested, limits_exact positive small⟩

def sampleSvs : Svs := ⟨0x70000000 - 60100, 0, 2048⟩
def sampleFrame : Frame := ⟨0, 50, 100, "mp/ffa1".toList⟩

example : (beforeWrap { sampleSvs with time := 0x70000000 - 50000 } sampleFrame.mapname false).1.getLast? =
    some (.sendConsoleCommand "killserver\nmap mp/ffa1\n".toList) := by decide

theorem loaded_again_in_time_sample :
    (svFrame (final svFrame ⟨sampleSvs, false⟩ [sampleFrame]) sampleFrame).1.stops = false ∧
      (trace svFrame ⟨sampleSvs, false⟩ [sampleFrame, sampleFrame]).countP requests ≤ 1 := by
  have paced : ∀ frame ∈ [sampleFrame, sampleFrame], frame.Paced sampleSvs.numSnapshotEntities := by
    intro frame member
    obtain rfl : frame = sampleFrame := by simpa using member
    exact ⟨by decide, by decide⟩
  obtain ⟨checks, once⟩ := @loaded_again_in_time sampleSvs (by decide) rfl (by decide) _ paced
  exact ⟨(checks [sampleFrame] sampleFrame [] rfl (by decide)).1, once⟩

end YbeProxy.Restart
