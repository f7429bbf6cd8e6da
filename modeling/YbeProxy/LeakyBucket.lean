import Mathlib.Data.List.Basic
import Mathlib.Tactic.Ring

/-!
# Leaky buckets on a discrete clock

A bucket holds at most `capacity` requests and loses one each `period`. Two invariants go through any sequence of
requests, sweeps of empty buckets and re-creations: one bounds what is accepted in a window from above, the other
shows that a source that keeps to the rate is never refused.
-/

namespace YbeProxy.LeakyBucket

/-- The moment the bucket last lost a request, and the requests it holds since. -/
structure Bucket where
  last : ℕ
  burst : ℕ
deriving DecidableEq

variable (capacity period : ℕ)

/-- What a bucket holds at `now`: whole periods drain it on their own phase, and a bucket that has drained for longer
than it held starts again. -/
def drain (bucket : Bucket) (now : ℕ) : Bucket :=
  if bucket.burst < (now - bucket.last) / period then ⟨now, 0⟩
  else ⟨now - (now - bucket.last) % period, bucket.burst - (now - bucket.last) / period⟩

/-- One request: accepted while there is room, and then held. -/
def offer (bucket : Bucket) (now : ℕ) : Bool × Bucket :=
  if (drain period bucket now).burst < capacity then
    (true, ⟨(drain period bucket now).last, (drain period bucket now).burst + 1⟩)
  else (false, drain period bucket now)

/-! ## One drain -/

/-- Everything a drain can do: start again after more than `burst` periods, or give up whole periods. -/
theorem drain_cases (bucket : Bucket) (now : ℕ) (positive : 0 < period) (past : bucket.last ≤ now) :
    (bucket.last + (bucket.burst + 1) * period ≤ now ∧ drain period bucket now = ⟨now, 0⟩) ∨
    ∃ last burst drained, drain period bucket now = ⟨last, burst⟩ ∧ bucket.burst = burst + drained ∧
      last = bucket.last + drained * period ∧ last ≤ now ∧ now < last + period := by
  have whole := Nat.div_add_mod (now - bucket.last) period
  have part := Nat.mod_lt (now - bucket.last) positive
  by_cases emptied : bucket.burst < (now - bucket.last) / period
  · left
    refine ⟨?_, by rw [drain, if_pos emptied]⟩
    have periods := Nat.mul_le_mul_right period (Nat.succ_le_of_lt emptied)
    rw [Nat.mul_comm ((now - bucket.last) / period)] at periods
    simp only [Nat.succ_eq_add_one] at periods
    omega
  · right
    rw [Nat.mul_comm period] at whole
    refine ⟨_, _, (now - bucket.last) / period, by rw [drain, if_neg emptied], ?_, ?_, ?_, ?_⟩ <;> omega

theorem drain_last_le (bucket : Bucket) (now : ℕ) : (drain period bucket now).last ≤ now := by
  rw [drain]
  split
  · exact Nat.le_refl now
  · exact Nat.sub_le now _

theorem last_le_drain (bucket : Bucket) (now : ℕ) (past : bucket.last ≤ now) :
    bucket.last ≤ (drain period bucket now).last := by
  rw [drain]
  split
  · exact past
  · have := Nat.mod_le (now - bucket.last) period
    simp only
    omega

theorem lt_drain_last (bucket : Bucket) (now : ℕ) (positive : 0 < period) (past : bucket.last ≤ now) :
    now < (drain period bucket now).last + period := by
  obtain ⟨_, same⟩ | ⟨last, burst, _, same, _, _, _, near⟩ := drain_cases period bucket now positive past
  · rw [same]
    simp only
    omega
  · rw [same]
    exact near

theorem drain_burst_le (bucket : Bucket) (now : ℕ) : (drain period bucket now).burst ≤ bucket.burst := by
  rw [drain]
  split
  · exact Nat.zero_le _
  · exact Nat.sub_le _ _

theorem offer_burst_le (bucket : Bucket) (now : ℕ) (room : bucket.burst ≤ capacity) :
    (offer capacity period bucket now).2.burst ≤ capacity := by
  have drained := drain_burst_le period bucket now
  rw [offer]
  split <;> simp only <;> omega

theorem offer_last (bucket : Bucket) (now : ℕ) :
    (offer capacity period bucket now).2.last = (drain period bucket now).last := by
  rw [offer]
  split <;> rfl

/-! ## The upper bound -/

/-- What bounds the `count` requests accepted since `start` while the slot of a source holds this: every accepted
request but those still held has cost a period. An absent bucket has nothing left to drain. -/
def Paced (start count now : ℕ) : Option Bucket → Prop
  | none => count = 0 ∨ start + count * period < now + period
  | some bucket => bucket.last ≤ now ∧ bucket.burst ≤ capacity ∧
      (count = 0 ∨ start + count * period < bucket.last + (bucket.burst + 1) * period)

variable {capacity period}

theorem Paced.later {start count now next : ℕ} {slot : Option Bucket} (paced : Paced capacity period start count now slot)
    (after : now ≤ next) : Paced capacity period start count next slot := by
  cases slot with
  | none =>
    rcases paced with first | cost
    · exact Or.inl first
    · exact Or.inr (by omega)
  | some bucket => exact ⟨Nat.le_trans paced.1 after, paced.2⟩

/-- The phase of a bucket may move forward: it only drains less. -/
theorem Paced.forward {start count now last : ℕ} {bucket : Bucket}
    (paced : Paced capacity period start count now (some bucket)) (ahead : bucket.last ≤ last) (past : last ≤ now) :
    Paced capacity period start count now (some ⟨last, bucket.burst⟩) := by
  obtain ⟨_, room, cost⟩ := paced
  refine ⟨past, room, cost.imp_right ?_⟩
  intro cost
  simp only
  omega

theorem Paced.sweep {start count now : ℕ} {bucket : Bucket} (paced : Paced capacity period start count now (some bucket))
    (emptied : bucket.last + bucket.burst * period < now) : Paced capacity period start count now none := by
  apply paced.2.2.imp_right
  intro cost
  have held : (bucket.burst + 1) * period = bucket.burst * period + period := Nat.succ_mul _ _
  omega

theorem Paced.create {start count now : ℕ} (paced : Paced capacity period start count now none) :
    Paced capacity period start count now (some ⟨now, 0⟩) :=
  ⟨Nat.le_refl now, Nat.zero_le capacity, by simpa [Paced] using paced⟩

theorem Paced.drain {start count now : ℕ} {bucket : Bucket} (positive : 0 < period)
    (paced : Paced capacity period start count now (some bucket)) :
    Paced capacity period start count now (some (drain period bucket now)) := by
  obtain ⟨past, room, cost⟩ := paced
  rcases drain_cases period bucket now positive past with ⟨emptied, same⟩ | ⟨last, burst, drained, same, held, phase, reached, _⟩
  · rw [same]
    refine ⟨Nat.le_refl now, Nat.zero_le capacity, cost.imp_right ?_⟩
    intro cost
    simp only
    omega
  · rw [same]
    refine ⟨reached, by simp only; omega, cost.imp_right ?_⟩
    intro cost
    have shared : (bucket.burst + 1) * period = (burst + 1) * period + drained * period := by rw [held]; ring
    simp only
    omega

/-- One request, counted when it is accepted no earlier than `start`. -/
theorem Paced.offer {start count now : ℕ} {bucket : Bucket} (positive : 0 < period)
    (paced : Paced capacity period start count now (some bucket)) (inside : Bool) (since : inside = true → start ≤ now) :
    Paced capacity period start (count + if (offer capacity period bucket now).1 && inside then 1 else 0) now
      (some (offer capacity period bucket now).2) := by
  have recent := lt_drain_last period bucket now positive paced.1
  obtain ⟨past, held, cost⟩ := paced.drain positive
  by_cases room : (LeakyBucket.drain period bucket now).burst < capacity
  · have grown : ((LeakyBucket.drain period bucket now).burst + 1 + 1) * period =
        ((LeakyBucket.drain period bucket now).burst + 1) * period + period := Nat.succ_mul _ _
    rw [LeakyBucket.offer, if_pos room, Bool.true_and]
    refine ⟨past, room, ?_⟩
    cases inside with
    | false =>
      apply cost.imp_right
      intro cost
      simp only [Bool.false_eq_true, if_false, Nat.add_zero]
      omega
    | true =>
      -- The first counted request pays with the period that `last` is still short of `now`.
      right
      have more : (count + 1) * period = count * period + period := Nat.succ_mul _ _
      have one : period ≤ ((LeakyBucket.drain period bucket now).burst + 1) * period :=
        Nat.le_mul_of_pos_left period (Nat.succ_pos _)
      have begun := since rfl
      simp only [if_true]
      rcases cost with first | cost
      · rw [first, Nat.zero_mul] at more
        rw [first]
        omega
      · omega
  · rw [LeakyBucket.offer, if_neg room]
    exact ⟨past, held, cost⟩

/-- Inside a window of `width` the count is at most the capacity and one request for each period begun. -/
theorem Paced.bound {start count now width : ℕ} {bucket : Bucket} (positive : 0 < period)
    (paced : Paced capacity period start count now (some bucket)) (inside : now ≤ start + width) :
    count ≤ capacity + (width + (period - 1)) / period := by
  obtain ⟨past, room, first | cost⟩ := paced
  · rw [first]
    exact Nat.zero_le _
  · by_contra above
    have many := Nat.mul_le_mul_right period (show capacity + (width + (period - 1)) / period + 1 ≤ count by omega)
    have full := Nat.mul_le_mul_right period (Nat.succ_le_succ room)
    have whole := Nat.div_add_mod (width + (period - 1)) period
    have part := Nat.mod_lt (width + (period - 1)) positive
    have spread : (capacity + (width + (period - 1)) / period + 1) * period =
        (capacity + 1) * period + period * ((width + (period - 1)) / period) := by ring
    simp only [Nat.succ_eq_add_one] at full
    omega

/-! ## The lower bound -/

/-- At most the capacity and one request for each whole period, in every window. -/
def Sparse (capacity period : ℕ) (arrivals : List ℕ) : Prop :=
  ∀ start width, arrivals.countP (fun time => start ≤ time && time ≤ start + width) ≤ capacity + width / period

/-- What a bucket holds is backed by arrivals since a moment when it was empty. -/
def Backed (period : ℕ) (arrivals : List ℕ) (bucket : Bucket) : Prop :=
  ∃ since, since ≤ bucket.last ∧
    bucket.burst * period + bucket.last ≤ arrivals.countP (fun time => since ≤ time) * period + since

theorem Sparse.prefix {before after : List ℕ} (sparse : Sparse capacity period (before ++ after)) :
    Sparse capacity period before := by
  intro start width
  have total := sparse start width
  rw [List.countP_append] at total
  omega

theorem backed_create (arrivals : List ℕ) (now : ℕ) : Backed period arrivals ⟨now, 0⟩ :=
  ⟨now, Nat.le_refl now, by simp⟩

theorem Backed.drain {arrivals : List ℕ} {bucket : Bucket} {now : ℕ} (positive : 0 < period)
    (backed : Backed period arrivals bucket) (past : bucket.last ≤ now) :
    Backed period arrivals (drain period bucket now) := by
  obtain ⟨since, begun, cost⟩ := backed
  rcases drain_cases period bucket now positive past with ⟨_, same⟩ | ⟨last, burst, drained, same, held, phase, _, _⟩
  · rw [same]
    exact backed_create arrivals now
  · rw [same]
    have shared : bucket.burst * period = burst * period + drained * period := by rw [held]; ring
    exact ⟨since, by simp only; omega, by simp only; omega⟩

theorem Backed.offer {arrivals : List ℕ} {bucket : Bucket} {now : ℕ} (positive : 0 < period)
    (backed : Backed period arrivals bucket) (past : bucket.last ≤ now) :
    Backed period (arrivals ++ [now]) (LeakyBucket.offer capacity period bucket now).2 := by
  obtain ⟨since, begun, cost⟩ := backed.drain positive past
  have reached := drain_last_le period bucket now
  have arrived : (arrivals ++ [now]).countP (fun time => since ≤ time) =
      arrivals.countP (fun time => since ≤ time) + 1 := by
    rw [List.countP_append, List.countP_singleton, if_pos (by simp only [decide_eq_true_eq]; omega)]
  have more : (arrivals.countP (fun time => since ≤ time) + 1) * period =
      arrivals.countP (fun time => since ≤ time) * period + period := Nat.succ_mul _ _
  refine ⟨since, by rw [offer_last]; exact begun, ?_⟩
  rw [arrived, offer_last, more, LeakyBucket.offer]
  split
  · have grown : ((LeakyBucket.drain period bucket now).burst + 1) * period =
        (LeakyBucket.drain period bucket now).burst * period + period := Nat.succ_mul _ _
    simp only
    omega
  · simp only
    omega

/-- A source that keeps to the rate finds room in its bucket: a full bucket counts back to more arrivals than the
window since it was empty allows. -/
theorem Backed.accepted {arrivals : List ℕ} {bucket : Bucket} {now : ℕ} (positive : 0 < period)
    (backed : Backed period arrivals bucket) (past : bucket.last ≤ now) (seen : ∀ time ∈ arrivals, time ≤ now)
    (sparse : Sparse capacity period (arrivals ++ [now])) : (LeakyBucket.offer capacity period bucket now).1 = true := by
  rw [LeakyBucket.offer]
  by_cases room : (LeakyBucket.drain period bucket now).burst < capacity
  · rw [if_pos room]
  exfalso
  have recent := lt_drain_last period bucket now positive past
  have reached := drain_last_le period bucket now
  obtain ⟨since, begun, cost⟩ := backed.drain positive past
  have window := sparse since (now - since)
  have same : arrivals.countP (fun time => since ≤ time && time ≤ since + (now - since)) =
      arrivals.countP (fun time => since ≤ time) := by
    apply List.countP_congr
    intro time member
    have before := seen time member
    simp only [Bool.and_eq_true, decide_eq_true_eq]
    omega
  rw [List.countP_append, same, List.countP_singleton,
    if_pos (by simp only [Bool.and_eq_true, decide_eq_true_eq]; omega)] at window
  have full := Nat.mul_le_mul_right period (Nat.le_of_not_lt room)
  have rate := Nat.mul_le_mul_right period window
  have whole := Nat.div_mul_le_self (now - since) period
  have spread : (arrivals.countP (fun time => since ≤ time) + 1) * period =
      arrivals.countP (fun time => since ≤ time) * period + period := Nat.succ_mul _ _
  have sum : (capacity + (now - since) / period) * period =
      capacity * period + (now - since) / period * period := Nat.add_mul _ _ _
  omega

end YbeProxy.LeakyBucket
