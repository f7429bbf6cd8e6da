import YbeProxy.Runs
import Mathlib.Data.List.Induction

/-!
# Fixed windows on a discrete clock

The first request after a window has closed opens the next one, and a window takes `burst` requests, the one that opens
it among them. Over a run of requests in the order of time, what is accepted in any span of time is bounded, and a
request is refused only where `burst` others came within the period before it.
-/

namespace YbeProxy.FixedWindow
open YbeProxy.Runs

/-- The moment at which the window closes, and the requests that have come since it was opened. -/
structure Window where
  closes : ℕ
  count : ℕ
deriving DecidableEq

variable (burst period : ℕ)

/-- One request: it opens a window, or it is accepted while the open one takes more. -/
def offer (window : Window) (now : ℕ) : Bool × Window :=
  if now < window.closes then (window.count + 1 < burst, ⟨window.closes, window.count + 1⟩)
  else (true, ⟨now + period, 0⟩)

theorem offer_open {window : Window} {now : ℕ} (early : now < window.closes) :
    offer burst period window now = (decide (window.count + 1 < burst), ⟨window.closes, window.count + 1⟩) :=
  if_pos early

theorem offer_closed {window : Window} {now : ℕ} (late : window.closes ≤ now) :
    offer burst period window now = (true, ⟨now + period, 0⟩) :=
  if_neg (Nat.not_lt.mpr late)

/-- A window closes at most a period after the last request. -/
theorem offer_closes_le {window : Window} {now : ℕ} (near : window.closes ≤ now + period) :
    (offer burst period window now).2.closes ≤ now + period := by
  rw [offer]
  split
  · exact near
  · exact Nat.le_refl _

theorem offer_count_le (window : Window) (now : ℕ) : (offer burst period window now).2.count ≤ window.count + 1 := by
  rw [offer]
  split
  · exact Nat.le_refl _
  · exact Nat.zero_le _

/-! ## The upper bound -/

/-- What a span takes at most: all of the windows that are opened in it, and of the window before them all but the
request that opened it. -/
def most (width : ℕ) : ℕ := burst * (width / period + 1) + (burst - 1)

/-- What bounds the `count` requests accepted from `start` to `start + width`: each window that was opened there took
`burst` of them and a period, and what the open window still takes is left over. -/
structure Paced (start width count now : ℕ) (window : Window) : Prop where
  none : now < start → count = 0
  bound : count ≤ most burst period width
  near : window.closes ≤ now + period
  opened : now ≤ start + width → ∃ opened, count + (burst - 1 - window.count) ≤ burst * opened + (burst - 1) ∧
    (opened = 0 ∨ start + opened * period ≤ window.closes)

variable {burst period}

theorem Paced.later {start width count now next : ℕ} {window : Window}
    (paced : Paced burst period start width count now window) (after : now ≤ next) :
    Paced burst period start width count next window where
  none early := paced.none (Nat.lt_of_le_of_lt after early)
  bound := paced.bound
  near := Nat.le_trans paced.near (Nat.add_le_add_right after period)
  opened inside := paced.opened (Nat.le_trans after inside)

/-- Windows that were opened one after the other, the last of them no later than `width` behind the first. -/
theorem opened_le {start width opened closes : ℕ} (positive : 0 < period)
    (spaced : opened = 0 ∨ start + opened * period ≤ closes) (last : closes ≤ start + width) : opened ≤ width / period := by
  rcases spaced with rfl | spaced
  · exact Nat.zero_le _
  · exact (Nat.le_div_iff_mul_le positive).mpr (by omega)

theorem Paced.offer {start width count now : ℕ} {window : Window} (takes : 0 < burst) (positive : 0 < period)
    (paced : Paced burst period start width count now window) (inside : Bool)
    (within : inside = true ↔ start ≤ now ∧ now ≤ start + width) :
    Paced burst period start width (count + if (offer burst period window now).1 && inside then 1 else 0) now
      (offer burst period window now).2 := by
  have near : (FixedWindow.offer burst period window now).2.closes ≤ now + period := offer_closes_le burst period paced.near
  by_cases early : now < window.closes
  · rw [offer_open burst period early] at near ⊢
    cases inside with
    | false =>
      simp only [Bool.and_false, Bool.false_eq_true, if_false, Nat.add_zero]
      refine ⟨paced.none, paced.bound, near, ?_⟩
      intro begun
      obtain ⟨opened, room, spaced⟩ := paced.opened begun
      exact ⟨opened, by simp only; omega, spaced⟩
    | true =>
      obtain ⟨begun, ended⟩ := within.mp rfl
      obtain ⟨opened, room, spaced⟩ := paced.opened ended
      have few : opened ≤ (width + period) / period := opened_le positive spaced (by have := paced.near; omega)
      rw [Nat.add_div_right width positive] at few
      have all := Nat.mul_le_mul_left burst few
      simp only [Bool.and_true, decide_eq_true_eq]
      have counted : (count + if window.count + 1 < burst then 1 else 0) + (burst - 1 - (window.count + 1)) ≤
          burst * opened + (burst - 1) := by split <;> omega
      refine ⟨by omega, ?_, near, fun _ => ⟨opened, counted, spaced⟩⟩
      rw [most]
      omega
  · have late := Nat.le_of_not_lt early
    rw [offer_closed burst period late] at near ⊢
    cases inside with
    | false =>
      simp only [Bool.and_false, Bool.false_eq_true, if_false, Nat.add_zero]
      refine ⟨paced.none, paced.bound, near, ?_⟩
      intro begun
      -- The span has not begun: nothing is counted and no window of it is open.
      have before : now < start := by
        by_contra reached
        exact Bool.noConfusion (within.mpr ⟨Nat.le_of_not_lt reached, begun⟩)
      exact ⟨0, by rw [paced.none before]; simp, Or.inl rfl⟩
    | true =>
      obtain ⟨begun, ended⟩ := within.mp rfl
      obtain ⟨opened, room, spaced⟩ := paced.opened ended
      have few := Nat.mul_le_mul_left burst (opened_le positive spaced (Nat.le_trans late ended))
      have one := Nat.mul_succ burst opened
      have all := Nat.mul_succ burst (width / period)
      have more := Nat.succ_mul opened period
      simp only [Nat.succ_eq_add_one] at one all more
      simp only [Bool.and_true, if_true]
      refine ⟨by omega, by rw [most]; omega, near, fun _ => ⟨opened + 1, ?_, Or.inr ?_⟩⟩
      · simp only
        omega
      · simp only
        rcases spaced with rfl | spaced <;> omega

/-! ## The lower bound -/

variable (burst period)

/-- No window is open at `start` or later, or all the requests it counts came after it was opened. -/
def Filled (start : ℕ) (past : List ℕ) (window : Window) : Prop :=
  window.closes ≤ start ∨ window.count + 1 ≤ past.countP fun time => window.closes ≤ time + period

variable {burst period}

theorem Filled.offer {start now : ℕ} {past : List ℕ} {window : Window} (filled : Filled period start past window)
    (begun : start ≤ now) (near : window.closes ≤ now + period) :
    Filled period start (past ++ [now]) (offer burst period window now).2 := by
  right
  by_cases early : now < window.closes
  · rw [offer_open burst period early]
    rcases filled with closed | full
    · omega
    · simpa [near] using full
  · rw [offer_closed burst period (Nat.le_of_not_lt early)]
    simp

theorem Filled.refused {start now : ℕ} {past : List ℕ} {window : Window} (filled : Filled period start past window)
    (begun : start ≤ now) (refused : (FixedWindow.offer burst period window now).1 = false) :
    burst ≤ past.countP fun time => now < time + period := by
  by_cases early : now < window.closes
  · rw [offer_open burst period early, decide_eq_false_iff_not] at refused
    rcases filled with closed | full
    · omega
    · have recent : past.countP (fun time => window.closes ≤ time + period) ≤
          past.countP fun time => now < time + period := by
        refine List.countP_mono_left ?_
        intro time _ since
        simp only [decide_eq_true_eq] at since ⊢
        omega
      omega
  · rw [offer_closed burst period (Nat.le_of_not_lt early)] at refused
    cases refused

/-! ## Runs -/

section
variable {ε : Type} (asks : ε → Bool) (time : ε → ℕ)

/-- Of the events that a window meets some are requests. -/
def serve (burst period : ℕ) (window : Window) (event : ε) : Bool × Window :=
  if asks event then FixedWindow.offer burst period window (time event) else (false, window)

variable {asks time}

theorem serve_asked {window : Window} {event : ε} (asked : asks event = true) :
    serve asks time burst period window event = FixedWindow.offer burst period window (time event) :=
  if_pos asked

theorem serve_other {window : Window} {event : ε} (other : asks event = false) :
    serve asks time burst period window event = (false, window) := by
  rw [serve, other, if_neg Bool.false_ne_true]

/-- The window after a run has counted no more than the events of it. -/
theorem final_count_le (window : Window) (events : List ε) :
    (final (serve asks time burst period) window events).count ≤ window.count + events.length := by
  induction events generalizing window with
  | nil => exact Nat.le_refl _
  | cons event rest hypothesis =>
    have counted : (serve asks time burst period window event).2.count ≤ window.count + 1 := by
      rw [serve]
      split
      · exact offer_count_le burst period window (time event)
      · exact Nat.le_succ _
    have later := hypothesis (serve asks time burst period window event).2
    rw [final, List.length_cons]
    omega

/-- In any span of time, however the requests come, at most so many are accepted. -/
theorem accepted_le (takes : 0 < burst) (positive : 0 < period) {events : List ε}
    (ordered : events.Pairwise fun a b => time a ≤ time b) {first : ℕ} (future : ∀ event ∈ events, first ≤ time event)
    {window : Window} (near : window.closes ≤ first + period) (start width : ℕ) :
    (trace (serve asks time burst period) window events).countP
      (fun entry => entry.2 && (start ≤ time entry.1 && time entry.1 ≤ start + width)) ≤ most burst period width := by
  have initially : Paced burst period start width 0 first window :=
    ⟨fun _ => rfl, Nat.zero_le _, near, fun _ => ⟨0, by omega, Or.inl rfl⟩⟩
  have counted := countP_trace_le (serve asks time burst period) time
    (fun entry => entry.2 && (start ≤ time entry.1 && time entry.1 ≤ start + width))
    (Paced burst period start width) (most burst period width) (fun _ _ _ _ after paced => paced.later after) ?_
    (fun _ _ _ paced => paced.bound) 0 first window events ordered future initially
  · rwa [Nat.zero_add] at counted
  · intro count window event paced
    cases asked : asks event with
    | true =>
      rw [serve_asked asked]
      refine paced.offer takes positive _ ?_
      simp
    | false =>
      rw [serve_other asked]
      simpa using paced

/-- After a run the window counts requests of the run, and closes at most a period after the last of them. -/
theorem final_filled {events : List ε} (ordered : events.Pairwise fun a b => time a ≤ time b) {first : ℕ}
    (future : ∀ event ∈ events, first ≤ time event) {window : Window} (closed : window.closes ≤ first) :
    Filled period first ((events.filter asks).map time) (final (serve asks time burst period) window events) ∧
      ∀ now, first ≤ now → (∀ event ∈ events, time event ≤ now) →
        (final (serve asks time burst period) window events).closes ≤ now + period := by
  induction events using List.reverseRecOn with
  | nil => exact ⟨Or.inl closed, fun now begun _ => Nat.le_trans (Nat.le_trans closed begun) (Nat.le_add_right _ _)⟩
  | append_singleton before last hypothesis =>
    obtain ⟨early, _, sorted⟩ := List.pairwise_append.mp ordered
    obtain ⟨filled, near⟩ := hypothesis early fun event member => future event (List.mem_append_left _ member)
    have begun := future last (List.mem_append_right before List.mem_cons_self)
    have close := near (time last) begun fun event member => sorted event member last List.mem_cons_self
    rw [final_concat, List.filter_append]
    cases asked : asks last with
    | true =>
      rw [serve_asked asked]
      refine ⟨by simpa [asked] using filled.offer begun close, ?_⟩
      intro now _ past
      have reached := past last (List.mem_append_right before List.mem_cons_self)
      exact Nat.le_trans (offer_closes_le burst period close) (Nat.add_le_add_right reached period)
    | false =>
      rw [serve_other asked]
      refine ⟨by simpa [asked] using filled, ?_⟩
      intro now reached past
      exact near now reached fun event member => past event (List.mem_append_left _ member)

/-- A request is refused only where `burst` others came in the period up to it. -/
theorem refused_crowded {before : List ε} (ordered : before.Pairwise fun a b => time a ≤ time b) {first : ℕ}
    (future : ∀ event ∈ before, first ≤ time event) {window : Window} (closed : window.closes ≤ first) {event : ε}
    (begun : first ≤ time event) (asked : asks event = true)
    (refused : (serve asks time burst period (final (serve asks time burst period) window before) event).1 = false) :
    burst ≤ before.countP fun other => decide (time event < time other + period) && asks other := by
  rw [serve_asked asked] at refused
  have crowded := (final_filled ordered future closed).1.refused begun refused
  rwa [List.countP_map, List.countP_filter] at crowded

end

end YbeProxy.FixedWindow
