import Mathlib.Data.List.Basic

/-!
# Runs of a machine that answers each event

A machine takes a state and an event to an answer and a next state. The trace of a run pairs every event with its
answer; the rules below carry an invariant, and a count of marked answers, along a run.
-/

namespace YbeProxy.Runs

variable {σ ε δ : Type} (step : σ → ε → δ × σ)

def trace : σ → List ε → List (ε × δ)
  | _, [] => []
  | state, event :: rest => (event, (step state event).1) :: trace (step state event).2 rest

def final : σ → List ε → σ
  | state, [] => state
  | state, event :: rest => final (step state event).2 rest

theorem final_append (state : σ) (before after : List ε) :
    final step state (before ++ after) = final step (final step state before) after := by
  induction before generalizing state with
  | nil => rfl
  | cons event rest hypothesis => simp only [List.cons_append, final, hypothesis]

theorem trace_append (state : σ) (before after : List ε) :
    trace step state (before ++ after) = trace step state before ++ trace step (final step state before) after := by
  induction before generalizing state with
  | nil => rfl
  | cons event rest hypothesis => simp only [List.cons_append, trace, final, hypothesis]

theorem final_concat (state : σ) (events : List ε) (event : ε) :
    final step state (events ++ [event]) = (step (final step state events) event).2 := by
  rw [final_append, final, final]

theorem trace_concat (state : σ) (events : List ε) (event : ε) :
    trace step state (events ++ [event]) =
      trace step state events ++ [(event, (step (final step state events) event).1)] := by
  rw [trace_append, trace, trace]

/-- The events of a trace are those of the run. -/
theorem trace_fst (state : σ) (events : List ε) : (trace step state events).map Prod.fst = events := by
  induction events generalizing state with
  | nil => rfl
  | cons event rest hypothesis => rw [trace, List.map_cons, hypothesis]

/-- What every event of a run keeps holds at its end. -/
theorem final_keeps (Inv : σ → Prop) {events : List ε}
    (keeps : ∀ event ∈ events, ∀ state, Inv state → Inv (step state event).2)
    (state : σ) (initially : Inv state) : Inv (final step state events) := by
  induction events generalizing state with
  | nil => exact initially
  | cons event rest hypothesis =>
    apply hypothesis
    · intro later member
      exact keeps later (List.mem_cons_of_mem event member)
    · exact keeps event List.mem_cons_self state initially

/-- The same for steps that keep it only where a condition on their state holds. -/
theorem final_keeps_at (Condition : σ → ε → Prop) (Inv : σ → Prop) {events : List ε}
    (keeps : ∀ event ∈ events, ∀ state, Inv state → Condition state event → Inv (step state event).2)
    (state : σ) (each : ∀ before event after, events = before ++ event :: after → Condition (final step state before) event)
    (initially : Inv state) : Inv (final step state events) := by
  induction events generalizing state with
  | nil => exact initially
  | cons event rest hypothesis =>
    apply hypothesis
    · intro later member
      exact keeps later (List.mem_cons_of_mem event member)
    · intro before later after split
      exact each (event :: before) later after (by rw [split, List.cons_append])
    · exact keeps event List.mem_cons_self state initially (each [] event rest rfl)

/-- An invariant of the trace so far and the state, kept by every step, holds at the end of a run. -/
theorem trace_keeps (Inv : List (ε × δ) → σ → Prop)
    (keeps : ∀ past state event, Inv past state → Inv (past ++ [(event, (step state event).1)]) (step state event).2)
    (past : List (ε × δ)) (state : σ) (events : List ε) (initially : Inv past state) :
    Inv (past ++ trace step state events) (final step state events) := by
  induction events generalizing past state with
  | nil => rwa [trace, final, List.append_nil]
  | cons event rest hypothesis =>
    have next := hypothesis _ _ (keeps past state event initially)
    rwa [List.append_assoc] at next

/-- Every entry of a trace was answered in the state that the events before it lead to. -/
theorem mem_trace {state : σ} {events : List ε} {entry : ε × δ} (member : entry ∈ trace step state events) :
    ∃ before after, events = before ++ entry.1 :: after ∧ entry.2 = (step (final step state before) entry.1).1 := by
  induction events generalizing state with
  | nil => simp [trace] at member
  | cons event rest hypothesis =>
    rcases List.mem_cons.mp member with rfl | later
    · exact ⟨[], rest, rfl, rfl⟩
    · obtain ⟨before, after, split, answer⟩ := hypothesis later
      exact ⟨event :: before, after, by rw [split, List.cons_append], answer⟩

/-- Events that change no state may be left out of a run: every other event gets the same answer. -/
theorem trace_filter (quiet : ε → Bool) (still : ∀ state event, quiet event = true → (step state event).2 = state)
    (state : σ) (events : List ε) :
    trace step state (events.filter fun event => !quiet event) =
      (trace step state events).filter fun entry => !quiet entry.1 := by
  induction events generalizing state with
  | nil => rfl
  | cons event rest hypothesis =>
    cases silent : quiet event with
    | true =>
      have same := still state event silent
      simp [trace, silent, same, hypothesis]
    | false => simp [trace, silent, hypothesis]

/-! ## What a trace tells of a state -/

section Told
variable {α : Type} (read : σ → α) (after : α → ε × δ → α)

/-- A part of the state that every step changes as its entry tells is, at the end of a run, what the trace tells. -/
theorem read_final (reads : ∀ state event, read (step state event).2 = after (read state) (event, (step state event).1))
    (state : σ) (events : List ε) :
    read (final step state events) = (trace step state events).foldl after (read state) := by
  induction events generalizing state with
  | nil => rfl
  | cons event rest hypothesis => rw [final, hypothesis, reads, trace, List.foldl_cons]

end Told

/-! ## Two machines on the same events -/

section TwoMachines
variable {τ : Type} (other : τ → ε → δ × τ)

/-- A condition on each event of a run and on the states in which the two machines meet it. -/
def AtEach (Condition : σ → τ → ε → Prop) (state : σ) (twin : τ) (events : List ε) : Prop :=
  ∀ before event after, events = before ++ event :: after →
    Condition (final step state before) (final other twin before) event

variable {Condition : σ → τ → ε → Prop}

theorem atEach_nil (state : σ) (twin : τ) : AtEach step other Condition state twin [] := by
  intro before event after split
  simp at split

theorem atEach_cons {state : σ} {twin : τ} {event : ε} {rest : List ε} :
    AtEach step other Condition state twin (event :: rest) ↔
      Condition state twin event ∧ AtEach step other Condition (step state event).2 (other twin event).2 rest := by
  constructor
  · intro holds
    constructor
    · exact holds [] event rest rfl
    · intro before next after split
      exact holds (event :: before) next after (by rw [split, List.cons_append])
  · rintro ⟨first, later⟩ before next after split
    cases before with
    | nil =>
      obtain ⟨rfl, _⟩ := List.cons.inj split
      exact first
    | cons head before =>
      obtain ⟨rfl, tail⟩ := List.cons.inj split
      exact later before next after tail

instance decidableAtEach [∀ state twin event, Decidable (Condition state twin event)] :
    ∀ events state twin, Decidable (AtEach step other Condition state twin events)
  | [], state, twin => isTrue (atEach_nil step other state twin)
  | event :: rest, state, twin =>
    have := decidableAtEach rest (step state event).2 (other twin event).2
    decidable_of_iff _ (atEach_cons step other).symm

/-- The simulation rule: a relation that every step keeps, with equal answers, where the condition holds, makes the
traces of two runs equal. -/
theorem trace_eq_of_simulates (Related : σ → τ → Prop)
    (simulates : ∀ state twin event, Related state twin → Condition state twin event →
      (step state event).1 = (other twin event).1 ∧ Related (step state event).2 (other twin event).2)
    {state : σ} {twin : τ} (events : List ε) (initially : Related state twin)
    (holds : AtEach step other Condition state twin events) :
    trace step state events = trace other twin events := by
  induction events generalizing state twin with
  | nil => rfl
  | cons event rest hypothesis =>
    obtain ⟨condition, tail⟩ := (atEach_cons step other).mp holds
    obtain ⟨answer, related⟩ := simulates state twin event initially condition
    rw [trace, trace, answer, hypothesis related tail]

end TwoMachines

/-! ## Counting along a clock -/

variable (time : ε → ℕ) (marked : ε × δ → Bool)

/-- The rule for counts: an invariant that ties the count so far, the clock and the state, that survives the clock
moving on and every step, and that bounds the count, bounds the marked answers of a whole run. -/
theorem countP_trace_le (Inv : ℕ → ℕ → σ → Prop) (bound : ℕ)
    (later : ∀ count now next state, now ≤ next → Inv count now state → Inv count next state)
    (keeps : ∀ count state event, Inv count (time event) state →
      Inv (count + if marked (event, (step state event).1) then 1 else 0) (time event) (step state event).2)
    (bounds : ∀ count now state, Inv count now state → count ≤ bound)
    (count now : ℕ) (state : σ) (events : List ε) (ordered : events.Pairwise fun a b => time a ≤ time b)
    (future : ∀ event ∈ events, now ≤ time event) (initially : Inv count now state) :
    count + (trace step state events).countP marked ≤ bound := by
  induction events generalizing count now state with
  | nil => exact bounds count now state initially
  | cons event rest hypothesis =>
    obtain ⟨next, tail⟩ := List.pairwise_cons.mp ordered
    have arrived := later count now (time event) state (future event List.mem_cons_self) initially
    have counted := hypothesis _ (time event) _ tail next (keeps count state event arrived)
    simp only [trace, List.countP_cons]
    omega

end YbeProxy.Runs
