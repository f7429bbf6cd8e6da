import Mathlib.Order.Basic
import Mathlib.Tactic.Common

/-!
# Loops that end

A loop runs with fuel and tells nothing where the fuel is out. It ends if some fuel is enough, and it does where every
turn keeps an invariant and makes a measure smaller.
-/

namespace YbeProxy.WhileLoop

variable {σ τ : Type}

/-- Some fuel is enough for the result, and more of it changes nothing. -/
def Ends (run : ℕ → Option σ) (result : σ) : Prop := ∃ enough, ∀ fuel, enough ≤ fuel → run fuel = some result

theorem Ends.pure (result : σ) : Ends (fun _ => some result) result := ⟨0, fun _ _ => rfl⟩

theorem Ends.bind {run : ℕ → Option σ} {next : ℕ → σ → Option τ} {a : σ} {b : τ} (first : Ends run a)
    (second : Ends (fun fuel => next fuel a) b) : Ends (fun fuel => (run fuel).bind (next fuel)) b := by
  obtain ⟨enough, ends⟩ := first
  obtain ⟨more, ends'⟩ := second
  refine ⟨max enough more, ?_⟩
  intro fuel bound
  simp only [ends fuel (by omega), Option.bind_some]
  exact ends' fuel (by omega)

theorem Ends.map {run : ℕ → Option σ} {a : σ} (first : Ends run a) (f : σ → τ) :
    Ends (fun fuel => (run fuel).map f) (f a) := by
  obtain ⟨enough, ends⟩ := first
  refine ⟨enough, ?_⟩
  intro fuel bound
  simp only [ends fuel bound, Option.map_some]

/-- `while (guard) body`. -/
def loop (guard : σ → Bool) (body : ℕ → σ → Option σ) : ℕ → σ → Option σ
  | 0, _ => none
  | fuel + 1, state => if guard state then (body fuel state).bind (loop guard body fuel) else some state

variable {guard : σ → Bool} {body : ℕ → σ → Option σ}

theorem loop_done {state : σ} (done : guard state = false) : Ends (fun fuel => loop guard body fuel state) state := by
  refine ⟨1, ?_⟩
  intro fuel bound
  obtain ⟨rest, rfl⟩ := Nat.exists_eq_add_of_le' bound
  simp only [loop, done, Bool.false_eq_true, ↓reduceIte]

theorem loop_turn {state next result : σ} (more : guard state = true) (turn : Ends (fun fuel => body fuel state) next)
    (rest : Ends (fun fuel => loop guard body fuel next) result) :
    Ends (fun fuel => loop guard body fuel state) result := by
  obtain ⟨enough, ends⟩ := Ends.bind turn rest
  refine ⟨enough + 1, ?_⟩
  intro fuel bound
  obtain ⟨left, rfl⟩ := Nat.exists_eq_add_of_le' (Nat.le_of_add_left_le bound)
  simp only [loop, more, ↓reduceIte]
  exact ends left (by omega)

/-- The rule of total correctness. -/
theorem loop_ends (Inv : σ → Prop) (measure : σ → ℕ)
    (turn : ∀ state, Inv state → guard state = true →
      ∃ next, Ends (fun fuel => body fuel state) next ∧ Inv next ∧ measure next < measure state)
    (state : σ) (initially : Inv state) :
    ∃ result, Ends (fun fuel => loop guard body fuel state) result ∧ Inv result ∧ guard result = false := by
  induction bound : measure state using Nat.strongRecOn generalizing state with
  | _ n hypothesis =>
    cases more : guard state with
    | false => exact ⟨state, loop_done more, initially, more⟩
    | true =>
      obtain ⟨next, ends, kept, smaller⟩ := turn state initially more
      obtain ⟨result, rest, final, done⟩ := hypothesis (measure next) (bound ▸ smaller) next kept rfl
      exact ⟨result, loop_turn more ends rest, final, done⟩

end YbeProxy.WhileLoop
