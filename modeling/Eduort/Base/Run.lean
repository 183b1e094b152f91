/-!
# Runs of a step function

A loop is a step function that has no next state once the loop has stopped. A run counts its
steps, so that what holds in every iteration and how often the loop iterates are statements
about one object.
-/

namespace Eduort.Base

universe u

variable {σ : Type u} {step : σ → Option σ}

/-- The states a loop passes through, with the number of iterations so far. -/
inductive Run (step : σ → Option σ) (s : σ) : Nat → σ → Prop
  | start : Run step s 0 s
  | next {k : Nat} {t t' : σ} (run : Run step s k t) (h : step t = some t') : Run step s (k + 1) t'

namespace Run

variable {s t : σ} {k : Nat}

/-- Invariant rule: what holds at the start and survives every step holds along the run. -/
theorem invariant (Inv : Nat → σ → Prop) (start : Inv 0 s)
    (next : ∀ k t t', Inv k t → step t = some t' → Inv (k + 1) t') (run : Run step s k t) :
    Inv k t := by
  induction run with
  | start => exact start
  | next _ h ih => exact next _ _ _ ih h

/-- A step in front of a run. -/
theorem cons {s' : σ} (h : step s = some s') (run : Run step s' k t) : Run step s (k + 1) t := by
  induction run with
  | start => exact .next .start h
  | next _ hlast ih => exact .next ih hlast

/-- A run that is not empty begins with a step. -/
theorem exists_cons (run : Run step s (k + 1) t) :
    ∃ s', step s = some s' ∧ Run step s' k t := by
  induction k generalizing t with
  | zero =>
    cases run with
    | next run h =>
      cases run
      exact ⟨t, h, .start⟩
  | succ k ih =>
    cases run with
    | next run h =>
      obtain ⟨s', hs, hrest⟩ := ih run
      exact ⟨s', hs, .next hrest h⟩

/-- A stopped loop stays where it is. -/
theorem eq_of_stopped (h : step s = none) (run : Run step s k t) : k = 0 ∧ t = s := by
  cases k with
  | zero =>
    cases run
    exact ⟨rfl, rfl⟩
  | succ k =>
    obtain ⟨s', hs, -⟩ := run.exists_cons
    rw [h] at hs
    cases hs

end Run
end Eduort.Base
