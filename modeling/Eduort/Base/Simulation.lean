/-!
# Labelled runs and simulation

A system takes labelled steps. What every step preserves holds along a run, and when each step of
one system can be matched by a step of another with the same label, so can a whole run.
-/

namespace Eduort.Base

universe u v w

variable {σ : Type u} {τ : Type v} {α : Type w}

/-- The states that labelled steps lead to, with the labels in order. -/
inductive Trace (step : σ → α → σ → Prop) (s : σ) : List α → σ → Prop
  | start : Trace step s [] s
  | next {labels : List α} {t t' : σ} {a : α} (run : Trace step s labels t) (h : step t a t') :
      Trace step s (labels ++ [a]) t'

namespace Trace

variable {step step' : σ → α → σ → Prop} {s t : σ} {labels : List α}

/-- Invariant rule: what holds at the start and survives every step holds along the run. -/
theorem invariant {Inv : σ → Prop} (run : Trace step s labels t) (start : Inv s)
    (next : ∀ t a t', Inv t → step t a t' → Inv t') : Inv t := by
  induction run with
  | start => exact start
  | next _ h ih => exact next _ _ _ ih h

/-- A run of steps that are steps of another system too. -/
theorem mono (run : Trace step s labels t) (h : ∀ t a t', step t a t' → step' t a t') :
    Trace step' s labels t := by
  induction run with
  | start => exact .start
  | next _ hstep ih => exact .next ih (h _ _ _ hstep)

end Trace

/-- Related states stay related: each step is matched by one with the same label. -/
def Simulates (step : σ → α → σ → Prop) (spec : τ → α → τ → Prop) (R : σ → τ → Prop) : Prop :=
  ∀ s t a s', R s t → step s a s' → ∃ t', spec t a t' ∧ R s' t'

/-- Simulation rule: so is a whole run. -/
theorem Simulates.run {step : σ → α → σ → Prop} {spec : τ → α → τ → Prop} {R : σ → τ → Prop}
    (h : Simulates step spec R) {s s' : σ} {t : τ} {labels : List α} (hstart : R s t)
    (run : Trace step s labels s') : ∃ t', Trace spec t labels t' ∧ R s' t' := by
  induction run with
  | start => exact ⟨t, .start, hstart⟩
  | next _ hstep ih =>
    obtain ⟨t₁, hrun, hrelated⟩ := ih
    obtain ⟨t', hspec, hrelated'⟩ := h _ _ _ _ hrelated hstep
    exact ⟨t', .next hrun hspec, hrelated'⟩

end Eduort.Base
