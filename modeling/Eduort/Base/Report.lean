import Eduort.Base.Fold

/-!
# Reporting the first error

A checking function keeps sets and maps while it runs and stops at the first error. What it
reports is the head of a list that can be written down without that state: all errors of the
input in the order of the checks. The rules here follow the shape of the function.
-/

namespace Eduort.Base

universe u v

variable {ε : Type u} {ε' : Type u} {α : Type v} {β : Type v}

/-- The first error, or the value if there is none. -/
def report (errors : List ε) (a : α) : Except ε α :=
  match errors with
  | [] => .ok a
  | e :: _ => .error e

/-- The computation raises the first of these errors, or has a result with the property if
there are none. -/
def Reports (x : Except ε α) (errors : List ε) (Post : α → Prop) : Prop :=
  match errors with
  | [] => ∃ a, x = .ok a ∧ Post a
  | e :: _ => x = .error e

/-- The errors of a list whose elements are checked against those in front of them. -/
def along (errors : List α → α → List ε) : List α → List α → List ε
  | _, [] => []
  | front, x :: xs => errors front x ++ along errors (front ++ [x]) xs

theorem along_const (errors : α → List ε) (front xs : List α) :
    along (fun _ ↦ errors) front xs = xs.flatMap errors := by
  induction xs generalizing front with
  | nil => rfl
  | cons x xs ih => rw [along, ih, List.flatMap_cons]

/-- Renaming the errors. -/
theorem along_map (f : ε → ε') (errors : List α → α → List ε) (front xs : List α) :
    along (fun front x ↦ (errors front x).map f) front xs = (along errors front xs).map f := by
  induction xs generalizing front with
  | nil => rfl
  | cons x xs ih => rw [along, along, ih, List.map_append]

/-- Lists that are alike element by element have the same errors, if the checks do not tell them
apart. -/
theorem along_forall₂ {R : α → α → Prop} {errors errors' : List α → α → List ε}
    (h : ∀ front front' x x', List.Forall₂ R front front' → R x x' →
      errors front x = errors' front' x')
    {front front' xs xs' : List α} (hfront : List.Forall₂ R front front')
    (hxs : List.Forall₂ R xs xs') : along errors front xs = along errors' front' xs' := by
  induction hxs generalizing front front' with
  | nil => rfl
  | @cons x x' xs xs' hx _ ih =>
    have hnext : List.Forall₂ R (front ++ [x]) (front' ++ [x']) :=
      List.rel_append hfront (.cons hx .nil)
    rw [along, along, h front front' x x' hfront hx, ih hnext]

theorem flatMap_forall₂ {R : α → α → Prop} {errors errors' : α → List ε}
    (h : ∀ x x', R x x' → errors x = errors' x') {xs xs' : List α}
    (hxs : List.Forall₂ R xs xs') : xs.flatMap errors = xs'.flatMap errors' := by
  rw [← along_const errors [], ← along_const errors' []]
  exact along_forall₂ (fun _ _ x x' _ hx ↦ h x x' hx) .nil hxs

namespace Reports

variable {x : Except ε α} {errors errors' : List ε} {Post Post' : α → Prop}

theorem ok {a : α} (h : Post a) : Reports (.ok a : Except ε α) [] Post := ⟨a, rfl, h⟩

theorem error {e : ε} (rest : List ε) : Reports (.error e) (e :: rest) Post := rfl

/-- A weaker property. -/
theorem mono (h : Reports x errors Post) (himp : ∀ a, x = .ok a → Post a → Post' a) :
    Reports x errors Post' := by
  cases errors with
  | nil =>
    obtain ⟨a, hx, ha⟩ := h
    exact ⟨a, hx, himp a hx ha⟩
  | cons e rest => exact h

/-- The errors of a sequence are those of its parts, in their order. -/
theorem bind {f : α → Except ε β} {PostB : β → Prop} (h : Reports x errors Post)
    (next : ∀ a, x = .ok a → Post a → Reports (f a) errors' PostB) :
    Reports (x >>= f) (errors ++ errors') PostB := by
  cases errors with
  | nil =>
    obtain ⟨a, rfl, ha⟩ := h
    exact next a rfl ha
  | cons e rest =>
    have hx : x = .error e := h
    rw [hx]
    exact error _

/-- A check in front of the rest adds its own error. -/
theorem check {c : Prop} [Decidable c] {e : ε} (h : ¬ c → Reports x errors Post) :
    Reports (if c then .error e else x) ((if c then [e] else []) ++ errors) Post := by
  by_cases hc : c
  · rw [if_pos hc, if_pos hc]
    exact error _
  · rw [if_neg hc, if_neg hc]
    exact h hc

/-- Renaming the errors. -/
theorem mapError (f : ε → ε') (h : Reports x errors Post) :
    Reports (x.mapError f) (errors.map f) Post := by
  cases errors with
  | nil =>
    obtain ⟨a, rfl, ha⟩ := h
    exact ok ha
  | cons e rest =>
    have hx : x = .error e := h
    rw [hx]
    exact error _

/-- Loop rule: an invariant of the state decides the errors of the next iteration. -/
theorem foldlM {f : β → α → Except ε β} (Inv : List α → β → Prop)
    (errorsAt : List α → α → List ε) (xs front : List α) {s : β} (start : Inv front s)
    (step : ∀ front, ∀ x ∈ xs, ∀ s, Inv front s →
      Reports (f s x) (errorsAt front x) (Inv (front ++ [x]))) :
    Reports (xs.foldlM f s) (along errorsAt front xs) (Inv (front ++ xs)) := by
  induction xs generalizing front s with
  | nil =>
    rw [List.append_nil]
    exact ok start
  | cons x xs ih =>
    rw [List.foldlM_cons, along]
    apply (step front x List.mem_cons_self s start).bind
    intro s' _ hs'
    have hrest := ih (front ++ [x]) hs' fun front y hy ↦ step front y (List.mem_cons_of_mem x hy)
    rwa [List.append_assoc, List.singleton_append] at hrest

/-- A loop that fills a vector with the images of the elements. -/
theorem pushM {γ : Type v} {f : α → Except ε γ} {errorsAt : α → List ε} {image : α → γ}
    (h : ∀ x, Reports (f x) (errorsAt x) (· = image x)) (out : List γ) (xs : List α) :
    Reports (xs.foldlM (Base.pushM f) out) (xs.flatMap errorsAt) (· = out ++ xs.map image) := by
  have hloop := foldlM (fun front s ↦ s = out ++ front.map image) (fun _ ↦ errorsAt)
    (f := Base.pushM f) xs [] (List.append_nil out).symm <| by
      intro front x _ s hs
      rw [Base.pushM, ← List.append_nil (errorsAt x)]
      apply (h x).bind
      rintro y - rfl
      apply ok
      rw [hs, List.map_append, List.append_assoc, List.map_singleton]
  rwa [along_const, List.nil_append] at hloop

/-- A loop of checks. -/
theorem forM {f : α → Except ε PUnit} {errorsAt : α → List ε} (xs : List α)
    (h : ∀ x ∈ xs, Reports (f x) (errorsAt x) fun _ ↦ True) :
    Reports (forM xs f) (xs.flatMap errorsAt) fun _ ↦ True := by
  induction xs with
  | nil => exact ok trivial
  | cons x xs ih =>
    rw [List.forM_cons, List.flatMap_cons]
    apply (h x List.mem_cons_self).bind
    intro _ _ _
    exact ih fun y hy ↦ h y (List.mem_cons_of_mem x hy)

/-- A computation whose result is known is a report. -/
theorem eq_report {a : α} (h : Reports x errors (· = a)) : x = report errors a := by
  cases errors with
  | nil =>
    obtain ⟨_, hx, rfl⟩ := h
    exact hx
  | cons e rest => exact h

end Reports

end Eduort.Base
