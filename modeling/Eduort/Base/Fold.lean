import Mathlib.Data.List.Forall2
import Mathlib.Data.List.Induction

/-!
# Folds that may return early

A loop whose body can leave the function is a monadic fold in `Except`. A loop is
described by one relation between the processed prefix and the state after it; the
rules here turn a fact about one step into the same fact about the whole run.
-/

namespace Eduort.Base

universe u v

variable {ε : Type u} {ε' : Type u} {α : Type v} {β : Type v} {γ : Type v}

/-- A sequence succeeds exactly when both of its parts do. -/
theorem bind_eq_ok {x : Except ε α} {f : α → Except ε β} {b : β} :
    x >>= f = .ok b ↔ ∃ a, x = .ok a ∧ f a = .ok b := by
  cases x with
  | error e => simp [bind, Except.bind]
  | ok a => simp [bind, Except.bind]

/-- A sequence fails with the error of the first part that does. -/
theorem bind_eq_error {x : Except ε α} {f : α → Except ε β} {e : ε} :
    x >>= f = .error e ↔ x = .error e ∨ ∃ a, x = .ok a ∧ f a = .error e := by
  cases x with
  | error e' => simp [bind, Except.bind]
  | ok a => simp [bind, Except.bind]

/-- A returned value is the only result. -/
theorem ok_eq_ok {a b : α} : (.ok a : Except ε α) = .ok b ↔ b = a := by
  rw [Except.ok.injEq, eq_comm]

/-- A check in front of the rest of a function passes exactly when its condition fails. -/
theorem check_eq_ok {c : Prop} [Decidable c] {e : ε} {x : Except ε α} {a : α} :
    (if c then .error e else x) = .ok a ↔ ¬ c ∧ x = .ok a := by
  split
  · next h => simp [h]
  · next h => simp [h]

/-- A check in front of the rest of a function raises its own error or none. -/
theorem check_eq_error {c : Prop} [Decidable c] {e e' : ε} {x : Except ε α} :
    (if c then .error e else x) = .error e' ↔ c ∧ e = e' ∨ ¬ c ∧ x = .error e' := by
  split
  · next h => simp [h]
  · next h => simp [h]

/-- Converting the result keeps every success. -/
theorem map_eq_ok {f : α → β} {x : Except ε α} {b : β} :
    x.map f = .ok b ↔ ∃ a, x = .ok a ∧ f a = b := by
  cases x <;> simp [Except.map]

/-- Converting the result keeps every failure. -/
theorem map_eq_error {f : α → β} {x : Except ε α} {e : ε} :
    x.map f = .error e ↔ x = .error e := by
  cases x <;> simp [Except.map]

/-- Renaming the error keeps every success. -/
theorem mapError_eq_ok {f : ε → ε'} {x : Except ε α} {a : α} :
    x.mapError f = .ok a ↔ x = .ok a := by
  cases x <;> simp [Except.mapError]

/-- Renaming the error applies to every failure. -/
theorem mapError_eq_error {f : ε → ε'} {x : Except ε α} {e' : ε'} :
    x.mapError f = .error e' ↔ ∃ e, x = .error e ∧ f e = e' := by
  cases x <;> simp [Except.mapError]

/-- The error of a sequence is renamed part by part. -/
theorem mapError_bind {f : ε → ε'} {x : Except ε α} {g : α → Except ε β} :
    (x >>= g).mapError f = x.mapError f >>= fun a ↦ (g a).mapError f := by
  cases x with
  | error e => rfl
  | ok a => rfl

/-- The last iteration runs from the state the earlier ones reached. -/
theorem foldlM_concat (f : β → α → Except ε β) (init : β) (xs : List α) (x : α) :
    (xs ++ [x]).foldlM f init = xs.foldlM f init >>= fun s ↦ f s x := by
  rw [List.foldlM_append]
  simp only [List.foldlM_cons, List.foldlM_nil, bind_pure]

/-- Loop rule: a relation between processed prefix and state that starts at the initial
state and grows exactly as one iteration does describes every successful run. -/
theorem foldlM_eq_ok_iff {f : β → α → Except ε β} {init : β} (Spec : List α → β → Prop)
    (start : ∀ s, Spec [] s ↔ init = s)
    (step : ∀ xs x s', Spec (xs ++ [x]) s' ↔ ∃ s, Spec xs s ∧ f s x = .ok s')
    (xs : List α) (s : β) : xs.foldlM f init = .ok s ↔ Spec xs s := by
  induction xs using List.reverseRecOn generalizing s with
  | nil =>
    rw [List.foldlM_nil, start]
    exact ⟨Except.ok.inj, congrArg Except.ok⟩
  | append_singleton xs x ih =>
    rw [foldlM_concat, bind_eq_ok, step]
    simp only [ih]

/-- Invariant rule: what holds at the start and survives every iteration holds at the end. -/
theorem foldlM_invariant {f : β → α → Except ε β} {init final : β} (Inv : List α → β → Prop)
    (start : Inv [] init)
    (step : ∀ xs x s s', Inv xs s → f s x = .ok s' → Inv (xs ++ [x]) s')
    (xs : List α) (run : xs.foldlM f init = .ok final) : Inv xs final := by
  induction xs using List.reverseRecOn generalizing final with
  | nil =>
    rw [List.foldlM_nil] at run
    cases run
    exact start
  | append_singleton xs x ih =>
    rw [foldlM_concat, bind_eq_ok] at run
    obtain ⟨s, hs, hx⟩ := run
    exact step xs x s final (ih hs) hx

/-- Failure rule: a run fails exactly when some iteration does behind iterations that all
succeed; the rest of the list plays no part. -/
theorem foldlM_eq_error_iff {f : β → α → Except ε β} {init : β} {e : ε} (xs : List α) :
    xs.foldlM f init = .error e ↔
      ∃ front x back s, xs = front ++ x :: back ∧ front.foldlM f init = .ok s ∧
        f s x = .error e := by
  constructor
  · intro run
    induction xs using List.reverseRecOn with
    | nil => cases run
    | append_singleton xs x ih =>
      rw [foldlM_concat, bind_eq_error] at run
      rcases run with hrun | ⟨s, hs, hx⟩
      · obtain ⟨front, y, back, s, rfl, hs, hy⟩ := ih hrun
        exact ⟨front, y, back ++ [x], s, by rw [List.append_assoc, List.cons_append], hs, hy⟩
      · exact ⟨xs, x, [], s, rfl, hs, hx⟩
  · rintro ⟨front, x, back, s, rfl, hs, hx⟩
    rw [List.foldlM_append, bind_eq_error]
    refine Or.inr ⟨s, hs, ?_⟩
    rw [List.foldlM_cons, bind_eq_error]
    exact Or.inl hx

/-- A run can only fail with an error that some iteration raises. -/
theorem foldlM_eq_error {f : β → α → Except ε β} {init : β} {e : ε} (Bad : ε → Prop)
    (step : ∀ s x e, f s x = .error e → Bad e)
    (xs : List α) (run : xs.foldlM f init = .error e) : Bad e := by
  obtain ⟨-, x, -, s, -, -, hx⟩ := (foldlM_eq_error_iff xs).mp run
  exact step s x e hx

/-- A sequence can succeed exactly when its first part can and the condition of the second
part holds, if that condition is the same after every result of the first. -/
theorem bind_isOk_iff {x : Except ε α} {f : α → Except ε β} {Cond : Prop}
    (second : ∀ a, x = .ok a → ((∃ b, f a = .ok b) ↔ Cond)) :
    (∃ b, x >>= f = .ok b) ↔ (∃ a, x = .ok a) ∧ Cond := by
  simp only [bind_eq_ok]
  constructor
  · rintro ⟨b, a, hx, hb⟩
    exact ⟨⟨a, hx⟩, (second a hx).mp ⟨b, hb⟩⟩
  · rintro ⟨⟨a, hx⟩, hcond⟩
    obtain ⟨b, hb⟩ := (second a hx).mpr hcond
    exact ⟨b, a, hx, hb⟩

/-- The ways to point at an element of a list with one more element at its end. -/
theorem forall_split_concat {P : List α → α → Prop} (xs : List α) (z : α) :
    (∀ front x back, xs ++ [z] = front ++ x :: back → P front x) ↔
      (∀ front x back, xs = front ++ x :: back → P front x) ∧ P xs z := by
  constructor
  · intro hall
    refine ⟨fun front x back heq ↦ ?_, hall xs z [] rfl⟩
    exact hall front x (back ++ [z]) (by rw [heq, List.append_assoc, List.cons_append])
  · rintro ⟨hinit, hz⟩ front x back heq
    rcases List.eq_nil_or_concat back with rfl | ⟨back, y, rfl⟩
    · obtain ⟨rfl, hzx⟩ := List.append_inj' heq rfl
      exact (List.singleton_inj.mp hzx) ▸ hz
    · rw [List.concat_eq_append, ← List.cons_append, ← List.append_assoc] at heq
      exact hinit front x back (List.append_inj' heq rfl).1

/-- Acceptance rule: when an invariant decides whether the next iteration succeeds, the
whole loop succeeds exactly when every iteration does. -/
theorem foldlM_isOk_iff {f : β → α → Except ε β} {init : β} (Inv : List α → β → Prop)
    (Cond : List α → α → Prop) (start : Inv [] init)
    (step : ∀ xs x s s', Inv xs s → f s x = .ok s' → Inv (xs ++ [x]) s')
    (enabled : ∀ xs x s, Inv xs s → ((∃ s', f s x = .ok s') ↔ Cond xs x)) (xs : List α) :
    (∃ s, xs.foldlM f init = .ok s) ↔
      ∀ front x back, xs = front ++ x :: back → Cond front x := by
  induction xs using List.reverseRecOn with
  | nil => simp [pure, Except.pure]
  | append_singleton xs x ih =>
    have hlast : ∀ s, xs.foldlM f init = .ok s → ((∃ s', f s x = .ok s') ↔ Cond xs x) :=
      fun s hs ↦ enabled xs x s (foldlM_invariant Inv start step xs hs)
    rw [foldlM_concat, bind_isOk_iff hlast, ih, forall_split_concat]

/-- Acceptance rule for iterations that check the element alone and compare it with every
earlier element. -/
theorem foldlM_isOk_iff_pairwise {f : β → α → Except ε β} {init : β} (Inv : List α → β → Prop)
    (Cond : α → Prop) (R : α → α → Prop) (start : Inv [] init)
    (step : ∀ xs x s s', Inv xs s → f s x = .ok s' → Inv (xs ++ [x]) s')
    (enabled : ∀ xs x s, Inv xs s →
      ((∃ s', f s x = .ok s') ↔ Cond x ∧ ∀ y ∈ xs, R y x)) (xs : List α) :
    (∃ s, xs.foldlM f init = .ok s) ↔ (∀ x ∈ xs, Cond x) ∧ xs.Pairwise R := by
  rw [foldlM_isOk_iff Inv (fun front x ↦ Cond x ∧ ∀ y ∈ front, R y x) start step enabled]
  clear step enabled start
  induction xs using List.reverseRecOn with
  | nil => simp
  | append_singleton xs x ih =>
    rw [forall_split_concat, ih, List.forall_mem_append, List.forall_mem_singleton,
      List.pairwise_append]
    constructor
    · rintro ⟨⟨hall, hpairs⟩, hx, hxs⟩
      exact ⟨⟨hall, hx⟩, hpairs, List.pairwise_singleton _ _,
        fun y hy z hz ↦ List.mem_singleton.mp hz ▸ hxs y hy⟩
    · rintro ⟨⟨hall, hx⟩, hpairs, -, hlast⟩
      exact ⟨⟨hall, hpairs⟩, hx, fun y hy ↦ hlast y hy x (List.mem_singleton.mpr rfl)⟩

/-- Acceptance rule for iterations that do not depend on what was processed before. -/
theorem foldlM_isOk_iff_forall {f : β → α → Except ε β} {init : β} (Cond : α → Prop)
    (enabled : ∀ x s, (∃ s', f s x = .ok s') ↔ Cond x) (xs : List α) :
    (∃ s, xs.foldlM f init = .ok s) ↔ ∀ x ∈ xs, Cond x := by
  rw [foldlM_isOk_iff (fun _ _ ↦ True) (fun _ ↦ Cond) trivial (fun _ _ _ _ _ _ ↦ trivial)
    (fun _ x s _ ↦ enabled x s)]
  constructor
  · intro h x hx
    obtain ⟨front, back, heq⟩ := List.append_of_mem hx
    exact h front x back heq
  · rintro h front x back rfl
    exact h x (by simp)

/-- Closed form of a loop whose iterations check a condition on the element and update the
state by a total function. -/
theorem foldlM_guarded {f : β → α → Except ε β} (Cond : α → Prop) (next : β → α → β)
    (step : ∀ s x s', f s x = .ok s' ↔ Cond x ∧ s' = next s x) (init s : β) (xs : List α) :
    xs.foldlM f init = .ok s ↔ (∀ x ∈ xs, Cond x) ∧ s = xs.foldl next init := by
  apply foldlM_eq_ok_iff fun xs s ↦ (∀ x ∈ xs, Cond x) ∧ s = xs.foldl next init
  · intro s
    simp [eq_comm]
  · intro xs x s'
    simp only [step, List.forall_mem_append, List.forall_mem_singleton, List.foldl_append,
      List.foldl_cons, List.foldl_nil]
    constructor
    · rintro ⟨⟨hxs, hx⟩, rfl⟩
      exact ⟨_, ⟨hxs, rfl⟩, hx, rfl⟩
    · rintro ⟨s, ⟨hxs, rfl⟩, hx, rfl⟩
      exact ⟨⟨hxs, hx⟩, rfl⟩

/-- Loop rule for a loop over the elements of a list with their indices. -/
theorem foldlM_zipIdx_eq_ok_iff {f : β → α × Nat → Except ε β} {init : β} (xs : List α)
    (Spec : Nat → β → Prop) (start : ∀ s, Spec 0 s ↔ init = s)
    (step : ∀ k x s', xs[k]? = some x →
      (Spec (k + 1) s' ↔ ∃ s, Spec k s ∧ f s (x, k) = .ok s')) (s : β) :
    xs.zipIdx.foldlM f init = .ok s ↔ Spec xs.length s := by
  have hprefix (k : Nat) (hk : k ≤ xs.length) (s : β) :
      (xs.take k).zipIdx.foldlM f init = .ok s ↔ Spec k s := by
    induction k generalizing s with
    | zero =>
      rw [List.take_zero, List.zipIdx_nil, List.foldlM_nil, start]
      exact ⟨Except.ok.inj, congrArg Except.ok⟩
    | succ k ih =>
      have hget : xs[k]? = some xs[k] := List.getElem?_eq_getElem hk
      have hlength : (xs.take k).length = k := List.length_take_of_le (by omega)
      rw [List.take_add_one, hget, Option.toList_some, List.zipIdx_append, hlength,
        List.zipIdx_singleton, Nat.zero_add, foldlM_concat, bind_eq_ok, step k xs[k] s hget]
      simp only [ih (by omega)]
  have hall := hprefix xs.length (Nat.le_refl _) s
  rwa [List.take_length] at hall

/-- Append the image of an element, the body of a loop that fills a vector. -/
def pushM (f : α → Except ε γ) (out : List γ) (x : α) : Except ε (List γ) := do
  let y ← f x
  return out ++ [y]

/-- A filling loop appends the images of the elements, in their order. -/
theorem foldlM_pushM (f : α → Except ε γ) (out out' : List γ) (xs : List α) :
    xs.foldlM (pushM f) out = .ok out' ↔
      ∃ ys, List.Forall₂ (fun x y ↦ f x = .ok y) xs ys ∧ out' = out ++ ys := by
  induction xs generalizing out with
  | nil => simp [pure, Except.pure, eq_comm]
  | cons x xs ih =>
    rw [List.foldlM_cons, bind_eq_ok]
    simp only [pushM, bind_eq_ok, ih, pure, Except.pure, Except.ok.injEq]
    constructor
    · rintro ⟨-, ⟨y, hy, rfl⟩, ys, hys, rfl⟩
      exact ⟨y :: ys, .cons hy hys, by simp⟩
    · rintro ⟨zs, hzs, rfl⟩
      obtain ⟨y, ys, hy, hys, rfl⟩ := List.forall₂_cons_left_iff.mp hzs
      exact ⟨_, ⟨y, hy, rfl⟩, ys, hys, by simp⟩

/-- Every element of the right list has a partner in the left one. -/
theorem exists_left_of_forall₂ {R : α → γ → Prop} {xs : List α} {ys : List γ}
    (h : List.Forall₂ R xs ys) {y : γ} (hy : y ∈ ys) : ∃ x ∈ xs, R x y := by
  induction h with
  | nil => cases hy
  | cons hR _ ih =>
    rcases List.mem_cons.mp hy with rfl | hmem
    · exact ⟨_, List.mem_cons_self, hR⟩
    · obtain ⟨x, hx, hxy⟩ := ih hmem
      exact ⟨x, List.mem_cons_of_mem _ hx, hxy⟩

/-- A filling loop succeeds exactly when every element has an image. -/
theorem foldlM_pushM_isOk (f : α → Except ε γ) (out : List γ) (xs : List α) :
    (∃ out', xs.foldlM (pushM f) out = .ok out') ↔ ∀ x ∈ xs, ∃ y, f x = .ok y := by
  apply foldlM_isOk_iff_forall
  intro x s
  simp only [pushM, bind_eq_ok]
  exact ⟨fun ⟨_, y, hy, _⟩ ↦ ⟨y, hy⟩, fun ⟨y, hy⟩ ↦ ⟨_, y, hy, rfl⟩⟩

/-- Nested loops are one loop over the concatenation of the inner sequences. -/
theorem foldlM_flatMap (f : β → γ → Except ε β) (g : α → List γ) (init : β) (xs : List α) :
    (xs.flatMap g).foldlM f init = xs.foldlM (fun s x ↦ (g x).foldlM f s) init := by
  induction xs generalizing init with
  | nil => rfl
  | cons x xs ih =>
    rw [List.flatMap_cons, List.foldlM_append, List.foldlM_cons]
    simp only [ih]

/-- A loop of checks passes exactly when every check does. -/
theorem forM_eq_ok_iff {f : α → Except ε PUnit} (xs : List α) :
    forM xs f = .ok ⟨⟩ ↔ ∀ x ∈ xs, f x = .ok ⟨⟩ := by
  induction xs with
  | nil => simp [pure, Except.pure]
  | cons x xs ih =>
    rw [List.forM_cons, bind_eq_ok, List.forall_mem_cons, ← ih]
    exact ⟨fun ⟨_, hx, hxs⟩ ↦ ⟨hx, hxs⟩, fun ⟨hx, hxs⟩ ↦ ⟨⟨⟩, hx, hxs⟩⟩

/-- A loop of checks fails with an error that some check raises. -/
theorem forM_eq_error {f : α → Except ε PUnit} {e : ε} (Bad : ε → Prop)
    (step : ∀ x e, f x = .error e → Bad e) (xs : List α) (run : forM xs f = .error e) :
    Bad e := by
  induction xs with
  | nil => cases run
  | cons x xs ih =>
    rw [List.forM_cons, bind_eq_error] at run
    rcases run with hx | ⟨-, -, hxs⟩
    · exact step x e hx
    · exact ih hxs

end Eduort.Base
