import Mathlib.Data.List.Forall2
import Mathlib.Data.List.Induction
import Mathlib.Data.List.Nodup
import Mathlib.Logic.Function.Basic

/-!
# Operations on named values

A network consists of operations that read values by name, some of which may be left out, and
compute values for the names they write. It can be run in an order, or read as a system of
equations. In an order that writes each name once and before it is read, the two agree, so the
result does not depend on the order.
-/

namespace Eduort.Base

universe u v w

/-- What the operations read, write and compute; an operation can fail. -/
structure Network (ι : Type u) (κ : Type v) (V : Type w) where
  reads : ι → List (Option κ)
  writes : ι → List κ
  op : ι → List (Option V) → Option (List V)

namespace Network

variable {ι : Type u} {κ : Type v} {V : Type w} (N : Network ι κ V)

/-- An input that is present must have a value. -/
def fetch (env : κ → Option V) : Option κ → Option (Option V)
  | none => some none
  | some name => (env name).map some

/-- The values that an operation computes, one for each name it writes. -/
def eval (env : κ → Option V) (i : ι) : Option (List V) := do
  let inputs ← (N.reads i).mapM (fetch env)
  let outputs ← N.op i inputs
  if outputs.length = (N.writes i).length then some outputs else none

/-- The values satisfy the equations of the operations. -/
structure Solves (order : List ι) (init env : κ → Option V) : Prop where
  computed : ∀ i ∈ order, ∃ values, N.eval env i = some values ∧
    (N.writes i).map env = values.map some
  kept : ∀ name, (∀ i ∈ order, name ∉ N.writes i) → env name = init name

/-- Each name is written once, and not by the operation that reads it or a later one. -/
structure Ordered (order : List ι) : Prop where
  once : (order.flatMap N.writes).Nodup
  before : ∀ front i back, order = front ++ i :: back →
    ∀ name, some name ∈ N.reads i → ∀ j ∈ i :: back, name ∉ N.writes j

section Execution

variable [DecidableEq κ]

/-- Give names their values. -/
def assignAll (env : κ → Option V) (names : List κ) (values : List V) : κ → Option V :=
  (names.zip values).foldl (fun env x ↦ Function.update env x.1 (some x.2)) env

/-- Run one operation. -/
def step (env : κ → Option V) (i : ι) : Option (κ → Option V) :=
  (N.eval env i).map (assignAll env (N.writes i))

/-- Run operations one after the other. -/
def run (order : List ι) (env : κ → Option V) : Option (κ → Option V) := order.foldlM N.step env

/-- The values before an operation ran. -/
def rewind (i : ι) (init env : κ → Option V) (name : κ) : Option V :=
  if name ∈ N.writes i then init name else env name

end Execution

/-! ### Values and names -/

section Values

variable {N} {env env' : κ → Option V} {i : ι}

private theorem mapM_fetch_congr {slots : List (Option κ)}
    (h : ∀ name, some name ∈ slots → env name = env' name) :
    slots.mapM (fetch env) = slots.mapM (fetch env') := by
  induction slots with
  | nil => rfl
  | cons slot slots ih =>
    have hslot : fetch env slot = fetch env' slot := by
      cases slot with
      | none => rfl
      | some name => rw [fetch, fetch, h name List.mem_cons_self]
    rw [List.mapM_cons, List.mapM_cons, hslot,
      ih fun name hname ↦ h name (List.mem_cons_of_mem slot hname)]

/-- Evaluation looks only at the names that are read. -/
theorem eval_congr (h : ∀ name, some name ∈ N.reads i → env name = env' name) :
    N.eval env i = N.eval env' i := by
  rw [eval, eval, mapM_fetch_congr h]

private theorem length_of_eval {values : List V} (h : N.eval env i = some values) :
    values.length = (N.writes i).length := by
  simp only [eval, Option.bind_eq_bind, Option.bind_eq_some_iff] at h
  obtain ⟨-, -, outputs, -, h⟩ := h
  split at h
  · next hlength =>
    cases h
    exact hlength
  · cases h

/-- Names that are all different are mapped as the values say in one way only. -/
theorem map_eq_map_some {names : List κ} {values : List V}
    (h : names.map env = values.map some) (h' : names.map env' = values.map some) {name : κ}
    (hname : name ∈ names) : env name = env' name := by
  exact List.map_inj_left.mp (h.trans h'.symm) name hname

variable [DecidableEq κ]

private theorem assignAll_of_not_mem (env : κ → Option V) (names : List κ) (values : List V)
    {name : κ} (h : name ∉ names) : assignAll env names values name = env name := by
  induction names generalizing env values with
  | nil => rfl
  | cons first names ih =>
    cases values with
    | nil => rfl
    | cons value values =>
      rw [List.mem_cons, not_or] at h
      refine (ih (Function.update env first (some value)) values h.2).trans ?_
      exact Function.update_of_ne h.1 _ _

private theorem map_assignAll (env : κ → Option V) {names : List κ} {values : List V}
    (hnodup : names.Nodup) (hlength : values.length = names.length) :
    names.map (assignAll env names values) = values.map some := by
  induction names generalizing env values with
  | nil =>
    rw [List.eq_nil_of_length_eq_zero hlength]
    rfl
  | cons first names ih =>
    cases values with
    | nil => cases hlength
    | cons value values =>
      obtain ⟨hfirst, hnodup⟩ := List.nodup_cons.mp hnodup
      rw [List.map_cons, List.map_cons, List.cons.injEq]
      constructor
      · refine (assignAll_of_not_mem (Function.update env first (some value)) names values
          hfirst).trans ?_
        exact Function.update_self first (some value) env
      · exact ih (Function.update env first (some value)) hnodup (Nat.succ.inj hlength)

end Values

/-! ### Runs and solutions -/

section Runs

variable {N} {order order' : List ι} {init env env' : κ → Option V}

/-- Only the operations matter, not their order. -/
theorem Solves.perm (h : N.Solves order init env) (hperm : order.Perm order') :
    N.Solves order' init env where
  computed i hi := h.computed i (hperm.mem_iff.mpr hi)
  kept name hname := h.kept name fun i hi ↦ hname i (hperm.mem_iff.mp hi)

/-- An order without its last operation. -/
theorem Ordered.front {i : ι} (h : N.Ordered (order ++ [i])) : N.Ordered order where
  once := by
    have honce := h.once
    rw [List.flatMap_append, List.nodup_append] at honce
    exact honce.1
  before := by
    rintro front j back rfl name hread k hk
    refine h.before front j (back ++ [i]) (by simp) name hread k ?_
    rw [← List.cons_append]
    exact List.mem_append_left _ hk

/-- The last operation writes nothing that the others write or read, nor what it reads. -/
theorem Ordered.last {i : ι} (h : N.Ordered (order ++ [i])) :
    (N.writes i).Nodup ∧ (∀ name ∈ N.writes i, ∀ j ∈ order, name ∉ N.writes j) ∧
      ∀ j ∈ order ++ [i], ∀ name, some name ∈ N.reads j → name ∉ N.writes i := by
  have honce := h.once
  rw [List.flatMap_append, List.nodup_append, List.flatMap_singleton] at honce
  obtain ⟨-, hnodup, hdisjoint⟩ := honce
  refine ⟨hnodup, fun name hname j hj hwrite ↦ ?_, fun j hj name hread ↦ ?_⟩
  · exact hdisjoint name (List.mem_flatMap.mpr ⟨j, hj, hwrite⟩) name hname rfl
  · obtain ⟨front, back, hsplit⟩ := List.append_of_mem hj
    apply h.before front j back hsplit name hread i
    have hlast : (order ++ [i]).getLast? = some i := by simp
    rw [hsplit, List.getLast?_append_cons] at hlast
    exact List.mem_of_getLast? hlast

variable [DecidableEq κ]

/-- One more operation: a solution is a solution for the others, followed by a step. -/
theorem Ordered.solves_concat {i : ι} (h : N.Ordered (order ++ [i])) :
    N.Solves (order ++ [i]) init env' ↔
      ∃ env, N.Solves order init env ∧ N.step env i = some env' := by
  obtain ⟨hnodup, hwrites, hreads⟩ := h.last
  have hi : i ∈ order ++ [i] := List.mem_append_right _ List.mem_cons_self
  have hsame {env : κ → Option V} (hagree : ∀ name ∉ N.writes i, env name = env' name) {j : ι}
      (hj : j ∈ order ++ [i]) : N.eval env j = N.eval env' j :=
    eval_congr fun name hread ↦ hagree name (hreads j hj name hread)
  constructor
  · intro hsolves
    -- before its last step, the run had not changed what that step writes
    have hagree (name : κ) (hname : name ∉ N.writes i) : N.rewind i init env' name = env' name :=
      if_neg hname
    obtain ⟨values, heval, hvalues⟩ := hsolves.computed i hi
    refine ⟨N.rewind i init env', ⟨fun j hj ↦ ?_, fun name hname ↦ ?_⟩, ?_⟩
    · have hj' := List.mem_append_left [i] hj
      obtain ⟨values, heval, hvalues⟩ := hsolves.computed j hj'
      refine ⟨values, (hsame hagree hj').trans heval, ?_⟩
      rw [← hvalues]
      apply List.map_congr_left
      intro name hname
      exact hagree name fun hlast ↦ hwrites name hlast j hj hname
    · by_cases hlast : name ∈ N.writes i
      · exact if_pos hlast
      · rw [hagree name hlast]
        apply hsolves.kept
        simp only [List.mem_append, List.mem_singleton]
        rintro j (hj | rfl)
        · exact hname j hj
        · exact hlast
    · rw [step, hsame hagree hi, heval, Option.map_some, Option.some.injEq]
      funext name
      by_cases hlast : name ∈ N.writes i
      · exact map_eq_map_some (map_assignAll _ hnodup (length_of_eval heval)) hvalues hlast
      · rw [assignAll_of_not_mem _ _ _ hlast]
        exact hagree name hlast
  · rintro ⟨env, hsolves, hstep⟩
    rw [step, Option.map_eq_some_iff] at hstep
    obtain ⟨values, heval, rfl⟩ := hstep
    have hagree (name : κ) (hname : name ∉ N.writes i) :
        env name = assignAll env (N.writes i) values name :=
      (assignAll_of_not_mem env _ values hname).symm
    refine ⟨fun j hj ↦ ?_, fun name hname ↦ ?_⟩
    · rcases List.mem_append.mp hj with hfront | hlast
      · obtain ⟨values', heval', hvalues'⟩ := hsolves.computed j hfront
        refine ⟨values', (hsame hagree hj).symm.trans heval', ?_⟩
        rw [← hvalues']
        apply List.map_congr_left
        intro name hname
        exact (hagree name fun hlast ↦ hwrites name hlast j hfront hname).symm
      · rw [List.mem_singleton] at hlast
        subst hlast
        exact ⟨values, (hsame hagree hj).symm.trans heval,
          map_assignAll env hnodup (length_of_eval heval)⟩
    · rw [← hagree name (hname i hi)]
      exact hsolves.kept name fun j hj ↦ hname j (List.mem_append_left [i] hj)

/-- In an order without conflicts, the results of a run are the solutions of the equations. -/
theorem Ordered.run_eq_some_iff (h : N.Ordered order) :
    N.run order init = some env ↔ N.Solves order init env := by
  induction order using List.reverseRecOn generalizing env with
  | nil =>
    rw [run, List.foldlM_nil]
    constructor
    · intro heq
      cases heq
      exact ⟨nofun, fun _ _ ↦ rfl⟩
    · intro hsolves
      refine congrArg some (funext fun name ↦ ?_)
      exact (hsolves.kept name nofun).symm
  | append_singleton order i ih =>
    rw [h.solves_concat, run, List.foldlM_append]
    simp only [List.foldlM_cons, List.foldlM_nil, bind_pure, Option.bind_eq_bind,
      Option.bind_eq_some_iff]
    exact exists_congr fun env ↦ and_congr_left fun _ ↦ ih h.front

/-- Two orders without conflicts of the same operations compute the same. -/
theorem Ordered.run_eq_of_perm (h : N.Ordered order) (h' : N.Ordered order')
    (hperm : order.Perm order') : N.run order init = N.run order' init := by
  ext env
  rw [h.run_eq_some_iff, h'.run_eq_some_iff]
  exact ⟨fun hsolves ↦ hsolves.perm hperm, fun hsolves ↦ hsolves.perm hperm.symm⟩

end Runs

/-! ### Other names -/

/-- The second network is the first one under other names, which are kept apart. -/
structure Renames {κ' : Type v} (f : κ → κ') (N' : Network ι κ' V) : Prop where
  injective : Function.Injective f
  reads i : N'.reads i = (N.reads i).map (Option.map f)
  writes i : N'.writes i = (N.writes i).map f
  op i : N'.op i = N.op i

section Renames

variable {N} {κ' : Type v} {f : κ → κ'} {N' : Network ι κ' V}

private theorem mapM_fetch_map (env : κ' → Option V) (slots : List (Option κ)) :
    (slots.map (Option.map f)).mapM (fetch env) = slots.mapM (fetch (env ∘ f)) := by
  induction slots with
  | nil => rfl
  | cons slot slots ih =>
    have hslot : fetch env (slot.map f) = fetch (env ∘ f) slot := by
      cases slot with
      | none => rfl
      | some name => rfl
    rw [List.map_cons, List.mapM_cons, List.mapM_cons, hslot, ih]

private theorem Renames.eval_eq (h : N.Renames f N') (env : κ' → Option V) (i : ι) :
    N'.eval env i = N.eval (env ∘ f) i := by
  rw [eval, eval, h.reads, h.writes, h.op, mapM_fetch_map, List.length_map]

variable [DecidableEq κ] [DecidableEq κ']

/-- An assignment under the new names is seen as one under the old names. -/
theorem assignAll_comp (hf : Function.Injective f) (env : κ' → Option V) (names : List κ)
    (values : List V) :
    assignAll env (names.map f) values ∘ f = assignAll (env ∘ f) names values := by
  induction names generalizing env values with
  | nil => rfl
  | cons name names ih =>
    cases values with
    | nil => rfl
    | cons value values =>
      show assignAll (Function.update env (f name) (some value)) (names.map f) values ∘ f =
        assignAll (Function.update (env ∘ f) name (some value)) names values
      rw [ih, Function.update_comp_eq_of_injective env hf]

private theorem Renames.step_eq (h : N.Renames f N') (env : κ' → Option V) (i : ι) :
    (N'.step env i).map (· ∘ f) = N.step (env ∘ f) i := by
  rw [Network.step, Network.step, h.eval_eq, h.writes, Option.map_map]
  congr 1
  funext values
  exact assignAll_comp h.injective env (N.writes i) values

/-- A run under the new names, seen under the old ones. -/
theorem Renames.run_eq (h : N.Renames f N') (order : List ι) (env : κ' → Option V) :
    (N'.run order env).map (· ∘ f) = N.run order (env ∘ f) := by
  induction order generalizing env with
  | nil => rfl
  | cons i order ih =>
    rw [run, run, List.foldlM_cons, List.foldlM_cons, ← h.step_eq]
    cases N'.step env i with
    | none => rfl
    | some env' => exact ih env'

end Renames

/-! ### Operations that do not fail -/

/-- Every operation computes a value for each name it writes, whatever values it reads. -/
def Computes : Prop :=
  ∀ i inputs, inputs.length = (N.reads i).length →
    ∃ values, N.op i inputs = some values ∧ values.length = (N.writes i).length

section Computes

variable {N} {env : κ → Option V} {i : ι}

private theorem mapM_fetch_isSome {slots : List (Option κ)}
    (h : ∀ name, some name ∈ slots → env name ≠ none) :
    ∃ inputs, slots.mapM (fetch env) = some inputs ∧ inputs.length = slots.length := by
  induction slots with
  | nil => exact ⟨[], rfl, rfl⟩
  | cons slot slots ih =>
    obtain ⟨inputs, hinputs, hlength⟩ := ih fun name hname ↦
      h name (List.mem_cons_of_mem slot hname)
    have hslot : ∃ input, fetch env slot = some input := by
      cases slot with
      | none => exact ⟨none, rfl⟩
      | some name =>
        obtain ⟨value, hvalue⟩ := Option.ne_none_iff_exists'.mp (h name List.mem_cons_self)
        exact ⟨some value, by rw [fetch, hvalue, Option.map_some]⟩
    obtain ⟨input, hinput⟩ := hslot
    refine ⟨input :: inputs, ?_, congrArg Nat.succ hlength⟩
    rw [List.mapM_cons, hinput, hinputs]
    rfl

variable [DecidableEq κ]

/-- An operation whose inputs have values runs, and gives values to what it writes. -/
theorem Computes.step (h : N.Computes) (hreads : ∀ name, some name ∈ N.reads i → env name ≠ none)
    (hnodup : (N.writes i).Nodup) :
    ∃ env', N.step env i = some env' ∧
      ∀ name, env' name ≠ none ↔ env name ≠ none ∨ name ∈ N.writes i := by
  obtain ⟨inputs, hinputs, hcount⟩ := mapM_fetch_isSome hreads
  obtain ⟨values, hvalues, hlength⟩ := h i inputs hcount
  have heval : N.eval env i = some values := by
    simp only [eval, hinputs, hvalues, Option.bind_eq_bind, Option.bind_some, hlength, ↓reduceIte]
  refine ⟨assignAll env (N.writes i) values, by rw [Network.step, heval, Option.map_some],
    fun name ↦ ?_⟩
  by_cases hname : name ∈ N.writes i
  · have hmem : assignAll env (N.writes i) values name ∈ values.map some := by
      rw [← map_assignAll env hnodup hlength]
      exact List.mem_map_of_mem hname
    obtain ⟨value, -, hvalue⟩ := List.mem_map.mp hmem
    rw [← hvalue]
    exact iff_of_true nofun (Or.inr hname)
  · rw [assignAll_of_not_mem env _ values hname]
    exact (or_iff_left hname).symm

end Computes

end Network
end Eduort.Base
