import Eduort.Base.Precedence
import Mathlib.Data.Finset.Card
import Mathlib.Data.Finset.Filter
import Mathlib.Data.Finset.Lattice.Fold
import Mathlib.Data.List.Basic

/-!
# Depth along a relation

The depth of an element is the length of the longest chain through a finite set that ends at it.
Without cycles no chain is longer than the set, and the depth of an element is one more than the
largest depth among its predecessors. A list that is sorted by a key such as the depth is the
concatenation of its waves, one for each value of the key.
-/

namespace Eduort.Base

universe u

variable {α : Type u}

section Chains

variable (E : α → α → Prop) (s : Finset α)

/-- A chain of so many steps through the set ends at the element. -/
inductive ChainTo : Nat → α → Prop
  | refl (v : α) : ChainTo 0 v
  | step {k : Nat} {u v : α} (chain : ChainTo k u) (hu : u ∈ s) (huv : E u v) : ChainTo (k + 1) v

/-- Without cycles the elements on a chain are distinct, so that it fits into the set. -/
theorem ChainTo.le_card {E : α → α → Prop} {s : Finset α} (h : Acyclic E) {k : Nat} {v : α}
    (chain : ChainTo E s k v) : k ≤ s.card := by
  classical
  -- each step of a chain adds an element to those from which a chain leads to its end
  have hle : k ≤ (s.filter fun u ↦ Relation.TransGen E u v).card := by
    induction chain with
    | refl v => exact Nat.zero_le _
    | @step k u v chain hu huv ih =>
      refine Nat.lt_of_le_of_lt ih (Finset.card_lt_card ?_)
      rw [Finset.ssubset_iff_of_subset]
      · refine ⟨u, Finset.mem_filter.mpr ⟨hu, .single huv⟩, fun hmem ↦ ?_⟩
        exact h u (Finset.mem_filter.mp hmem).2
      · intro w hw
        obtain ⟨hws, hwu⟩ := Finset.mem_filter.mp hw
        exact Finset.mem_filter.mpr ⟨hws, hwu.tail huv⟩
  exact hle.trans (Finset.card_filter_le _ _)

section Depth

variable [DecidableRel E]

/-- The length of the longest chain among those of at most so many steps. -/
def depthWithin : Nat → α → Nat
  | 0, _ => 0
  | k + 1, v => (s.filter (E · v)).sup fun u ↦ depthWithin k u + 1

/-- The length of the longest chain that ends at the element. -/
def depth (v : α) : Nat := depthWithin E s s.card v

variable {E s}

private theorem le_depthWithin_iff (m k : Nat) (v : α) :
    m ≤ depthWithin E s k v ↔ m ≤ k ∧ ChainTo E s m v := by
  induction k generalizing m v with
  | zero =>
    rw [depthWithin, Nat.le_zero]
    constructor
    · rintro rfl
      exact ⟨rfl, .refl v⟩
    · rintro ⟨hm, -⟩
      exact hm
  | succ k ih =>
    cases m with
    | zero => exact iff_of_true (Nat.zero_le _) ⟨Nat.zero_le _, .refl v⟩
    | succ m =>
      have hpos : ⊥ < m + 1 := Nat.succ_pos m
      rw [depthWithin, Finset.le_sup_iff hpos]
      simp only [Nat.add_le_add_iff_right, ih, Finset.mem_filter]
      constructor
      · rintro ⟨u, ⟨hu, huv⟩, hm, hchain⟩
        exact ⟨hm, hchain.step hu huv⟩
      · rintro ⟨hm, hchain⟩
        cases hchain with
        | step hchain hu huv => exact ⟨_, ⟨hu, huv⟩, hm, hchain⟩

/-- Without cycles the depth is the length of the longest chain. -/
theorem le_depth_iff (h : Acyclic E) (m : Nat) (v : α) :
    m ≤ depth E s v ↔ ChainTo E s m v := by
  rw [depth, le_depthWithin_iff]
  exact and_iff_right_of_imp fun hchain ↦ hchain.le_card h

/-- Without cycles the depth is one more than the largest depth of a predecessor, and zero if
there is none. -/
theorem depth_eq (h : Acyclic E) (v : α) :
    depth E s v = (s.filter (E · v)).sup fun u ↦ depth E s u + 1 := by
  apply eq_of_forall_le_iff
  intro m
  rw [le_depth_iff h]
  cases m with
  | zero => exact iff_of_true (.refl v) (Nat.zero_le _)
  | succ m =>
    have hpos : ⊥ < m + 1 := Nat.succ_pos m
    rw [Finset.le_sup_iff hpos]
    simp only [Nat.add_le_add_iff_right, le_depth_iff h, Finset.mem_filter]
    constructor
    · intro hchain
      cases hchain with
      | step hchain hu huv => exact ⟨_, ⟨hu, huv⟩, hchain⟩
    · rintro ⟨u, ⟨hu, huv⟩, hchain⟩
      exact hchain.step hu huv

/-- Predecessors are less deep. -/
theorem depth_lt (h : Acyclic E) {u v : α} (hu : u ∈ s) (huv : E u v) :
    depth E s u < depth E s v := by
  rw [depth_eq h v]
  exact Finset.le_sup (f := fun u ↦ depth E s u + 1) (Finset.mem_filter.mpr ⟨hu, huv⟩)

/-- Some predecessor is less deep by exactly one. -/
theorem exists_depth_pred (h : Acyclic E) {v : α} {d : Nat} (hv : depth E s v = d + 1) :
    ∃ u ∈ s, E u v ∧ depth E s u = d := by
  have hchain : ChainTo E s (d + 1) v := (le_depth_iff h (d + 1) v).mp (Nat.le_of_eq hv.symm)
  cases hchain with
  | @step _ u _ hchain hu huv =>
    have hge := (le_depth_iff h d u).mpr hchain
    have hlt := depth_lt h hu huv
    exact ⟨u, hu, huv, by omega⟩

end Depth

end Chains

section Waves

variable {key : α → Nat} {xs : List α}

/-- An element with a smaller key first occurs earlier. -/
theorem idxOf_lt_of_key_lt [DecidableEq α] (hsorted : xs.Pairwise fun a b ↦ key a ≤ key b)
    {a b : α} (ha : a ∈ xs) (hb : b ∈ xs) (hlt : key a < key b) :
    xs.idxOf a < xs.idxOf b := by
  by_contra hge
  have hia := List.idxOf_lt_length_of_mem ha
  have hib := List.idxOf_lt_length_of_mem hb
  have hne : xs.idxOf b ≠ xs.idxOf a := by
    intro heq
    rw [List.idxOf_inj hb] at heq
    rw [heq] at hlt
    exact Nat.lt_irrefl _ hlt
  have hle := List.pairwise_iff_getElem.mp hsorted _ _ hib hia (by omega)
  rw [List.getElem_idxOf, List.getElem_idxOf] at hle
  omega

/-- A bound on the keys cuts a sorted list in two. -/
theorem eq_filter_append_filter (hsorted : xs.Pairwise fun a b ↦ key a ≤ key b) (d : Nat) :
    xs = xs.filter (key · < d) ++ xs.filter (d ≤ key ·) := by
  induction xs with
  | nil => rfl
  | cons x xs ih =>
    obtain ⟨hx, hxs⟩ := List.pairwise_cons.mp hsorted
    by_cases hd : key x < d
    · have hnot : ¬ d ≤ key x := Nat.not_le.mpr hd
      rw [List.filter_cons_of_pos (by simpa using hd), List.filter_cons_of_neg (by simpa using hd),
        List.cons_append, ← ih hxs]
    · have hall : ∀ y ∈ x :: xs, d ≤ key y := by
        rw [List.forall_mem_cons]
        exact ⟨Nat.not_lt.mp hd, fun y hy ↦ Nat.le_trans (Nat.not_lt.mp hd) (hx y hy)⟩
      have hnone : (x :: xs).filter (key · < d) = [] := by
        rw [List.filter_eq_nil_iff]
        intro y hy
        have hle := hall y hy
        simpa using hle
      have hself : (x :: xs).filter (d ≤ key ·) = x :: xs := by
        rw [List.filter_eq_self]
        intro y hy
        simpa using hall y hy
      rw [hnone, hself, List.nil_append]

/-- A sorted list is the concatenation of the lists of its elements with key `0, 1, …`. -/
theorem eq_flatMap_filter (hsorted : xs.Pairwise fun a b ↦ key a ≤ key b) (d : Nat)
    (hbound : ∀ x ∈ xs, key x < d) :
    xs = (List.range d).flatMap fun k ↦ xs.filter (key · = k) := by
  induction d generalizing xs with
  | zero =>
    rw [List.range_zero, List.flatMap_nil]
    exact List.eq_nil_iff_forall_not_mem.mpr fun x hx ↦ Nat.not_lt_zero _ (hbound x hx)
  | succ d ih =>
    have hbelow := ih (hsorted.filter (key · < d)) fun x hx ↦ by
      simpa using (List.mem_filter.mp hx).2
    have hwaves : ((List.range d).flatMap fun k ↦ (xs.filter (key · < d)).filter (key · = k)) =
        (List.range d).flatMap fun k ↦ xs.filter (key · = k) := by
      apply List.flatMap_congr
      intro k hk
      rw [List.filter_filter]
      apply List.filter_congr
      intro x _
      have hkd := List.mem_range.mp hk
      rw [← Bool.decide_and, decide_eq_decide]
      omega
    have htop : xs.filter (d ≤ key ·) = xs.filter (key · = d) := by
      apply List.filter_congr
      intro x hx
      have hlt := hbound x hx
      rw [decide_eq_decide]
      omega
    rw [List.range_succ, List.flatMap_append, List.flatMap_singleton, ← hwaves, ← hbelow, ← htop]
    exact eq_filter_append_filter hsorted d

end Waves

end Eduort.Base
