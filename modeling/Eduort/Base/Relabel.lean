import Eduort.Base.Depth
import Mathlib.Data.Finset.Card
import Mathlib.Data.Set.Function

/-!
# Relations under other names

A relation on one finite set and a relation on another one are the same up to names when a
bijection between the sets carries one into the other. Chains, cycles, depths and orders are
then the same up to names too.
-/

namespace Eduort.Base

universe u v

variable {α : Type u} {β : Type v}

/-- The relation `E'` on one set is the relation `E` on the other set, read along `f`. -/
structure Relabels (E : α → α → Prop) (E' : β → β → Prop) (s : Finset α) (s' : Finset β)
    (f : β → α) : Prop where
  bij : Set.BijOn f s' s
  within : ∀ u v, E u v → u ∈ s ∧ v ∈ s
  within' : ∀ i j, E' i j → i ∈ s' ∧ j ∈ s'
  edge_iff : ∀ i ∈ s', ∀ j ∈ s', E' i j ↔ E (f i) (f j)

namespace Relabels

variable {E : α → α → Prop} {E' : β → β → Prop} {s : Finset α} {s' : Finset β} {f : β → α}
variable (h : Relabels E E' s s' f)
include h

private theorem mem {i : β} (hi : i ∈ s') : f i ∈ s := h.bij.mapsTo hi

private theorem exists_label {u : α} (hu : u ∈ s) : ∃ i ∈ s', f i = u := h.bij.surjOn hu

private theorem injective {i j : β} (hi : i ∈ s') (hj : j ∈ s') (heq : f i = f j) : i = j :=
  h.bij.injOn hi hj heq

/-- Chains connect the same elements. -/
theorem transGen_iff {i j : β} (hi : i ∈ s') (hj : j ∈ s') :
    Relation.TransGen E' i j ↔ Relation.TransGen E (f i) (f j) := by
  constructor
  · intro hchain
    refine Relation.TransGen.lift f (fun a b hab ↦ ?_) i j hchain
    exact (h.edge_iff a (h.within' a b hab).1 b (h.within' a b hab).2).mp hab
  · intro hchain
    generalize hv : f j = v at hchain
    induction hchain generalizing j with
    | single huv =>
      subst hv
      exact .single ((h.edge_iff i hi j hj).mpr huv)
    | @tail w v _ hwv ih =>
      subst hv
      obtain ⟨k, hk, rfl⟩ := h.exists_label (h.within w _ hwv).1
      exact (ih hk rfl).tail ((h.edge_iff k hk j hj).mpr hwv)

private theorem onCycle_iff {i : β} (hi : i ∈ s') : OnCycle E' i ↔ OnCycle E (f i) :=
  h.transGen_iff hi hi

/-- An element on a chain or a cycle belongs to the set. -/
theorem onCycle_mem {u : α} (hu : OnCycle E u) : u ∈ s := by
  obtain ⟨w, -, hw⟩ := Relation.TransGen.tail'_iff.mp hu
  exact (h.within w u hw).2

private theorem onCycle_mem' {i : β} (hi : OnCycle E' i) : i ∈ s' := by
  obtain ⟨w, -, hw⟩ := Relation.TransGen.tail'_iff.mp hi
  exact (h.within' w i hw).2

theorem acyclic_iff : Acyclic E' ↔ Acyclic E := by
  constructor
  · intro hacyclic u hu
    obtain ⟨i, hi, rfl⟩ := h.exists_label (h.onCycle_mem hu)
    exact hacyclic i ((h.onCycle_iff hi).mpr hu)
  · intro hacyclic i hi
    exact hacyclic (f i) ((h.onCycle_iff (h.onCycle_mem' hi)).mp hi)

theorem cycleFree_iff {i : β} (hi : i ∈ s') : CycleFree E' i ↔ CycleFree E (f i) := by
  constructor
  · intro hfree
    refine ⟨fun hu ↦ hfree.not_onCycle ((h.onCycle_iff hi).mpr hu), fun c hc hci ↦ ?_⟩
    obtain ⟨k, hk, rfl⟩ := h.exists_label (h.onCycle_mem hc)
    exact hfree.not_reached k ((h.onCycle_iff hk).mpr hc) ((h.transGen_iff hk hi).mpr hci)
  · intro hfree
    refine ⟨fun hu ↦ hfree.not_onCycle ((h.onCycle_iff hi).mp hu), fun c hc hci ↦ ?_⟩
    have hk := h.onCycle_mem' hc
    exact hfree.not_reached (f c) ((h.onCycle_iff hk).mp hc) ((h.transGen_iff hk hi).mp hci)

/-- As many elements have a property as have it under the other name. -/
theorem card_filter {P : α → Prop} {P' : β → Prop} [DecidablePred P] [DecidablePred P']
    (hP : ∀ i ∈ s', P' i ↔ P (f i)) : (s'.filter P').card = (s.filter P).card := by
  apply Finset.card_nbij f
  · intro i hi
    obtain ⟨hi, hprop⟩ := Finset.mem_filter.mp hi
    exact Finset.mem_filter.mpr ⟨h.mem hi, (hP i hi).mp hprop⟩
  · intro i hi j hj heq
    exact h.injective (Finset.mem_filter.mp hi).1 (Finset.mem_filter.mp hj).1 heq
  · intro u hu
    obtain ⟨hu, hprop⟩ := Finset.mem_filter.mp hu
    obtain ⟨i, hi, rfl⟩ := h.exists_label hu
    exact ⟨i, Finset.mem_filter.mpr ⟨hi, (hP i hi).mpr hprop⟩, rfl⟩

private theorem chainTo_iff (k : Nat) {i : β} (hi : i ∈ s') :
    ChainTo E' s' k i ↔ ChainTo E s k (f i) := by
  induction k generalizing i with
  | zero => exact iff_of_true (.refl i) (.refl (f i))
  | succ k ih =>
    constructor
    · intro hchain
      cases hchain with
      | @step _ j _ chain hj hji =>
        exact .step ((ih hj).mp chain) (h.mem hj) ((h.edge_iff j hj i hi).mp hji)
    · intro hchain
      cases hchain with
      | @step _ u _ chain hu hui =>
        obtain ⟨j, hj, rfl⟩ := h.exists_label hu
        exact .step ((ih hj).mpr chain) hj ((h.edge_iff j hj i hi).mpr hui)

/-- Elements are equally deep. -/
theorem depth_eq [DecidableRel E] [DecidableRel E'] (hacyclic : Acyclic E) {i : β} (hi : i ∈ s') :
    depth E' s' i = depth E s (f i) := by
  have hacyclic' := h.acyclic_iff.mpr hacyclic
  have hle (k : Nat) : k ≤ depth E' s' i ↔ k ≤ depth E s (f i) := by
    rw [le_depth_iff hacyclic', le_depth_iff hacyclic, h.chainTo_iff k hi]
  exact Nat.le_antisymm ((hle _).mp (Nat.le_refl _)) ((hle _).mpr (Nat.le_refl _))

/-- An order that respects one relation respects the other one under the other names. -/
theorem predsFirst_map {order : List β} (hmem : ∀ i ∈ order, i ∈ s')
    (hfirst : PredsFirst E' order) : PredsFirst E (order.map f) := by
  intro front v back hsplit u huv
  obtain ⟨front, tail, rfl, rfl, htail⟩ := List.map_eq_append_iff.mp hsplit
  obtain ⟨i, back, rfl, rfl, rfl⟩ := List.map_eq_cons_iff.mp htail
  obtain ⟨j, hj, rfl⟩ := h.exists_label (h.within u _ huv).1
  have hi : i ∈ s' := hmem i (by simp)
  exact List.mem_map_of_mem (hfirst front i back rfl j ((h.edge_iff j hj i hi).mpr huv))

end Relabels
end Eduort.Base
