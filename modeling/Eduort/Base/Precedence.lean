import Eduort.Base.Fold
import Mathlib.Logic.Relation
import Mathlib.Order.WellFoundedSet

/-!
# Orders that respect a relation

A list respects a relation when every element has all its predecessors in front of it. On a
finite set the relation has such a list exactly when it has no cycle.
-/

namespace Eduort.Base

universe u

variable {α : Type u} {E : α → α → Prop}

/-- No element precedes itself along a chain. -/
def Acyclic (E : α → α → Prop) : Prop := ∀ v, ¬ Relation.TransGen E v v

/-- The element precedes itself along a chain. -/
def OnCycle (E : α → α → Prop) (v : α) : Prop := Relation.TransGen E v v

/-- The element neither stands on a cycle nor is reached from one. -/
structure CycleFree (E : α → α → Prop) (v : α) : Prop where
  not_onCycle : ¬ OnCycle E v
  not_reached : ∀ c, OnCycle E c → ¬ Relation.TransGen E c v

/-- Every element of the list has its predecessors in front of it. -/
def PredsFirst (E : α → α → Prop) (order : List α) : Prop :=
  ∀ front v back, order = front ++ v :: back → ∀ u, E u v → u ∈ front

theorem predsFirst_nil : PredsFirst E [] := by
  intro front v back h
  simp at h

/-- An element may follow exactly when its predecessors are there. -/
theorem predsFirst_concat (order : List α) (v : α) :
    PredsFirst E (order ++ [v]) ↔ PredsFirst E order ∧ ∀ u, E u v → u ∈ order :=
  forall_split_concat order v

/-- A predecessor of a listed element is listed, and first occurs before it. -/
theorem PredsFirst.idxOf_lt [DecidableEq α] {order : List α} (h : PredsFirst E order) {u v : α}
    (huv : E u v) (hv : v ∈ order) : u ∈ order ∧ order.idxOf u < order.idxOf v := by
  obtain ⟨front, back, rfl, hfront⟩ := List.eq_append_cons_of_mem hv
  have hu := h front v back rfl u huv
  refine ⟨List.mem_append_left _ hu, ?_⟩
  rw [List.idxOf_append_of_mem hu, List.idxOf_append_of_notMem hfront, List.idxOf_cons_self]
  have hlt := List.idxOf_lt_length_of_mem hu
  omega

/-- So is every element from which a chain leads to it. -/
theorem PredsFirst.idxOf_lt_of_chain [DecidableEq α] {order : List α} (h : PredsFirst E order)
    {u v : α} (huv : Relation.TransGen E u v) (hv : v ∈ order) :
    u ∈ order ∧ order.idxOf u < order.idxOf v := by
  induction huv with
  | single huv => exact h.idxOf_lt huv hv
  | tail _ hbc ih =>
    obtain ⟨hb, hlt⟩ := h.idxOf_lt hbc hv
    obtain ⟨hu, hult⟩ := ih hb
    exact ⟨hu, hult.trans hlt⟩

/-- No listed element precedes itself. -/
theorem PredsFirst.not_onCycle {order : List α} (h : PredsFirst E order) {v : α}
    (hv : v ∈ order) : ¬ OnCycle E v := by
  classical
  intro hcycle
  exact Nat.lt_irrefl _ (h.idxOf_lt_of_chain hcycle hv).2

/-- No cycle leads to a listed element. -/
theorem PredsFirst.cycleFree {order : List α} (h : PredsFirst E order) {v : α}
    (hv : v ∈ order) : CycleFree E v := by
  classical
  refine ⟨h.not_onCycle hv, fun c hc hcv ↦ ?_⟩
  exact h.not_onCycle (h.idxOf_lt_of_chain hcv hv).1 hc

/-- A relation whose targets can all be listed so has no cycle. -/
theorem PredsFirst.acyclic {order : List α} (h : PredsFirst E order)
    (hall : ∀ u v, E u v → v ∈ order) : Acyclic E := by
  intro v hcycle
  obtain ⟨u, -, huv⟩ := Relation.TransGen.tail'_iff.mp hcycle
  exact h.not_onCycle (hall u v huv) hcycle

/-- Induction along a relation without cycles, on a finite set. -/
theorem Acyclic.induction (h : Acyclic E) (s : Finset α) {P : α → Prop}
    (step : ∀ v ∈ s, (∀ u ∈ s, E u v → P u) → P v) : ∀ v ∈ s, P v := by
  have hstrict : IsStrictOrder α (Relation.TransGen E) :=
    { irrefl := h, trans := fun _ _ _ ↦ .trans }
  have hwf : (s : Set α).WellFoundedOn (Relation.TransGen E) := s.wellFoundedOn
  intro v hv
  apply hwf.induction (Finset.mem_coe.mpr hv)
  intro w hw ih
  exact step w hw fun u hu huw ↦ ih u hu (.single huw)

/-- Without cycles there is nothing to be reached from. -/
theorem Acyclic.cycleFree (h : Acyclic E) (v : α) : CycleFree E v :=
  ⟨h v, fun c hc _ ↦ h c hc⟩

/-- Predecessors of a cycle-free element are cycle-free. -/
theorem CycleFree.of_edge {u v : α} (h : CycleFree E v) (huv : E u v) : CycleFree E u :=
  ⟨fun hu ↦ h.not_reached u hu (.single huv), fun c hc hcu ↦ h.not_reached c hc (hcu.tail huv)⟩

/-- Induction along any relation, on the cycle-free elements of a finite set. -/
theorem CycleFree.induction (s : Finset α) {P : α → Prop}
    (step : ∀ v ∈ s, CycleFree E v → (∀ u ∈ s, E u v → P u) → P v) :
    ∀ v ∈ s, CycleFree E v → P v := by
  have hacyclic : Acyclic fun u v ↦ E u v ∧ CycleFree E v := by
    intro v hcycle
    obtain ⟨u, -, -, hv⟩ := Relation.TransGen.tail'_iff.mp hcycle
    exact hv.not_onCycle (Relation.TransGen.mono (fun _ _ h ↦ h.1) v v hcycle)
  apply hacyclic.induction s (P := fun v ↦ CycleFree E v → P v)
  intro v hv ih hfree
  exact step v hv hfree fun u hu huv ↦ ih u hu ⟨huv, hfree⟩ (hfree.of_edge huv)

/-- A path in a composite of two relations, seen from between the two. -/
theorem transGen_comp_swap {β : Type*} {A : α → β → Prop} {B : β → α → Prop} {a b : β}
    (h : Relation.TransGen (Relation.Comp B A) a b) :
    ∃ u v, B a u ∧ Relation.ReflTransGen (Relation.Comp A B) u v ∧ A v b := by
  induction h with
  | single h =>
    obtain ⟨u, hin, hout⟩ := h
    exact ⟨u, u, hin, .refl, hout⟩
  | tail _ h ih =>
    obtain ⟨u, v, hin, hpath, hv⟩ := ih
    obtain ⟨w, hw, hout⟩ := h
    exact ⟨u, w, hin, hpath.tail ⟨_, hv, hw⟩, hout⟩

/-- Two relations can be composed either way round, if only cycles matter. -/
theorem acyclic_comp_comm {β : Type*} {A : α → β → Prop} {B : β → α → Prop} :
    Acyclic (Relation.Comp A B) ↔ Acyclic (Relation.Comp B A) := by
  constructor
  · intro h b hcycle
    obtain ⟨u, v, hin, hpath, hout⟩ := transGen_comp_swap hcycle
    exact h u (Relation.TransGen.tail' hpath ⟨b, hout, hin⟩)
  · intro h a hcycle
    obtain ⟨u, v, hin, hpath, hout⟩ := transGen_comp_swap hcycle
    exact h u (Relation.TransGen.tail' hpath ⟨a, hout, hin⟩)

end Eduort.Base
