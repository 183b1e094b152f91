import Eduort.Base.Precedence
import Mathlib.Data.List.Dedup
import Mathlib.Data.List.Perm.Basic

/-!
# Taking enabled elements one by one

An element is enabled once all its predecessors are taken. Whatever enabled element is taken
next, the lists that arise are those that respect the relation, and the choice does not matter
for what has been taken once nothing is enabled any more.
-/

namespace Eduort.Base

universe u

variable {α : Type u} {E : α → α → Prop} {s : Finset α}

/-- An element is cycle-free as soon as its predecessors are. -/
theorem CycleFree.of_preds {v : α} (h : ∀ u, E u v → CycleFree E u) : CycleFree E v := by
  have hchain (c : α) (hc : OnCycle E c) (hcv : Relation.TransGen E c v) : False := by
    obtain ⟨u, hcu, huv⟩ := Relation.TransGen.tail'_iff.mp hcv
    rcases Relation.reflTransGen_iff_eq_or_transGen.mp hcu with rfl | hcu
    · exact (h u huv).not_onCycle hc
    · exact (h u huv).not_reached c hc hcu
  exact ⟨fun hv ↦ hchain v hv hv, hchain⟩

/-- The element can be taken next: it is not taken, and all its predecessors are. -/
structure Enabled (E : α → α → Prop) (s : Finset α) (order : List α) (v : α) : Prop where
  mem : v ∈ s
  fresh : v ∉ order
  preds : ∀ u ∈ s, E u v → u ∈ order

/-- Elements taken one after another, each when it is enabled. -/
inductive Selection (E : α → α → Prop) (s : Finset α) : List α → Prop
  | nil : Selection E s []
  | take {order : List α} {v : α} (h : Selection E s order) (hv : Enabled E s order v) :
      Selection E s (order ++ [v])

/-- The lists that arise are those that list elements once, behind their predecessors. -/
theorem selection_iff (hE : ∀ u v, E u v → u ∈ s) (order : List α) :
    Selection E s order ↔ order.Nodup ∧ (∀ v ∈ order, v ∈ s) ∧ PredsFirst E order := by
  constructor
  · intro h
    induction h with
    | nil => exact ⟨List.nodup_nil, by simp, predsFirst_nil⟩
    | take _ hv ih =>
      obtain ⟨hnodup, hmem, hfirst⟩ := ih
      refine ⟨?_, ?_, (predsFirst_concat _ _).mpr ⟨hfirst, fun u huv ↦ ?_⟩⟩
      · exact List.nodup_append.mpr ⟨hnodup, List.nodup_singleton _, fun a ha b hb hab ↦
          hv.fresh (List.mem_singleton.mp hb ▸ hab ▸ ha)⟩
      · rw [List.forall_mem_append, List.forall_mem_singleton]
        exact ⟨hmem, hv.mem⟩
      · exact hv.preds u (hE u _ huv) huv
  · intro h
    induction order using List.reverseRecOn with
    | nil => exact .nil
    | append_singleton order v ih =>
      obtain ⟨hnodup, hmem, hfirst⟩ := h
      rw [List.forall_mem_append, List.forall_mem_singleton] at hmem
      rw [predsFirst_concat] at hfirst
      obtain ⟨hnodup, -, hdisjoint⟩ := List.nodup_append.mp hnodup
      apply Selection.take (ih ⟨hnodup, hmem.1, hfirst.1⟩)
      exact ⟨hmem.2, fun hv ↦ hdisjoint v hv v (List.mem_singleton.mpr rfl) rfl,
        fun u _ huv ↦ hfirst.2 u huv⟩

namespace Selection

variable {order : List α} (h : Selection E s order) (hE : ∀ u v, E u v → u ∈ s)
include h hE

/-- What is taken is cycle-free. -/
theorem cycleFree {v : α} (hv : v ∈ order) : v ∈ s ∧ CycleFree E v := by
  obtain ⟨-, hmem, hfirst⟩ := (selection_iff hE order).mp h
  exact ⟨hmem v hv, hfirst.cycleFree hv⟩

/-- An enabled element is cycle-free too. -/
theorem cycleFree_of_enabled {v : α} (hv : Enabled E s order v) : v ∈ s ∧ CycleFree E v := by
  refine ⟨hv.mem, CycleFree.of_preds fun u huv ↦ ?_⟩
  exact (h.cycleFree hE (hv.preds u (hE u v huv) huv)).2

/-- Nothing is enabled any more exactly when all cycle-free elements are taken. -/
theorem stuck_iff :
    (∀ v, ¬ Enabled E s order v) ↔ ∀ v, v ∈ order ↔ v ∈ s ∧ CycleFree E v := by
  constructor
  · intro hstuck
    -- along the relation: an element whose predecessors are taken would be enabled
    have hall : ∀ v ∈ s, CycleFree E v → v ∈ order := by
      apply CycleFree.induction
      intro v hv _ ih
      by_contra hfresh
      apply hstuck v
      exact ⟨hv, hfresh, ih⟩
    intro v
    exact ⟨h.cycleFree hE, fun hv ↦ hall v hv.1 hv.2⟩
  · intro hmem v hv
    exact hv.fresh ((hmem v).mpr (h.cycleFree_of_enabled hE hv))

end Selection
end Eduort.Base
