import Mathlib.Data.List.GetD
import Mathlib.Data.List.Range
import Mathlib.Logic.Function.Basic

/-!
# Tabulated lists

A vector that is indexed by `0, …, n - 1` is the table of a function, and an assignment to
one entry is an update of the function. In a list without duplicates, a segment is an interval
of positions.
-/

namespace Eduort.Base

universe u

variable {α : Type u} {n : Nat}

/-- The values of a function at `0, …, n - 1`. -/
def table (n : Nat) (f : Nat → α) : List α := (List.range n).map f

@[simp] theorem length_table (f : Nat → α) : (table n f).length = n := by
  rw [table, List.length_map, List.length_range]

/-- An entry inside the table is the value of the function. -/
theorem getD_table (f : Nat → α) (d : α) (i : Nat) (h : i < n) : (table n f).getD i d = f i := by
  simp [table, h]

/-- Only the values inside the table count. -/
theorem table_congr {f g : Nat → α} (h : ∀ i < n, f i = g i) : table n f = table n g := by
  apply List.map_congr_left
  intro i hi
  exact h i (List.mem_range.mp hi)

theorem replicate_eq_table (a : α) : List.replicate n a = table n fun _ ↦ a := by
  rw [table, List.map_const', List.length_range]

/-- A list is the table of its entries. -/
theorem map_getD_range (xs : List α) (d : α) : (List.range xs.length).map (xs.getD · d) = xs := by
  apply List.ext_getElem
  · rw [List.length_map, List.length_range]
  · intro i hi hlt
    rw [List.getElem_map, List.getElem_range, List.getD_eq_getElem _ _ hlt]

/-- An assignment is an update of the function. -/
theorem set_table (f : Nat → α) (i : Nat) (a : α) :
    (table n f).set i a = table n (Function.update f i a) := by
  apply List.ext_getElem
  · rw [List.length_set, length_table, length_table]
  · intro j hj hj'
    simp only [table, List.getElem_set, List.getElem_map, List.getElem_range, Function.update_apply]
    by_cases hij : i = j
    · rw [if_pos hij, if_pos hij.symm]
    · rw [if_neg hij, if_neg (Ne.symm hij)]

/-- A change in place is an update of the function. -/
theorem modify_table (f : Nat → α) (i : Nat) (change : α → α) :
    (table n f).modify i change = table n (Function.update f i (change (f i))) := by
  apply List.ext_getElem
  · rw [List.length_modify, length_table, length_table]
  · intro j hj hj'
    simp only [table, List.getElem_modify, List.getElem_map, List.getElem_range,
      Function.update_apply]
    by_cases hij : i = j
    · rw [if_pos hij, if_pos hij.symm, hij]
    · rw [if_neg hij, if_neg (Ne.symm hij)]

/-! ### Segments -/

/-- Without duplicates, an element belongs to a segment exactly when its position is inside. -/
theorem mem_segment_iff (front mid back : List α) (h : (front ++ mid ++ back).Nodup) {i : Nat}
    {a : α} (hi : (front ++ mid ++ back)[i]? = some a) :
    a ∈ mid ↔ front.length ≤ i ∧ i < front.length + mid.length := by
  constructor
  · intro hmem
    obtain ⟨j, hj⟩ := List.getElem?_of_mem hmem
    have hjlt : j < mid.length := (List.getElem?_eq_some_iff.mp hj).1
    have hget : (front ++ mid ++ back)[front.length + j]? = some a := by
      rw [List.append_assoc, List.getElem?_append_right (by omega), Nat.add_sub_cancel_left,
        List.getElem?_append_left hjlt]
      exact hj
    have hilt : i < (front ++ mid ++ back).length := (List.getElem?_eq_some_iff.mp hi).1
    have heq : i = front.length + j := (List.getElem?_inj hilt h).mp (hi.trans hget.symm)
    omega
  · rintro ⟨hle, hlt⟩
    rw [List.append_assoc, List.getElem?_append_right hle,
      List.getElem?_append_left (by omega)] at hi
    exact List.mem_of_getElem? hi

/-- Filtering the indices by an interval. -/
theorem filter_range_interval (P : Nat → Prop) [DecidablePred P] (start length : Nat)
    (hle : start + length ≤ n) (hP : ∀ i < n, P i ↔ start ≤ i ∧ i < start + length) :
    (List.range n).filter P = List.range' start length := by
  have hsplit : List.range n = List.range' 0 start ++
      (List.range' start length ++ List.range' (start + length) (n - (start + length))) := by
    have hstart := List.range'_append_1 (s := 0) (m := start) (n := n - start)
    have hrest := List.range'_append_1 (s := start) (m := length) (n := n - (start + length))
    rw [hrest, show length + (n - (start + length)) = n - start by omega]
    rw [Nat.zero_add] at hstart
    rw [hstart, List.range_eq_range', show start + (n - start) = n by omega]
  have hbefore : (List.range' 0 start).filter P = [] := by
    rw [List.filter_eq_nil_iff]
    intro i hi
    rw [List.mem_range'_1] at hi
    rw [decide_eq_true_eq, hP i (by omega)]
    omega
  have hinside : (List.range' start length).filter P = List.range' start length := by
    rw [List.filter_eq_self]
    intro i hi
    rw [List.mem_range'_1] at hi
    rw [decide_eq_true_eq, hP i (by omega)]
    omega
  have hafter : (List.range' (start + length) (n - (start + length))).filter P = [] := by
    rw [List.filter_eq_nil_iff]
    intro i hi
    rw [List.mem_range'_1] at hi
    rw [decide_eq_true_eq, hP i (by omega)]
    omega
  rw [hsplit, List.filter_append, List.filter_append, hbefore, hinside, hafter, List.append_nil,
    List.nil_append]

/-- The positions of the elements of a segment, in ascending order. -/
theorem filter_range_segment {p : List α} (h : p.Nodup) (hn : p.length = n)
    (front mid back : List α) (hp : p = front ++ mid ++ back) (P : Nat → Prop) [DecidablePred P]
    (hP : ∀ i a, p[i]? = some a → (P i ↔ a ∈ mid)) :
    (List.range n).filter P = List.range' front.length mid.length := by
  subst hp
  rw [List.length_append, List.length_append] at hn
  apply filter_range_interval P front.length mid.length (by omega)
  intro i hi
  have hlt : i < (front ++ mid ++ back).length := by
    rw [List.length_append, List.length_append, hn]
    exact hi
  rw [hP i _ (List.getElem?_eq_getElem hlt)]
  exact mem_segment_iff front mid back h (List.getElem?_eq_getElem hlt)

end Eduort.Base
