import Eduort.Ir.Prepare

/-!
# The order as a canonical form

The queue loop sees the edges between node indices and nothing else. So graphs with the same
edges are sorted alike, and a graph whose nodes are rearranged into their own order is sorted
into the identity: its run is the first run under the new indices.
-/

namespace Eduort

/-! ### Renumbering a run -/

section Renumbering

variable {E E' : Nat → Nat → Prop} {n : Nat}

/-- The abstract order depends on the edges between nodes only. -/
theorem kahnOrder_congr [DecidableRel E] [DecidableRel E'] (h : ∀ u v, E u v ↔ E' u v) :
    kahnOrder E n = kahnOrder E' n := by
  have hE : E = E' := by
    ext u v
    exact h u v
  subst hE
  congr 1

/-- The edges `E'` are the edges `E` between the positions of a list of all nodes. -/
structure Renumbered (E E' : Nat → Nat → Prop) (n : Nat) (p : List Nat) : Prop where
  perm : p.Perm (List.range n)
  edge : ∀ i j, E' i j ↔ ∃ u v, p[i]? = some u ∧ p[j]? = some v ∧ E u v

namespace Renumbered

variable {p : List Nat} (h : Renumbered E E' n p)
include h

private theorem nodup : p.Nodup := h.perm.nodup_iff.mpr List.nodup_range

private theorem length_eq : p.length = n := by
  rw [h.perm.length_eq, List.length_range]

private theorem lt {j v : Nat} (hj : p[j]? = some v) : v < n :=
  List.mem_range.mp (h.perm.mem_iff.mp (List.mem_of_getElem? hj))

theorem edge_iff {i j u v : Nat} (hi : p[i]? = some u) (hj : p[j]? = some v) :
    E' i j ↔ E u v := by
  rw [h.edge]
  constructor
  · rintro ⟨u', v', hu', hv', huv⟩
    obtain rfl := Option.some.inj (hi.symm.trans hu')
    obtain rfl := Option.some.inj (hj.symm.trans hv')
    exact huv
  · intro huv
    exact ⟨u, v, hi, hj, huv⟩

variable [DecidableRel E] [DecidableRel E']

/-- A position misses nothing after the first positions exactly when its node misses nothing
after the nodes there. -/
theorem missing_eq_empty (front back : List Nat) (hp : p = front ++ back) {j v : Nat}
    (hj : p[j]? = some v) :
    missing E' n (List.range front.length) j = ∅ ↔ missing E n front v = ∅ := by
  have hfront {i u : Nat} (hi : p[i]? = some u) : u ∈ front ↔ i < front.length := by
    have hnodup := h.nodup
    rw [hp] at hi hnodup
    have hiff := Base.mem_segment_iff [] front back hnodup hi
    rw [hiff, List.length_nil, Nat.zero_add]
    exact and_iff_right (Nat.zero_le i)
  simp only [missing_eq_empty_iff, List.mem_range]
  constructor
  · intro hall u hu huv
    obtain ⟨i, hi⟩ := List.getElem?_of_mem (h.perm.mem_iff.mpr (List.mem_range.mpr hu))
    have hin : i < n := by
      rw [← h.length_eq]
      exact (List.getElem?_eq_some_iff.mp hi).1
    exact (hfront hi).mpr (hall i hin ((h.edge_iff hi hj).mpr huv))
  · intro hall i _ hij
    obtain ⟨u, v', hi, hj', huv⟩ := (h.edge i j).mp hij
    obtain rfl := Option.some.inj (hj.symm.trans hj')
    exact (hfront hi).mp (hall u (h.lt hi) huv)

/-- The sources stand at the first positions. -/
theorem sources_eq (back : List Nat) (hp : p = sources E n ++ back) :
    sources E' n = List.range' 0 (sources E n).length := by
  apply Base.filter_range_segment h.nodup h.length_eq [] (sources E n) back hp
    (fun j ↦ missing E' n [] j = ∅)
  intro j v hj
  have hmem := kahnInv_start.mem_iff (E := E) (n := n) v
  rw [List.nil_append] at hmem
  rw [hmem, and_iff_right (h.lt hj)]
  exact h.missing_eq_empty [] p rfl hj

/-- Released nodes that are queued next stand at the next positions. -/
theorem released_eq (order rest back : List Nat) (u : Nat)
    (hp : p = order ++ u :: rest ++ released E n order u ++ back) :
    released E' n (List.range order.length) order.length =
      List.range' (order ++ u :: rest).length (released E n order u).length := by
  have hu : p[order.length]? = some u := by
    rw [hp, List.append_assoc, List.append_assoc, List.getElem?_append_right (Nat.le_refl _),
      Nat.sub_self]
    rfl
  have hfront : p = order ++ [u] ++ (rest ++ (released E n order u ++ back)) := by
    rw [hp]
    simp only [List.append_assoc, List.cons_append, List.nil_append]
  rw [released_eq_filter]
  apply Base.filter_range_segment h.nodup h.length_eq (order ++ u :: rest) _ back hp
  intro j v hj
  have hmissing := h.missing_eq_empty (order ++ [u]) _ hfront hj
  rw [List.length_append, List.length_singleton, List.range_succ] at hmissing
  rw [mem_released, and_iff_right (h.lt hj), hmissing, h.edge_iff hu hj]

/-- The renumbered run emits the positions in ascending order: each of its states lists the
positions of the nodes that the first run has in its place. -/
theorem emitted_eq (hE : ∀ u v, E u v → u < n) (fuel : Nat) (order ready : List Nat)
    (hinv : KahnInv E n order ready) (hfuel : n ≤ order.length + fuel)
    (hp : emitted E n fuel order ready = p) :
    emitted E' n fuel (List.range order.length) (List.range' order.length ready.length) =
      List.range n := by
  induction fuel, order, ready, hinv, hfuel using KahnInv.induction hE with
  | done fuel order hinv hfuel =>
    rw [emitted_nil] at hp
    rw [List.length_nil, List.range'_zero, emitted_nil, hp, h.length_eq]
  | step fuel order u rest hinv hfuel hnext hfuelNext ih =>
    rw [emitted] at hp
    obtain ⟨back, hback⟩ := emitted_prefix hE fuel _ _ hnext hfuelNext
    have hsplit : p = order ++ u :: rest ++ released E n order u ++ back := by
      rw [← hp, ← hback, List.append_cons order u rest]
      simp only [List.append_assoc]
    have horder : List.range order.length ++ [order.length] = List.range (order ++ [u]).length := by
      rw [List.length_append, List.length_singleton, List.range_succ]
    have hqueue : List.range' (order.length + 1) rest.length ++
        List.range' (order ++ u :: rest).length (released E n order u).length =
          List.range' (order ++ [u]).length (rest ++ released E n order u).length := by
      have hlength : (order ++ u :: rest).length = order.length + 1 + rest.length := by
        rw [List.length_append, List.length_cons]
        omega
      rw [hlength, List.range'_append_1, List.length_append, List.length_append,
        List.length_singleton]
    rw [List.length_cons, List.range'_succ, emitted, h.released_eq order rest back u hsplit,
      horder, hqueue]
    exact ih hp

/-- The abstract order of the new indices is the identity. -/
theorem kahnOrder_eq (hE : ∀ u v, E u v → u < n) (hp : kahnOrder E n = p) :
    kahnOrder E' n = List.range n := by
  have hfuel : n ≤ ([] : List Nat).length + n := by simp
  obtain ⟨back, hback⟩ := emitted_prefix hE n [] (sources E n) kahnInv_start hfuel
  rw [kahnOrder, h.sources_eq back (hp.symm.trans hback.symm)]
  exact h.emitted_eq hE n [] (sources E n) kahnInv_start hfuel hp

end Renumbered

end Renumbering

namespace Graph

variable (g : Graph)

/-- The graph with its nodes in the order of a list of node indices. -/
def reorder (p : List Nat) : Graph := { g with nodes := p.map fun v ↦ g.nodes.getD v {} }

variable (p : List Nat)

@[simp] theorem length_reorder : (g.reorder p).nodes.length = p.length := by
  rw [reorder, List.length_map]

private theorem inputs_getD (v : Nat) : (g.nodes[v]?.getD {}).inputs = g.inputsAt v := by
  rw [inputsAt]
  cases g.nodes[v]? <;> rfl

private theorem outputs_getD (u : Nat) : (g.nodes[u]?.getD {}).outputs = g.outputsAt u := by
  rw [outputsAt]
  cases g.nodes[u]? <;> rfl

/-- The names at a position are those of the node that is moved there. -/
theorem mem_inputsAt_reorder (name : String) (j : Nat) :
    name ∈ (g.reorder p).inputsAt j ↔ ∃ v, p[j]? = some v ∧ name ∈ g.inputsAt v := by
  rw [inputsAt, reorder, List.getElem?_map]
  cases p[j]? with
  | none => simp
  | some v => simp [inputs_getD]

private theorem mem_outputsAt_reorder (name : String) (i : Nat) :
    name ∈ (g.reorder p).outputsAt i ↔ ∃ u, p[i]? = some u ∧ name ∈ g.outputsAt u := by
  rw [outputsAt, reorder, List.getElem?_map]
  cases p[i]? with
  | none => simp
  | some u => simp [outputs_getD]

private theorem edge_reorder (i j : Nat) :
    (g.reorder p).Edge i j ↔ ∃ u v, p[i]? = some u ∧ p[j]? = some v ∧ g.Edge u v := by
  simp only [Edge, mem_inputsAt_reorder, mem_outputsAt_reorder]
  constructor
  · rintro ⟨name, ⟨v, hv, hin⟩, hname, u, hu, hout⟩
    exact ⟨u, v, hu, hv, name, hin, hname, hout⟩
  · rintro ⟨u, v, hu, hv, name, hin, hname, hout⟩
    exact ⟨name, ⟨v, hv, hin⟩, hname, u, hu, hout⟩

private theorem allOutputs_reorder : (g.reorder p).allOutputs = p.flatMap g.outputsAt := by
  rw [allOutputs, reorder, List.flatMap_map]
  apply List.flatMap_congr
  intro u _
  rw [List.getD_eq_getElem?_getD, outputs_getD]

variable {g p}

theorem renumbered_reorder (hperm : p.Perm (List.range g.nodes.length)) :
    Renumbered g.Edge (g.reorder p).Edge g.nodes.length p :=
  ⟨hperm, g.edge_reorder p⟩

/-- Rearranging the nodes keeps the wiring good. -/
theorem WellWired.reorder (h : g.WellWired) (hperm : p.Perm (List.range g.nodes.length)) :
    (g.reorder p).WellWired where
  single := by
    rw [SingleProducers, allOutputs_reorder]
    exact (((perm_allOutputs hperm).filter _).nodup_iff).mpr h.single
  defined := by
    rw [forall_inputs_iff]
    intro j name hin hname
    obtain ⟨v, -, hin⟩ := (g.mem_inputsAt_reorder p name j).mp hin
    rcases forall_inputs_iff.mp h.defined v name hin hname with hseed | hout
    · exact Or.inl hseed
    · right
      rw [allOutputs_reorder, (perm_allOutputs hperm).mem_iff]
      exact hout

end Graph

/-- The sort succeeds exactly on well-wired graphs whose abstract order is complete. -/
theorem computeTopoOrder_eq_ok_iff (g : Graph) (order : List Nat) :
    computeTopoOrder g = .ok order ↔
      g.WellWired ∧ g.kahnOrder.length = g.nodes.length ∧ order = g.kahnOrder := by
  constructor
  · intro h
    obtain ⟨-, -, hcomplete, horder⟩ := (computeTopoOrder_eq_ok g order).mp h
    have hsortable := (computeTopoOrder_isOk g).mp ⟨order, h⟩
    exact ⟨(Graph.sortable_iff.mp hsortable).1, hcomplete, horder⟩
  · rintro ⟨hwired, hcomplete, rfl⟩
    have hsortable := Graph.sortable_iff.mpr ⟨hwired, g.length_kahnOrder_eq_iff.mp hcomplete⟩
    obtain ⟨order, horder⟩ := (computeTopoOrder_isOk g).mpr hsortable
    obtain ⟨-, -, -, rfl⟩ := (computeTopoOrder_eq_ok g order).mp horder
    exact horder

/-- Well-wired graphs with the same edges between as many nodes are sorted into the same order,
or both are refused. -/
theorem computeTopoOrder_sameWiring (g g' : Graph) (hg : g.WellWired) (hg' : g'.WellWired)
    (hlength : g.nodes.length = g'.nodes.length)
    (hedge : ∀ u < g.nodes.length, ∀ v < g.nodes.length, g.Edge u v ↔ g'.Edge u v) :
    (∃ order, computeTopoOrder g = .ok order ∧ computeTopoOrder g' = .ok order) ∨
      FailsWith .kModelLoad (computeTopoOrder g) ∧
        FailsWith .kModelLoad (computeTopoOrder g') := by
  have hsame (u v : Nat) : g.Edge u v ↔ g'.Edge u v := by
    constructor
    · intro h
      exact (hedge u h.lt.1 v h.lt.2).mp h
    · intro h
      have hlt := h.lt
      rw [← hlength] at hlt
      exact (hedge u hlt.1 v hlt.2).mpr h
  have horder : g.kahnOrder = g'.kahnOrder := by
    rw [Graph.kahnOrder, Graph.kahnOrder, hlength]
    exact kahnOrder_congr hsame
  by_cases hcomplete : g.kahnOrder.length = g.nodes.length
  · left
    refine ⟨g.kahnOrder, (computeTopoOrder_eq_ok_iff g _).mpr ⟨hg, hcomplete, rfl⟩, ?_⟩
    rw [computeTopoOrder_eq_ok_iff, ← horder, ← hlength]
    exact ⟨hg', hcomplete, rfl⟩
  · right
    constructor
    · apply computeTopoOrder_failsWith
      rintro ⟨order, h⟩
      exact hcomplete ((computeTopoOrder_eq_ok_iff g order).mp h).2.1
    · apply computeTopoOrder_failsWith
      rintro ⟨order, h⟩
      have hcomplete' := ((computeTopoOrder_eq_ok_iff g' order).mp h).2.1
      rw [← horder, ← hlength] at hcomplete'
      exact hcomplete hcomplete'

/-- The wiring of `joinFirst` under other names, with repeated, swapped and omitted inputs,
another seed and more outputs. -/
def joinFirstRenamed : Graph where
  graphInputs := ["seed"]
  nodes := [{ opType := "Sum", inputs := ["b", "", "a", "b"], outputs := ["c", ""] },
    { opType := "Split", inputs := ["seed"], outputs := ["", "a", "rest"] },
    { opType := "Relu", outputs := ["b"] }]

/-- Both list the two inputs of the join in front of it. -/
theorem computeTopoOrder_sameWiring_joinFirst :
    computeTopoOrder joinFirstRenamed = .ok [1, 2, 0] := by
  have hsorted : computeTopoOrder joinFirst = .ok [1, 2, 0] := by decide
  have hwired : joinFirst.WellWired := ⟨by decide, by decide⟩
  have hwired' : joinFirstRenamed.WellWired := ⟨by decide, by decide⟩
  rcases computeTopoOrder_sameWiring joinFirst joinFirstRenamed hwired hwired' rfl (by decide) with
    ⟨order, horder, horder'⟩ | ⟨⟨s, hfails, -⟩, -⟩
  · rw [hsorted] at horder
    cases horder
    exact horder'
  · rw [hsorted] at hfails
    cases hfails

/-- Sorting is idempotent: a graph whose nodes are rearranged into its computed order is sorted
into the identity. -/
theorem computeTopoOrder_reorder (g : Graph) (p : List Nat) (h : computeTopoOrder g = .ok p) :
    computeTopoOrder (g.reorder p) = .ok (List.range g.nodes.length) := by
  obtain ⟨hperm, -⟩ := computeTopoOrder_sound g p h
  obtain ⟨hwired, -, hp⟩ := (computeTopoOrder_eq_ok_iff g p).mp h
  have hrenumbered := Graph.renumbered_reorder hperm
  have hlength : (g.reorder p).nodes.length = g.nodes.length := by
    rw [Graph.length_reorder, hrenumbered.length_eq]
  have horder : (g.reorder p).kahnOrder = List.range g.nodes.length := by
    rw [Graph.kahnOrder, hlength]
    exact hrenumbered.kahnOrder_eq g.edge_lt_left hp.symm
  rw [computeTopoOrder_eq_ok_iff, horder, hlength, List.length_range]
  exact ⟨hwired.reorder hperm, rfl, rfl⟩

/-- The join moves behind the nodes it reads, and stays there. -/
theorem computeTopoOrder_reorder_joinFirst :
    computeTopoOrder joinFirst = .ok [1, 2, 0] ∧
      computeTopoOrder (joinFirst.reorder [1, 2, 0]) = .ok (List.range 3) := by
  have hsorted : computeTopoOrder joinFirst = .ok [1, 2, 0] := by decide
  exact ⟨hsorted, computeTopoOrder_reorder joinFirst [1, 2, 0] hsorted⟩

end Eduort
