import Eduort.Base.Relabel
import Eduort.Ir.Canonical
import Eduort.Ir.Diagnosis
import Eduort.Ir.Layers

/-!
# The order of the node list

A model may list its nodes in any order. Rearranging them changes neither whether the graph is
prepared nor the message for a cycle; the schedules and the waves of one graph are those of the
other one under the new indices.
-/

namespace Eduort

namespace Graph

variable {g : Graph} {p : List Nat}

/-- The index that a node had before the rearrangement. -/
def oldIndex (p : List Nat) (j : Nat) : Nat := p.getD j 0

private theorem getElem?_oldIndex {p : List Nat} {j : Nat} (hj : j < p.length) :
    p[j]? = some (oldIndex p j) := by
  rw [oldIndex, List.getD_eq_getElem?_getD, List.getElem?_eq_getElem hj]
  rfl

/-- The edges of the rearranged graph are those of the graph between the old indices. -/
theorem relabels_reorder (hperm : p.Perm (List.range g.nodes.length)) :
    Base.Relabels g.Edge (g.reorder p).Edge (Finset.range g.nodes.length)
      (Finset.range (g.reorder p).nodes.length) (oldIndex p) where
  bij := by
    rw [length_reorder]
    have hmem {i : Nat} (hi : i < p.length) : oldIndex p i < g.nodes.length :=
      List.mem_range.mp (hperm.mem_iff.mp (List.mem_of_getElem? (getElem?_oldIndex hi)))
    refine ⟨fun i hi ↦ ?_, fun i hi j hj heq ↦ ?_, fun u hu ↦ ?_⟩
    · simp only [Finset.coe_range, Set.mem_Iio] at hi ⊢
      exact hmem hi
    · simp only [Finset.coe_range, Set.mem_Iio] at hi hj
      have hnodup : p.Nodup := hperm.nodup_iff.mpr List.nodup_range
      have hsame := (getElem?_oldIndex hi).trans (heq ▸ (getElem?_oldIndex hj).symm)
      exact (List.getElem?_inj hi hnodup).mp hsame
    · simp only [Finset.coe_range, Set.mem_Iio] at hu
      obtain ⟨i, hi⟩ := List.getElem?_of_mem (hperm.mem_iff.mpr (List.mem_range.mpr hu))
      have hlt := (List.getElem?_eq_some_iff.mp hi).1
      refine ⟨i, by simpa using hlt, ?_⟩
      exact Option.some.inj ((getElem?_oldIndex hlt).symm.trans hi)
  within u v huv := by
    simp only [Finset.mem_range]
    exact huv.lt
  within' i j hij := by
    simp only [Finset.mem_range]
    exact hij.lt
  edge_iff i hi j hj := by
    rw [Finset.mem_range, length_reorder] at hi hj
    exact (renumbered_reorder hperm).edge_iff (getElem?_oldIndex hi) (getElem?_oldIndex hj)

/-- The rearranged graph has the same nodes. -/
theorem perm_nodes_reorder (hperm : p.Perm (List.range g.nodes.length)) :
    (g.reorder p).nodes.Perm g.nodes := by
  have hmap := hperm.map fun v ↦ g.nodes.getD v {}
  rw [Base.map_getD_range] at hmap
  exact hmap

/-- Validation does not look at the order of the nodes. -/
theorem WellFormed.of_perm {g g' : Graph} (h : g.WellFormed) (hnodes : g'.nodes.Perm g.nodes)
    (hrest : g' = { g with nodes := g'.nodes }) : g'.WellFormed := by
  have hseed (name : String) : g'.IsSeed name ↔ g.IsSeed name := by
    rw [hrest]
    rfl
  have houts : g'.allOutputs.Perm g.allOutputs := hnodes.flatMap_right Node.outputs
  have hdefines (name : String) : g'.Defines name ↔ g.Defines name := by
    rw [Defines, Defines, hseed, houts.mem_iff]
  have hinputs : g'.graphInputs = g.graphInputs := by rw [hrest]
  have hinitializers : g'.initializers = g.initializers := by rw [hrest]
  have hresults : g'.graphOutputs = g.graphOutputs := by rw [hrest]
  exact {
    inputs_named := hinputs ▸ h.inputs_named
    initializers_named := hinitializers ▸ h.initializers_named
    opTypes_named := fun node hnode ↦ h.opTypes_named node (hnodes.mem_iff.mp hnode)
    nodeOutputs_named := fun name hname ↦ h.nodeOutputs_named name (houts.mem_iff.mp hname)
    nodeOutputs_fresh := by
      intro name hname
      rw [hseed]
      exact h.nodeOutputs_fresh name (houts.mem_iff.mp hname)
    nodeOutputs_distinct := houts.nodup_iff.mpr h.nodeOutputs_distinct
    nodeInputs_defined := by
      intro node hnode name hin hname
      rw [hdefines]
      exact h.nodeInputs_defined node (hnodes.mem_iff.mp hnode) name hin hname
    graphOutputs_named := hresults ▸ h.graphOutputs_named
    graphOutputs_defined := by
      intro name hname
      rw [hdefines]
      exact h.graphOutputs_defined name (hresults ▸ hname) }

section Reorder

variable (hperm : p.Perm (List.range g.nodes.length))
include hperm

private theorem wellFormed_reorder : (g.reorder p).WellFormed ↔ g.WellFormed := by
  have hnodes := perm_nodes_reorder hperm
  exact ⟨fun h ↦ h.of_perm hnodes.symm rfl, fun h ↦ h.of_perm hnodes rfl⟩

private theorem feedsItself_reorder : (g.reorder p).FeedsItself ↔ g.FeedsItself := by
  simp only [FeedsItself, (perm_nodes_reorder hperm).mem_iff]

private theorem length_nodes_reorder : (g.reorder p).nodes.length = g.nodes.length :=
  (perm_nodes_reorder hperm).length_eq

private theorem card_cycleFreeNodes_reorder :
    (g.reorder p).cycleFreeNodes.card = g.cycleFreeNodes.card := by
  classical
  have hrelabels := relabels_reorder hperm
  exact hrelabels.card_filter fun i hi ↦ hrelabels.cycleFree_iff hi

/-- An order of the rearranged nodes, read with the old indices, lists all nodes. -/
theorem perm_map_oldIndex {order : List Nat}
    (horder : order.Perm (List.range (g.reorder p).nodes.length)) :
    (order.map (oldIndex p)).Perm (List.range g.nodes.length) := by
  rw [length_reorder] at horder
  have hmap := horder.map (oldIndex p)
  have htable : (List.range p.length).map (oldIndex p) = p := Base.map_getD_range p 0
  rw [htable] at hmap
  exact hmap.trans hperm

private theorem acyclic_reorder : Base.Acyclic (g.reorder p).Edge ↔ Base.Acyclic g.Edge :=
  (relabels_reorder hperm).acyclic_iff

/-- A node is as deep as it was. -/
theorem depth_reorder (hacyclic : Base.Acyclic g.Edge) {j : Nat}
    (hj : j < (g.reorder p).nodes.length) : (g.reorder p).depth j = g.depth (oldIndex p j) :=
  (relabels_reorder hperm).depth_eq hacyclic (Finset.mem_range.mpr hj)

/-- The waves are the same nodes. -/
theorem perm_wave_reorder (hacyclic : Base.Acyclic g.Edge) {order order' : List Nat}
    (horder : order.Perm (List.range g.nodes.length))
    (horder' : order'.Perm (List.range (g.reorder p).nodes.length)) (d : Nat) :
    (((g.reorder p).wave order' d).map (oldIndex p)).Perm (g.wave order d) := by
  have hsame : ((g.reorder p).wave order' d).map (oldIndex p) =
      g.wave (order'.map (oldIndex p)) d := by
    rw [wave, wave, List.filter_map]
    congr 1
    apply List.filter_congr
    intro j hj
    have hlt := List.mem_range.mp (horder'.mem_iff.mp hj)
    rw [Function.comp_apply, depth_reorder hperm hacyclic hlt]
  rw [hsame]
  exact ((perm_map_oldIndex hperm horder').trans horder.symm).filter _

end Reorder

end Graph

/-- The returned status: that of the validation, else that of the sort. -/
theorem prepareGraphStructure_fst (g : Graph) :
    (prepareGraphStructure g).1 = match validateStructure g with
      | .error s => .error (.status s)
      | .ok () => (computeTopoOrder g).map fun _ ↦ () := by
  have hvalid : validateStructure { g with topoOrder := [] } = validateStructure g := rfl
  have hsort : computeTopoOrder { g with topoOrder := [] } = computeTopoOrder g := rfl
  rw [prepareGraphStructure]
  dsimp only
  rw [hvalid, hsort]
  cases validateStructure g with
  | error s => rfl
  | ok u =>
    cases computeTopoOrder g with
    | error stop => rfl
    | ok order => rfl

/-- Accepted graphs are the well-formed ones without a cycle. -/
theorem prepareGraphStructure_isOk (g : Graph) :
    (prepareGraphStructure g).1 = .ok () ↔ g.WellFormed ∧ Base.Acyclic g.Edge := by
  rw [prepareGraphStructure_fst, ← validateStructure_eq_ok]
  cases hvalid : validateStructure g with
  | error s => simp
  | ok u =>
    have hwf := (validateStructure_eq_ok g).mp hvalid
    rw [and_iff_right rfl, ← hwf.sortable_iff, ← computeTopoOrder_isOk]
    cases computeTopoOrder g with
    | error stop => simp [Except.map]
    | ok order => simp [Except.map]

/-- The stored order of an accepted graph is the result of the sort. -/
theorem prepareGraphStructure_order {g : Graph} (h : (prepareGraphStructure g).1 = .ok ()) :
    computeTopoOrder g = .ok (prepareGraphStructure g).2.topoOrder := by
  rcases prepareGraphStructure_cases g with ⟨order, -, horder, hrun⟩ | ⟨-, s, -, hrun⟩
  · rw [hrun]
    exact horder
  · rw [hrun] at h
    cases h

/-- A cycle behind a successful validation, without self-loops. -/
theorem Graph.WellFormed.computeTopoOrder_of_cycle {g : Graph} (h : g.WellFormed)
    (hself : ¬ g.FeedsItself) (hcycle : ¬ Base.Acyclic g.Edge) : computeTopoOrder g =
      .error (.status (cycleStatus g.nodes.length g.cycleFreeNodes.card)) := by
  rcases h.computeTopoOrder_cases with ⟨node, hnode, name, hin, hout, -⟩ | ⟨-, -, hrun⟩ |
    ⟨-, hacyclic, -⟩
  · exact absurd ⟨node, hnode, name, hin, hout⟩ hself
  · exact hrun
  · exact absurd hacyclic hcycle

/-- Rearranging the nodes. Both graphs are accepted or none is. If they are, the order of the
rearranged graph is a schedule of the graph under the old indices, and both orders have the same
nodes in every wave. If no node feeds itself, a validated graph gets the same status in every
arrangement, the message of a cycle included. -/
theorem prepareGraphStructure_reorder (g : Graph) (p : List Nat)
    (hperm : p.Perm (List.range g.nodes.length)) :
    ((prepareGraphStructure (g.reorder p)).1 = .ok () ↔ (prepareGraphStructure g).1 = .ok ()) ∧
      ((prepareGraphStructure g).1 = .ok () →
        g.IsSchedule
            ((prepareGraphStructure (g.reorder p)).2.topoOrder.map (Graph.oldIndex p)) ∧
          ∀ d, (((g.reorder p).wave (prepareGraphStructure (g.reorder p)).2.topoOrder d).map
              (Graph.oldIndex p)).Perm (g.wave (prepareGraphStructure g).2.topoOrder d)) ∧
      (validateStructure g = .ok () → ¬ g.FeedsItself →
        (prepareGraphStructure (g.reorder p)).1 = (prepareGraphStructure g).1) := by
  have haccept : (prepareGraphStructure (g.reorder p)).1 = .ok () ↔
      (prepareGraphStructure g).1 = .ok () := by
    rw [prepareGraphStructure_isOk, prepareGraphStructure_isOk, Graph.wellFormed_reorder hperm,
      Graph.acyclic_reorder hperm]
  refine ⟨haccept, fun hok ↦ ?_, fun hvalid hself ↦ ?_⟩
  · have horder := prepareGraphStructure_order hok
    have horder' := prepareGraphStructure_order (haccept.mpr hok)
    obtain ⟨hwf, hacyclic⟩ := (prepareGraphStructure_isOk g).mp hok
    obtain ⟨hlist, -⟩ := computeTopoOrder_sound g _ horder
    obtain ⟨hlist', hfirst'⟩ := computeTopoOrder_sound (g.reorder p) _ horder'
    constructor
    · apply hwf.isSchedule (Graph.perm_map_oldIndex hperm hlist')
      apply (Graph.relabels_reorder hperm).predsFirst_map _ hfirst'
      intro j hj
      rw [Finset.mem_range]
      exact List.mem_range.mp (hlist'.mem_iff.mp hj)
    · exact Graph.perm_wave_reorder hperm hacyclic hlist hlist'
  · have hwf := (validateStructure_eq_ok g).mp hvalid
    have hwf' := (Graph.wellFormed_reorder hperm).mpr hwf
    have hvalid' := (validateStructure_eq_ok (g.reorder p)).mpr hwf'
    have hself' := fun h ↦ hself ((Graph.feedsItself_reorder hperm).mp h)
    rw [prepareGraphStructure_fst, prepareGraphStructure_fst, hvalid, hvalid']
    by_cases hacyclic : Base.Acyclic g.Edge
    · have hacyclic' := (Graph.acyclic_reorder hperm).mpr hacyclic
      obtain ⟨order, horder⟩ := (computeTopoOrder_isOk g).mpr (hwf.sortable_iff.mpr hacyclic)
      obtain ⟨order', horder'⟩ :=
        (computeTopoOrder_isOk (g.reorder p)).mpr (hwf'.sortable_iff.mpr hacyclic')
      rw [horder, horder']
      rfl
    · have hacyclic' := fun h ↦ hacyclic ((Graph.acyclic_reorder hperm).mp h)
      rw [hwf.computeTopoOrder_of_cycle hself hacyclic,
        hwf'.computeTopoOrder_of_cycle hself' hacyclic', Graph.length_nodes_reorder hperm,
        Graph.card_cycleFreeNodes_reorder hperm]

/-- The join behind the nodes it reads, and then these the other way round. -/
theorem prepareGraphStructure_reorder_joinFirst :
    (prepareGraphStructure (joinFirst.reorder [2, 1, 0])).1 = .ok () ∧
      joinFirst.IsSchedule [2, 1, 0] := by
  have hprepared : (prepareGraphStructure joinFirst).1 = .ok () := by decide
  have horder : (prepareGraphStructure (joinFirst.reorder [2, 1, 0])).2.topoOrder = [0, 1, 2] := by
    decide
  obtain ⟨haccept, hschedule, -⟩ := prepareGraphStructure_reorder joinFirst [2, 1, 0] (by decide)
  obtain ⟨hschedule, -⟩ := hschedule hprepared
  rw [horder] at hschedule
  exact ⟨haccept.mpr hprepared, hschedule⟩

end Eduort
