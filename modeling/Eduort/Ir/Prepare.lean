import Eduort.Ir.Execution
import Eduort.Ir.TopoCorrect

/-!
# Preparing a graph

Validation and sorting together accept exactly the graphs that can be executed, and the
stored order is a schedule. Validation covers the names; the edges between producers and
consumers connect the two passes to the runs of the graph.
-/

namespace Eduort

namespace Graph

/-- Every name that has to be present is. -/
structure Named (g : Graph) : Prop where
  inputs : ∀ name ∈ g.graphInputs, name ≠ ""
  initializers : ∀ name ∈ g.initializers, name ≠ ""
  opTypes : ∀ node ∈ g.nodes, node.opType ≠ ""
  nodeOutputs : ∀ name ∈ g.allOutputs, name ≠ ""
  graphOutputs : ∀ name ∈ g.graphOutputs, name ≠ ""

/-- Non-empty outputs have one producer each and non-empty node inputs are defined. -/
structure WellWired (g : Graph) : Prop where
  single : g.SingleProducers
  defined : ∀ node ∈ g.nodes, ∀ name ∈ node.inputs, name ≠ "" → g.Defines name

variable {g : Graph}

private theorem WellFormed.named (h : g.WellFormed) : g.Named :=
  ⟨h.inputs_named, h.initializers_named, h.opTypes_named, h.nodeOutputs_named,
    h.graphOutputs_named⟩

theorem WellFormed.wellWired (h : g.WellFormed) : g.WellWired :=
  ⟨h.nodeOutputs_distinct.filter _, h.nodeInputs_defined⟩

theorem perm_allOutputs {order : List Nat} (h : order.Perm (List.range g.nodes.length)) :
    (order.flatMap g.outputsAt).Perm g.allOutputs := by
  rw [← g.flatMap_range_outputsAt]
  exact h.flatMap_right _

theorem definedAfter_perm {order : List Nat} (h : order.Perm (List.range g.nodes.length))
    (name : String) : name ∈ g.definedAfter order ↔ g.Defines name := by
  rw [definedAfter, Finset.mem_union, mem_seedNames, List.mem_toFinset, (perm_allOutputs h).mem_iff,
    Defines]

/-- A property of all node inputs, by node or by index. -/
theorem forall_inputs_iff {P : String → Prop} :
    (∀ node ∈ g.nodes, ∀ name ∈ node.inputs, P name) ↔ ∀ v, ∀ name ∈ g.inputsAt v, P name := by
  constructor
  · intro h v name hin
    obtain ⟨node, hnode, hin⟩ := (g.mem_inputsAt name v).mp hin
    exact h node (List.mem_of_getElem? hnode) name hin
  · intro h node hnode name hin
    obtain ⟨v, hv⟩ := List.getElem?_of_mem hnode
    exact h v name ((g.mem_inputsAt name v).mpr ⟨node, hv, hin⟩)

/-- In a well-formed graph every order of the nodes that respects the edges is a schedule. -/
theorem WellFormed.isSchedule (h : g.WellFormed) {order : List Nat}
    (hperm : order.Perm (List.range g.nodes.length)) (hfirst : Base.PredsFirst g.Edge order) :
    g.IsSchedule order where
  perm := hperm
  runs := by
    have hwrites := (g.writes_iff order).mpr
      ⟨(perm_allOutputs hperm).nodup_iff.mpr h.nodeOutputs_distinct,
        fun out hout ↦ h.nodeOutputs_fresh out ((perm_allOutputs hperm).mem_iff.mp hout)⟩
    refine ⟨g.definedAfter order, (g.execute_eq_ok order _).mpr ⟨?_, rfl⟩, fun out hout ↦ ?_⟩
    · intro front v back hsplit
      obtain ⟨hnew, hdistinct⟩ := hwrites front v back hsplit
      refine ⟨fun name hin hname ↦ ?_, hnew, hdistinct⟩
      rw [mem_definedAfter]
      rcases forall_inputs_iff.mp h.nodeInputs_defined v name hin hname with hseed | hout
      · exact Or.inl hseed
      · obtain ⟨u, hu⟩ := (g.mem_allOutputs name).mp hout
        exact Or.inr ⟨u, hfirst front v back hsplit u ⟨name, hin, hname, hu⟩, hu⟩
    · exact (definedAfter_perm hperm out).mpr (h.graphOutputs_defined out hout)

/-- A schedule of a named graph shows that the graph is well-formed. -/
theorem IsSchedule.wellFormed (hnamed : g.Named) {order : List Nat} (h : g.IsSchedule order) :
    g.WellFormed := by
  obtain ⟨defined, hrun, houts⟩ := h.runs
  obtain ⟨hcan, rfl⟩ := (g.execute_eq_ok order defined).mp hrun
  obtain ⟨hdistinct, hfresh⟩ := (g.writes_iff order).mp fun front v back hsplit ↦
    ⟨(hcan front v back hsplit).writes, (hcan front v back hsplit).distinct⟩
  have houtputs := perm_allOutputs h.perm
  exact {
    inputs_named := hnamed.inputs
    initializers_named := hnamed.initializers
    opTypes_named := hnamed.opTypes
    nodeOutputs_named := hnamed.nodeOutputs
    nodeOutputs_fresh := fun name hname ↦ hfresh name (houtputs.mem_iff.mpr hname)
    nodeOutputs_distinct := houtputs.nodup_iff.mp hdistinct
    nodeInputs_defined := by
      rw [forall_inputs_iff]
      intro v name hin hname
      have hv : v ∈ order := h.perm.mem_iff.mpr (List.mem_range.mpr (g.lt_of_mem_inputsAt hin))
      obtain ⟨front, back, hsplit⟩ := List.append_of_mem hv
      have hread := (hcan front v back hsplit).reads name hin hname
      rcases (g.mem_definedAfter front name).mp hread with hseed | ⟨u, -, hu⟩
      · exact Or.inl hseed
      · exact Or.inr ((g.mem_allOutputs name).mpr ⟨u, hu⟩)
    graphOutputs_named := hnamed.graphOutputs
    graphOutputs_defined := fun name hname ↦ (definedAfter_perm h.perm name).mp (houts name hname) }

/-- A schedule of a well-formed graph respects the edges. -/
theorem IsSchedule.predsFirst (hwf : g.WellFormed) {order : List Nat} (h : g.IsSchedule order) :
    Base.PredsFirst g.Edge order := by
  obtain ⟨defined, hrun, -⟩ := h.runs
  obtain ⟨hcan, -⟩ := (g.execute_eq_ok order defined).mp hrun
  have hsingle := hwf.wellWired.single
  rintro front v back hsplit u ⟨name, hin, hname, hu⟩
  have hread := (hcan front v back hsplit).reads name hin hname
  rcases (g.mem_definedAfter front name).mp hread with hseed | ⟨u', hu'front, hu'⟩
  · exact absurd hseed (hwf.nodeOutputs_fresh name ((g.mem_allOutputs name).mpr ⟨u, hu⟩))
  · rwa [hsingle.unique g hname hu hu']

/-- What is left for a sort of a well-wired graph is that its edges have no cycle. -/
theorem sortable_iff : g.Sortable ↔ g.WellWired ∧ Base.Acyclic g.Edge := by
  constructor
  · intro h
    exact ⟨⟨h.single, forall_inputs_iff.mpr h.defined⟩, h.acyclic⟩
  · rintro ⟨hwired, hacyclic⟩
    exact ⟨hwired.single, forall_inputs_iff.mp hwired.defined, hacyclic⟩

/-- A well-formed graph is sortable exactly when its edges have no cycle. -/
theorem WellFormed.sortable_iff (h : g.WellFormed) : g.Sortable ↔ Base.Acyclic g.Edge := by
  rw [Graph.sortable_iff, and_iff_right h.wellWired]

/-- Both passes succeed exactly when all names are present and some schedule exists. -/
theorem prepared_iff (g : Graph) :
    g.WellFormed ∧ g.Sortable ↔ g.Named ∧ ∃ order, g.IsSchedule order := by
  constructor
  · rintro ⟨hwf, hsortable⟩
    obtain ⟨order, horder⟩ := (computeTopoOrder_isOk g).mpr hsortable
    obtain ⟨hperm, hfirst⟩ := computeTopoOrder_sound g order horder
    exact ⟨hwf.named, order, hwf.isSchedule hperm hfirst⟩
  · rintro ⟨hnamed, order, h⟩
    have hwf := h.wellFormed hnamed
    have hacyclic : Base.Acyclic g.Edge := by
      apply (h.predsFirst hwf).acyclic
      intro u v huv
      exact h.perm.mem_iff.mpr (List.mem_range.mpr huv.lt.2)
    exact ⟨hwf, hwf.sortable_iff.mpr hacyclic⟩

end Graph

/-- The stored order plays no part in what a schedule is. -/
theorem Graph.isSchedule_topoOrder (g : Graph) (stale order : List Nat) :
    ({ g with topoOrder := stale } : Graph).IsSchedule order ↔ g.IsSchedule order :=
  ⟨fun h ↦ ⟨h.perm, h.runs⟩, fun h ↦ ⟨h.perm, h.runs⟩⟩

private theorem Graph.named_topoOrder (g : Graph) (stale : List Nat) :
    ({ g with topoOrder := stale } : Graph).Named ↔ g.Named :=
  ⟨fun h ↦ ⟨h.1, h.2, h.3, h.4, h.5⟩, fun h ↦ ⟨h.1, h.2, h.3, h.4, h.5⟩⟩

/-- How the preparation ends: with the order of the cleared graph, or with an error. -/
theorem prepareGraphStructure_cases (g : Graph) :
    (∃ order, validateStructure { g with topoOrder := [] } = .ok () ∧
      computeTopoOrder { g with topoOrder := [] } = .ok order ∧
      prepareGraphStructure g = (.ok (), { g with topoOrder := order })) ∨
    (¬ (validateStructure { g with topoOrder := [] } = .ok () ∧
        ∃ order, computeTopoOrder { g with topoOrder := [] } = .ok order) ∧
      ∃ s : Status, s.code = .kModelLoad ∧
        prepareGraphStructure g = (.error (.status s), { g with topoOrder := [] })) := by
  cases hvalid : validateStructure { g with topoOrder := [] } with
  | error s =>
    right
    refine ⟨?_, s, validateStructure_eq_error _ s hvalid, ?_⟩
    · rintro ⟨hok, -⟩
      cases hok
    · simp only [prepareGraphStructure, hvalid]
  | ok _ =>
    cases horder : computeTopoOrder { g with topoOrder := [] } with
    | ok order =>
      left
      exact ⟨order, rfl, rfl, by simp only [prepareGraphStructure, hvalid, horder]⟩
    | error stop =>
      right
      obtain ⟨s, rfl, hdiagnosis⟩ := computeTopoOrder_eq_error _ stop horder
      refine ⟨?_, s, hdiagnosis.code, by simp only [prepareGraphStructure, hvalid, horder]⟩
      rintro ⟨-, order, hok⟩
      cases hok

/-- Preparation accepts exactly the graphs that can be executed and stores a schedule; on an
error the order is empty, and no other field changes in either case. -/
theorem prepareGraphStructure_correct (g : Graph) :
    ((prepareGraphStructure g).1 = .ok () ↔ g.Named ∧ ∃ order, g.IsSchedule order) ∧
      ((prepareGraphStructure g).1 = .ok () →
        g.IsSchedule (prepareGraphStructure g).2.topoOrder) ∧
      ((prepareGraphStructure g).1 ≠ .ok () →
        FailsWith .kModelLoad (prepareGraphStructure g).1 ∧
          (prepareGraphStructure g).2.topoOrder = []) ∧
      (prepareGraphStructure g).2 =
        { g with topoOrder := (prepareGraphStructure g).2.topoOrder } := by
  have hiff : (validateStructure { g with topoOrder := [] } = .ok () ∧
      ∃ order, computeTopoOrder { g with topoOrder := [] } = .ok order) ↔
      g.Named ∧ ∃ order, g.IsSchedule order := by
    rw [validateStructure_eq_ok, computeTopoOrder_isOk, Graph.prepared_iff, g.named_topoOrder]
    simp only [g.isSchedule_topoOrder]
  rcases prepareGraphStructure_cases g with
    ⟨order, hvalid, horder, hrun⟩ | ⟨hrejected, s, hcode, hrun⟩
  · rw [hrun]
    have hwf := (validateStructure_eq_ok _).mp hvalid
    obtain ⟨hperm, hfirst⟩ := computeTopoOrder_sound _ order horder
    have hschedule := hwf.isSchedule hperm hfirst
    exact ⟨iff_of_true rfl (hiff.mp ⟨hvalid, order, horder⟩),
      fun _ ↦ (g.isSchedule_topoOrder [] order).mp hschedule, fun h ↦ absurd rfl h, rfl⟩
  · rw [hrun]
    rw [hiff] at hrejected
    exact ⟨iff_of_false nofun hrejected, nofun, fun _ ↦ ⟨⟨s, rfl, hcode⟩, rfl⟩, rfl⟩

end Eduort
