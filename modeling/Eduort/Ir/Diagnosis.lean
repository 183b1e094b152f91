import Eduort.Ir.Prepare

/-!
# What a failed sort says about a validated graph

Validation and sorting check producers and definedness by separate passes. On a validated graph
the checks of the sort agree with those of the validation, so that only self-loops and cycles
remain, and the number in the message of a cycle counts the nodes that no cycle reaches.
-/

namespace Eduort

/-! ### Telling the messages apart -/

/-- The first letter of the message, different for each of the four errors of the sort. -/
def Status.letter (s : Status) : Option Char := s.message.toList.head?

@[simp] private theorem letter_secondProducerStatus (out : String) (first ni : Nat) :
    (secondProducerStatus out first ni).letter = some 'v' := by
  simp only [Status.letter, secondProducerStatus, Status.error, reduceCtorEq, ↓reduceDIte,
    String.toList_append, List.head?_append]
  rfl

@[simp] private theorem letter_undefinedStatus (name : String) :
    (undefinedStatus name).letter = some 't' := by
  simp only [Status.letter, undefinedStatus, Status.error, reduceCtorEq, ↓reduceDIte,
    String.toList_append, List.head?_append]
  rfl

@[simp] private theorem letter_selfLoopStatus (node : Node) (name : String) :
    (selfLoopStatus node name).letter = some 'n' := by
  simp only [Status.letter, selfLoopStatus, Status.error, reduceCtorEq, ↓reduceDIte,
    String.toList_append, List.head?_append]
  rfl

@[simp] private theorem letter_cycleStatus (n ordered : Nat) :
    (cycleStatus n ordered).letter = some 'g' := by
  simp only [Status.letter, cycleStatus, Status.error, reduceCtorEq, ↓reduceDIte,
    String.toList_append, List.head?_append]
  rfl

/-- A run that ends with one status does not end with a status of another letter. -/
theorem ne_error_of_letter {α : Type} {run : Outcome α} {s s' : Status}
    (hrun : run = .error (.status s)) (h : s.letter ≠ s'.letter) : run ≠ .error (.status s') := by
  rintro heq
  rw [hrun] at heq
  cases heq
  exact h rfl

/-! ### Validated graphs -/

namespace Graph

variable {g : Graph}

/-- Some node has one of its own outputs among its inputs. -/
def FeedsItself (g : Graph) : Prop := ∃ node ∈ g.nodes, ∃ name ∈ node.inputs, name ∈ node.outputs

/-- Where all outputs are named, feeding itself is an edge from a node to itself. -/
theorem WellFormed.feedsItself_iff (h : g.WellFormed) : g.FeedsItself ↔ ∃ v, g.Edge v v := by
  constructor
  · rintro ⟨node, hnode, name, hin, hout⟩
    obtain ⟨v, hv⟩ := List.getElem?_of_mem hnode
    have hread : name ∈ g.inputsAt v := (g.mem_inputsAt name v).mpr ⟨node, hv, hin⟩
    have hwritten : name ∈ g.outputsAt v := (g.mem_outputsAt name v).mpr ⟨node, hv, hout⟩
    have hname := h.nodeOutputs_named name ((g.mem_allOutputs name).mpr ⟨v, hwritten⟩)
    exact ⟨v, name, hread, hname, hwritten⟩
  · rintro ⟨v, name, hread, -, hwritten⟩
    obtain ⟨node, hnode, hin⟩ := (g.mem_inputsAt name v).mp hread
    rw [g.outputsAt_of_getElem? hnode] at hwritten
    exact ⟨node, List.mem_of_getElem? hnode, name, hin, hwritten⟩

/-- Validation leaves only two of the four diagnoses. -/
theorem WellFormed.diagnosis_cases (h : g.WellFormed) {s : Status} (hs : g.Diagnosis s) :
    (∃ node ∈ g.nodes, ∃ name ∈ node.inputs, name ∈ node.outputs ∧ s = selfLoopStatus node name) ∨
      (¬ g.FeedsItself ∧ ¬ Base.Acyclic g.Edge ∧
        s = cycleStatus g.nodes.length g.cycleFreeNodes.card) := by
  cases hs with
  | secondProducer out first ni hsingle => exact absurd h.wellWired.single hsingle
  | undefinedValue v name hin hname hundefined =>
    exact absurd (forall_inputs_iff.mp h.nodeInputs_defined v name hin hname) hundefined
  | selfLoop v node name hnode hin hname hout =>
    exact Or.inl ⟨node, List.mem_of_getElem? hnode, name, hin, hout, rfl⟩
  | cycle hself hcycle =>
    right
    refine ⟨?_, hcycle, rfl⟩
    rw [h.feedsItself_iff]
    rintro ⟨v, hv⟩
    exact hself v hv

end Graph

/-- How the sort of a validated graph ends. -/
theorem Graph.WellFormed.computeTopoOrder_cases {g : Graph} (h : g.WellFormed) :
    (∃ node ∈ g.nodes, ∃ name ∈ node.inputs, name ∈ node.outputs ∧
        computeTopoOrder g = .error (.status (selfLoopStatus node name))) ∨
      (¬ g.FeedsItself ∧ ¬ Base.Acyclic g.Edge ∧ computeTopoOrder g =
        .error (.status (cycleStatus g.nodes.length g.cycleFreeNodes.card))) ∨
      (¬ g.FeedsItself ∧ Base.Acyclic g.Edge ∧ ∃ order, computeTopoOrder g = .ok order) := by
  cases hrun : computeTopoOrder g with
  | ok order =>
    have hacyclic := ((computeTopoOrder_isOk g).mp ⟨order, hrun⟩).acyclic
    refine Or.inr (Or.inr ⟨?_, hacyclic, order, rfl⟩)
    rw [h.feedsItself_iff]
    rintro ⟨v, hv⟩
    exact hacyclic v (.single hv)
  | error stop =>
    obtain ⟨s, rfl, hdiagnosis⟩ := computeTopoOrder_eq_error g stop hrun
    rcases h.diagnosis_cases hdiagnosis with ⟨node, hnode, name, hin, hout, rfl⟩ |
      ⟨hself, hcycle, rfl⟩
    · exact Or.inl ⟨node, hnode, name, hin, hout, rfl⟩
    · exact Or.inr (Or.inl ⟨hself, hcycle, rfl⟩)

/-- On a validated graph the sort reports neither a second producer nor an undefined value. It
reports a self-loop, of a node and an input that have one, exactly when some node feeds itself.
Otherwise it reports a cycle exactly when there is one, with the number of nodes that neither
stand on a cycle nor are reached from one, and it succeeds when there is none. -/
theorem computeTopoOrder_diagnosis (g : Graph) (h : validateStructure g = .ok ()) :
    (∀ out first ni,
        computeTopoOrder g ≠ .error (.status (secondProducerStatus out first ni))) ∧
      (∀ name, computeTopoOrder g ≠ .error (.status (undefinedStatus name))) ∧
      ((∃ node name, computeTopoOrder g = .error (.status (selfLoopStatus node name))) ↔
        g.FeedsItself) ∧
      (g.FeedsItself → ∃ node ∈ g.nodes, ∃ name ∈ node.inputs, name ∈ node.outputs ∧
        computeTopoOrder g = .error (.status (selfLoopStatus node name))) ∧
      (¬ g.FeedsItself →
        ((∃ ordered, computeTopoOrder g =
            .error (.status (cycleStatus g.nodes.length ordered))) ↔ ¬ Base.Acyclic g.Edge) ∧
          (¬ Base.Acyclic g.Edge → computeTopoOrder g =
            .error (.status (cycleStatus g.nodes.length g.cycleFreeNodes.card))) ∧
          (Base.Acyclic g.Edge → ∃ order, computeTopoOrder g = .ok order)) := by
  rcases ((validateStructure_eq_ok g).mp h).computeTopoOrder_cases with
    ⟨node, hnode, name, hin, hout, hrun⟩ | ⟨hself, hcycle, hrun⟩ | ⟨hself, hacyclic, order, hrun⟩
  · have hself : g.FeedsItself := ⟨node, hnode, name, hin, hout⟩
    refine ⟨?_, ?_, iff_of_true ⟨node, name, hrun⟩ hself, ?_, fun hnot ↦ absurd hself hnot⟩
    · intro out first ni
      exact ne_error_of_letter hrun (by simp)
    · intro name'
      exact ne_error_of_letter hrun (by simp)
    · intro _
      exact ⟨node, hnode, name, hin, hout, hrun⟩
  · refine ⟨?_, ?_, iff_of_false ?_ hself, fun hyes ↦ absurd hyes hself, fun _ ↦ ⟨?_, ?_, ?_⟩⟩
    · intro out first ni
      exact ne_error_of_letter hrun (by simp)
    · intro name
      exact ne_error_of_letter hrun (by simp)
    · rintro ⟨node, name, hloop⟩
      exact ne_error_of_letter hrun (by simp) hloop
    · exact iff_of_true ⟨_, hrun⟩ hcycle
    · intro _
      exact hrun
    · intro hacyclic
      exact absurd hacyclic hcycle
  · rw [hrun]
    refine ⟨?_, ?_, iff_of_false ?_ hself, fun hyes ↦ absurd hyes hself, fun _ ↦ ⟨?_, ?_, ?_⟩⟩
    · intro out first ni hfails
      cases hfails
    · intro name hfails
      cases hfails
    · rintro ⟨node, name, hfails⟩
      cases hfails
    · apply iff_of_false _ (not_not.mpr hacyclic)
      rintro ⟨ordered, hfails⟩
      cases hfails
    · intro hcycle
      exact absurd hacyclic hcycle
    · intro _
      exact ⟨order, rfl⟩

/-- One node in front of nothing, and two that wait for each other. -/
def branchAndCycle : Graph where
  graphInputs := ["X"]
  graphOutputs := ["A"]
  nodes := [{ opType := "Relu", inputs := ["X"], outputs := ["A"] },
    { opType := "Relu", inputs := ["C"], outputs := ["B"] },
    { opType := "Relu", inputs := ["B"], outputs := ["C"] }]

theorem computeTopoOrder_diagnosis_branchAndCycle :
    computeTopoOrder branchAndCycle =
      .error (.status (cycleStatus 3 branchAndCycle.cycleFreeNodes.card)) := by
  obtain ⟨-, -, -, -, hcycle⟩ := computeTopoOrder_diagnosis branchAndCycle (by decide)
  refine (hcycle ?_).2.1 fun hacyclic ↦ hacyclic 1 ?_
  · simp [Graph.FeedsItself, branchAndCycle]
  · exact (Relation.TransGen.single (by decide : branchAndCycle.Edge 1 2)).tail (by decide)

end Eduort
