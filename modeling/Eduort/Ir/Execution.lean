import Eduort.Base.Precedence
import Eduort.Ir.Validate
import Mathlib.Data.List.Perm.Basic

/-!
# Execution of a graph

The purpose of a node order, stated on its own: a run starts with the seeds defined, reads
only defined values and defines every value once. An order of all nodes is a schedule when
its run succeeds and defines the graph outputs.
-/

namespace Eduort

/-- Why a node cannot run. -/
inductive ExecError where
  | undefinedInput (v : Nat) (name : String)
  | redefinedOutput (v : Nat) (name : String)
  deriving DecidableEq, Repr

/-- Read one input; an empty name stands for an omitted one. -/
def readInput (v : Nat) (defined : Finset String) (name : String) : Except ExecError Unit :=
  if name ≠ "" ∧ name ∉ defined then .error (.undefinedInput v name) else .ok ()

/-- Define one output. -/
def writeOutput (v : Nat) (defined : Finset String) (out : String) :
    Except ExecError (Finset String) :=
  if out ∈ defined then .error (.redefinedOutput v out) else .ok (insert out defined)

namespace Graph

variable (g : Graph)

/-- Run one node: read its inputs, then define its outputs in turn. -/
def runNode (defined : Finset String) (v : Nat) : Except ExecError (Finset String) := do
  forM (g.inputsAt v) (readInput v defined)
  (g.outputsAt v).foldlM (writeOutput v) defined

/-- The names defined before any node runs. -/
def seedNames : Finset String := g.graphInputs.toFinset ∪ g.initializers.keys.toFinset

/-- Run the nodes in the given order. -/
def execute (order : List Nat) : Except ExecError (Finset String) :=
  order.foldlM g.runNode g.seedNames

/-- A schedule: an order of all nodes whose run succeeds and defines the graph outputs. -/
structure IsSchedule (order : List Nat) : Prop where
  perm : order.Perm (List.range g.nodes.length)
  runs : ∃ defined, g.execute order = .ok defined ∧ ∀ out ∈ g.graphOutputs, out ∈ defined

/-! ### Closed form of a run -/

/-- The names defined after the nodes of an order have run. -/
def definedAfter (order : List Nat) : Finset String :=
  g.seedNames ∪ (order.flatMap g.outputsAt).toFinset

/-- A node that can run on some defined names. -/
structure CanRun (defined : Finset String) (v : Nat) : Prop where
  reads : ∀ name ∈ g.inputsAt v, name ≠ "" → name ∈ defined
  writes : ∀ out ∈ g.outputsAt v, out ∉ defined
  distinct : (g.outputsAt v).Nodup

theorem mem_seedNames (name : String) : name ∈ g.seedNames ↔ g.IsSeed name := by
  rw [seedNames, Finset.mem_union, List.mem_toFinset, List.mem_toFinset, ← AList.mem_keys, IsSeed]

theorem mem_definedAfter (order : List Nat) (name : String) :
    name ∈ g.definedAfter order ↔ g.IsSeed name ∨ ∃ u ∈ order, name ∈ g.outputsAt u := by
  rw [definedAfter, Finset.mem_union, mem_seedNames, List.mem_toFinset, List.mem_flatMap]

private theorem definedAfter_concat (order : List Nat) (v : Nat) :
    g.definedAfter (order ++ [v]) = g.definedAfter order ∪ (g.outputsAt v).toFinset := by
  ext name
  simp only [Finset.mem_union, mem_definedAfter, List.mem_toFinset, List.mem_append,
    List.mem_singleton, or_and_right, exists_or, exists_eq_left, or_assoc]

private theorem readInput_eq_ok (v : Nat) (defined : Finset String) (name : String) :
    readInput v defined name = .ok () ↔ (name ≠ "" → name ∈ defined) := by
  rw [readInput, Base.check_eq_ok, not_and_not_right, and_iff_left rfl]

private theorem writeOutput_eq_ok (v : Nat) (defined defined' : Finset String) (out : String) :
    writeOutput v defined out = .ok defined' ↔ out ∉ defined ∧ defined' = insert out defined := by
  rw [writeOutput, Base.check_eq_ok, Base.ok_eq_ok]

private theorem foldlM_writeOutput (v : Nat) (defined defined' : Finset String)
    (outs : List String) : outs.foldlM (writeOutput v) defined = .ok defined' ↔
      ((∀ out ∈ outs, out ∉ defined) ∧ outs.Nodup) ∧ defined' = defined ∪ outs.toFinset := by
  apply Base.foldlM_eq_ok_iff fun outs defined' ↦
    ((∀ out ∈ outs, out ∉ defined) ∧ outs.Nodup) ∧ defined' = defined ∪ outs.toFinset
  · intro defined'
    simp [eq_comm]
  · intro outs out defined''
    simp only [writeOutput_eq_ok, List.forall_mem_append, List.forall_mem_singleton,
      List.nodup_append, List.toFinset_append]
    constructor
    · rintro ⟨⟨⟨houts, hout⟩, hnodup, -, hnew⟩, rfl⟩
      refine ⟨_, ⟨⟨houts, hnodup⟩, rfl⟩, ?_, by simp⟩
      rw [Finset.mem_union, List.mem_toFinset, not_or]
      exact ⟨hout, fun hmem ↦ hnew out hmem rfl⟩
    · rintro ⟨_, ⟨⟨houts, hnodup⟩, rfl⟩, hnew, rfl⟩
      rw [Finset.mem_union, List.mem_toFinset, not_or] at hnew
      refine ⟨⟨⟨houts, hnew.1⟩, hnodup, List.nodup_singleton out, ?_⟩, by simp⟩
      intro a ha hab
      exact hnew.2 (hab ▸ ha)

/-- A node runs exactly when it can, and adds its outputs. -/
theorem runNode_eq_ok (defined defined' : Finset String) (v : Nat) :
    g.runNode defined v = .ok defined' ↔
      g.CanRun defined v ∧ defined' = defined ∪ (g.outputsAt v).toFinset := by
  simp only [runNode, Base.bind_eq_ok, foldlM_writeOutput]
  constructor
  · rintro ⟨⟨⟩, hreads, ⟨hwrites, hdistinct⟩, hdefined⟩
    simp only [Base.forM_eq_ok_iff, readInput_eq_ok] at hreads
    exact ⟨⟨hreads, hwrites, hdistinct⟩, hdefined⟩
  · rintro ⟨h, hdefined⟩
    refine ⟨⟨⟩, ?_, ⟨h.writes, h.distinct⟩, hdefined⟩
    simp only [Base.forM_eq_ok_iff, readInput_eq_ok]
    exact h.reads

/-- A run succeeds exactly when every node can run after those in front of it. -/
theorem execute_eq_ok (order : List Nat) (defined : Finset String) :
    g.execute order = .ok defined ↔
      (∀ front v back, order = front ++ v :: back → g.CanRun (g.definedAfter front) v) ∧
        defined = g.definedAfter order := by
  apply Base.foldlM_eq_ok_iff fun order defined ↦
    (∀ front v back, order = front ++ v :: back → g.CanRun (g.definedAfter front) v) ∧
      defined = g.definedAfter order
  · intro defined
    simp [definedAfter, eq_comm]
  · intro order v defined'
    rw [Base.forall_split_concat (P := fun front v ↦ g.CanRun (g.definedAfter front) v)]
    simp only [runNode_eq_ok, definedAfter_concat]
    constructor
    · rintro ⟨⟨hfront, hv⟩, rfl⟩
      exact ⟨_, ⟨hfront, rfl⟩, hv, rfl⟩
    · rintro ⟨_, ⟨hfront, rfl⟩, hv, rfl⟩
      exact ⟨⟨hfront, hv⟩, rfl⟩

/-- The first nodes of a run that succeeds are one. -/
theorem execute_prefix {front back : List Nat} {defined : Finset String}
    (h : g.execute (front ++ back) = .ok defined) :
    g.execute front = .ok (g.definedAfter front) := by
  rw [execute_eq_ok] at h ⊢
  refine ⟨fun front' v back' hsplit ↦ h.1 front' v (back' ++ back) ?_, rfl⟩
  rw [hsplit, List.append_assoc, List.cons_append]

/-! ### Schedules and well-formedness -/

/-- The outputs along a run are new exactly when they are distinct and no seeds. -/
theorem writes_iff (order : List Nat) :
    (∀ front v back, order = front ++ v :: back →
      (∀ out ∈ g.outputsAt v, out ∉ g.definedAfter front) ∧ (g.outputsAt v).Nodup) ↔
      (order.flatMap g.outputsAt).Nodup ∧
        ∀ out ∈ order.flatMap g.outputsAt, ¬ g.IsSeed out := by
  induction order using List.reverseRecOn with
  | nil => simp
  | append_singleton order v ih =>
    rw [Base.forall_split_concat (P := fun front v ↦
        (∀ out ∈ g.outputsAt v, out ∉ g.definedAfter front) ∧ (g.outputsAt v).Nodup), ih,
      List.flatMap_append, List.flatMap_singleton, List.nodup_append, List.forall_mem_append]
    simp only [mem_definedAfter, not_or, List.mem_flatMap]
    constructor
    · rintro ⟨⟨hnodup, hseeds⟩, hnew, hv⟩
      exact ⟨⟨hnodup, hv, fun a ha b hb hab ↦ (hnew b hb).2 (hab ▸ ha)⟩, hseeds,
        fun out hout ↦ (hnew out hout).1⟩
    · rintro ⟨⟨hnodup, hv, hdisjoint⟩, hseeds, hvseeds⟩
      exact ⟨⟨hnodup, hseeds⟩,
        fun out hout ↦ ⟨hvseeds out hout, fun hold ↦ hdisjoint out hold out hout rfl⟩, hv⟩

/-- The outputs of the nodes by index are all outputs. -/
theorem flatMap_range_outputsAt :
    (List.range g.nodes.length).flatMap g.outputsAt = g.allOutputs := by
  have hrange (nodes : List Node) : (List.range nodes.length).flatMap
      (fun u ↦ (nodes[u]?.map Node.outputs).getD []) = nodes.flatMap Node.outputs := by
    induction nodes with
    | nil => rfl
    | cons node nodes ih =>
      rw [List.length_cons, List.range_succ_eq_map, List.flatMap_cons, List.flatMap_map,
        List.flatMap_cons, ← ih]
      rfl
  exact hrange g.nodes

end Graph
end Eduort
