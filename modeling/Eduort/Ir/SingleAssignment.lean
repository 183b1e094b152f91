import Eduort.Ir.Validate

/-!
# Single assignment

The value names of a graph are defined at three kinds of places. Validation compares all of
them except two entries of the graph inputs, which it inserts into one set.
-/

namespace Eduort

/-- A place of a graph that defines a name. -/
inductive DefinitionSite where
  | graphInput (i : Nat)
  | initializer (key : String)
  | nodeOutput (node position : Nat)

namespace DefinitionSite

/-- The documented overlap: an initializer is the default value of a graph input. -/
inductive DefaultWeight : DefinitionSite → DefinitionSite → Prop
  | input_initializer (i : Nat) (key : String) : DefaultWeight (graphInput i) (initializer key)
  | initializer_input (i : Nat) (key : String) : DefaultWeight (initializer key) (graphInput i)

end DefinitionSite

namespace Graph

variable (g : Graph)

/-- The site is there and defines the name. -/
def DefinesAt (name : String) : DefinitionSite → Prop
  | .graphInput i => g.graphInputs[i]? = some name
  | .initializer key => key = name ∧ key ∈ g.initializers
  | .nodeOutput node position => (g.outputsAt node)[position]? = some name

/-- Every name is defined at one site, or at a graph input and its default weight. -/
def SingleAssignment : Prop :=
  ∀ name site site', g.DefinesAt name site → g.DefinesAt name site' →
    site = site' ∨ DefinitionSite.DefaultWeight site site'

private theorem outputsAt_subset {name : String} {node position : Nat}
    (h : (g.outputsAt node)[position]? = some name) : name ∈ g.allOutputs :=
  (g.mem_allOutputs name).mpr ⟨node, List.mem_of_getElem? h⟩

/-- The outputs of one node are among all outputs. -/
theorem nodup_outputsAt (h : g.allOutputs.Nodup) (v : Nat) : (g.outputsAt v).Nodup := by
  unfold outputsAt
  cases hnode : g.nodes[v]? with
  | none => exact List.nodup_nil
  | some node => exact (List.nodup_flatMap.mp h).1 node (List.mem_of_getElem? hnode)

/-- Different output positions of a well-formed graph hold different names. -/
theorem WellFormed.nodeOutput_unique {g : Graph} (h : g.WellFormed) {name : String}
    {node node' position position' : Nat} (hname : (g.outputsAt node)[position]? = some name)
    (hname' : (g.outputsAt node')[position']? = some name) :
    node = node' ∧ position = position' := by
  have hne : name ≠ "" := h.nodeOutputs_named name (g.outputsAt_subset hname)
  have hsingle : g.SingleProducers := h.nodeOutputs_distinct.filter _
  obtain rfl := hsingle.unique g hne (List.mem_of_getElem? hname) (List.mem_of_getElem? hname')
  refine ⟨rfl, ?_⟩
  obtain ⟨hposition, -⟩ := List.getElem?_eq_some_iff.mp hname
  exact (List.getElem?_inj hposition (g.nodup_outputsAt h.nodeOutputs_distinct node)).mp
    (hname.trans hname'.symm)

/-- In a well-formed graph no node output shares its name with a seed. -/
theorem WellFormed.seed_ne_nodeOutput {g : Graph} (h : g.WellFormed) {name : String}
    {node position : Nat} (hseed : g.IsSeed name) :
    (g.outputsAt node)[position]? ≠ some name := by
  intro hname
  exact h.nodeOutputs_fresh name (g.outputsAt_subset hname) hseed

/-- Only repeated graph inputs can break single assignment in a well-formed graph. -/
theorem WellFormed.singleAssignment_iff {g : Graph} (h : g.WellFormed) :
    g.SingleAssignment ↔ g.graphInputs.Nodup := by
  constructor
  · intro hsingle
    rw [List.nodup_iff_getElem?_ne_getElem?]
    intro i j hij hj heq
    have hi : i < g.graphInputs.length := Nat.lt_trans hij hj
    have hname : g.graphInputs[i]? = some g.graphInputs[i] := List.getElem?_eq_getElem hi
    rcases hsingle g.graphInputs[i] (.graphInput i) (.graphInput j) hname
      (heq.symm.trans hname) with heq | hdefault
    · cases heq
      exact Nat.lt_irrefl _ hij
    · cases hdefault
  · intro hnodup name site site' hsite hsite'
    cases site with
    | graphInput i =>
      have hseed : g.IsSeed name := Or.inl (List.mem_of_getElem? hsite)
      cases site' with
      | graphInput j =>
        left
        obtain ⟨hi, -⟩ := List.getElem?_eq_some_iff.mp hsite
        rw [(List.getElem?_inj hi hnodup).mp (hsite.trans hsite'.symm)]
      | initializer key => exact Or.inr (.input_initializer i key)
      | nodeOutput node position => exact absurd hsite' (h.seed_ne_nodeOutput hseed)
    | initializer key =>
      have hseed : g.IsSeed name := Or.inr (hsite.1 ▸ hsite.2)
      cases site' with
      | graphInput j => exact Or.inr (.initializer_input j key)
      | initializer key' => exact Or.inl (congrArg _ (hsite.1.trans hsite'.1.symm))
      | nodeOutput node position => exact absurd hsite' (h.seed_ne_nodeOutput hseed)
    | nodeOutput node position =>
      cases site' with
      | graphInput j =>
        exact absurd hsite (h.seed_ne_nodeOutput (Or.inl (List.mem_of_getElem? hsite')))
      | initializer key =>
        exact absurd hsite (h.seed_ne_nodeOutput (Or.inr (hsite'.1 ▸ hsite'.2)))
      | nodeOutput node' position' =>
        obtain ⟨rfl, rfl⟩ := h.nodeOutput_unique hsite hsite'
        exact Or.inl rfl

end Graph

/-- An accepted graph has single assignment exactly when no graph input is listed twice. -/
theorem validateStructure_singleAssignment_iff (g : Graph) (h : validateStructure g = .ok ()) :
    g.SingleAssignment ↔ g.graphInputs.Nodup :=
  ((validateStructure_eq_ok g).mp h).singleAssignment_iff

theorem validateStructure_singleAssignment_identity :
    Graph.SingleAssignment
      { graphInputs := ["X"], graphOutputs := ["Y"]
        nodes := [{ opType := "Identity", inputs := ["X"], outputs := ["Y"] }] } :=
  (validateStructure_singleAssignment_iff _ (by decide)).mpr (by decide)

/-- A repeated graph input is accepted. -/
theorem validateStructure_repeated_input :
    validateStructure { graphInputs := ["X", "X"] } = .ok () ∧
      ¬ Graph.SingleAssignment { graphInputs := ["X", "X"] } := by
  refine ⟨by decide, fun hsingle ↦ ?_⟩
  rcases hsingle "X" (.graphInput 0) (.graphInput 1) rfl rfl with heq | hdefault
  · cases heq
  · cases hdefault

end Eduort
