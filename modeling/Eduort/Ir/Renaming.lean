import Eduort.Ir.NodeOrder
import Eduort.Ir.Values

/-!
# Other names for the values

Values are told apart by their names and by nothing else about them, but for the empty name of an
omitted input. Names that are kept apart can be exchanged for others: the graph is prepared as
before, into the same order, and computes the same values under the new names.
-/

namespace Eduort

/-- The node with other names for its values. -/
def Node.rename (f : String → String) (node : Node) : Node :=
  { node with inputs := node.inputs.map f, outputs := node.outputs.map f }

/-- A refused graph has no stored order. -/
theorem topoOrder_of_refused {g : Graph} (h : (prepareGraphStructure g).1 ≠ .ok ()) :
    (prepareGraphStructure g).2.topoOrder = [] := by
  rcases prepareGraphStructure_cases g with ⟨order, -, -, hrun⟩ | ⟨-, s, -, hrun⟩
  · rw [hrun] at h
    exact absurd rfl h
  · rw [hrun]

namespace Graph

/-- The second graph is the first one with other names for its values. -/
structure Renamed (f : String → String) (g g' : Graph) : Prop where
  injective : Function.Injective f
  map_empty : f "" = ""
  nodes : g'.nodes = g.nodes.map (Node.rename f)
  graphInputs : g'.graphInputs = g.graphInputs.map f
  graphOutputs : g'.graphOutputs = g.graphOutputs.map f
  initializers : g'.initializers.keys.Perm (g.initializers.keys.map f)

namespace Renamed

variable {f : String → String} {g g' : Graph} (h : g.Renamed f g')
include h

private theorem eq_empty_iff (name : String) : f name = "" ↔ name = "" := by
  rw [← h.injective.eq_iff (a := name), h.map_empty]

private theorem mem_map_iff (name : String) (names : List String) :
    f name ∈ names.map f ↔ name ∈ names := List.mem_map_of_injective h.injective

private theorem mem_initializers_iff (name : String) :
    name ∈ g'.initializers ↔ name ∈ g.initializers.keys.map f := by
  rw [← h.initializers.mem_iff, AList.mem_keys]

private theorem isSeed_iff (name : String) : g'.IsSeed (f name) ↔ g.IsSeed name := by
  rw [IsSeed, IsSeed, h.mem_initializers_iff, h.graphInputs, h.mem_map_iff, h.mem_map_iff,
    AList.mem_keys]

private theorem allOutputs_eq : g'.allOutputs = g.allOutputs.map f := by
  rw [allOutputs, allOutputs, h.nodes, List.flatMap_map, List.map_flatMap]
  rfl

private theorem defines_iff (name : String) : g'.Defines (f name) ↔ g.Defines name := by
  rw [Defines, Defines, h.isSeed_iff, h.allOutputs_eq, h.mem_map_iff]

private theorem inputsAt_eq (v : Nat) : g'.inputsAt v = (g.inputsAt v).map f := by
  rw [inputsAt, inputsAt, h.nodes, List.getElem?_map]
  cases g.nodes[v]? <;> rfl

private theorem outputsAt_eq (u : Nat) : g'.outputsAt u = (g.outputsAt u).map f := by
  rw [outputsAt, outputsAt, h.nodes, List.getElem?_map]
  cases g.nodes[u]? <;> rfl

/-- The wiring stays. -/
theorem edge_iff (u v : Nat) : g'.Edge u v ↔ g.Edge u v := by
  rw [Edge, Edge, h.inputsAt_eq, h.outputsAt_eq]
  constructor
  · rintro ⟨name', hin', hname, hout⟩
    obtain ⟨name, hin, rfl⟩ := List.mem_map.mp hin'
    exact ⟨name, hin, fun he ↦ hname ((h.eq_empty_iff name).mpr he), (h.mem_map_iff name _).mp hout⟩
  · rintro ⟨name, hin, hname, hout⟩
    exact ⟨f name, List.mem_map_of_mem hin, fun he ↦ hname ((h.eq_empty_iff name).mp he),
      List.mem_map_of_mem hout⟩

private theorem kahnOrder_eq : g'.kahnOrder = g.kahnOrder := by
  rw [kahnOrder, kahnOrder, h.nodes, List.length_map]
  exact kahnOrder_congr h.edge_iff

/-- Validation accepts both graphs or neither. -/
theorem wellFormed_iff : g'.WellFormed ↔ g.WellFormed := by
  have hnamed (names : List String) :
      (∀ name ∈ names.map f, name ≠ "") ↔ ∀ name ∈ names, name ≠ "" := by
    simp only [List.forall_mem_map, ne_eq, h.eq_empty_iff]
  have hinitializers : (∀ name ∈ g'.initializers, name ≠ "") ↔
      ∀ name ∈ g.initializers, name ≠ "" := by
    simp only [h.mem_initializers_iff]
    exact hnamed g.initializers.keys
  have hopTypes : (∀ node ∈ g'.nodes, node.opType ≠ "") ↔ ∀ node ∈ g.nodes, node.opType ≠ "" := by
    rw [h.nodes, List.forall_mem_map]
    rfl
  have hfresh : (∀ name ∈ g.allOutputs.map f, ¬ g'.IsSeed name) ↔
      ∀ name ∈ g.allOutputs, ¬ g.IsSeed name := by
    simp only [List.forall_mem_map, h.isSeed_iff]
  have hreads : (∀ node ∈ g'.nodes, ∀ name ∈ node.inputs, name ≠ "" → g'.Defines name) ↔
      ∀ node ∈ g.nodes, ∀ name ∈ node.inputs, name ≠ "" → g.Defines name := by
    rw [h.nodes]
    simp only [List.forall_mem_map, Node.rename, ne_eq, h.eq_empty_iff, h.defines_iff]
  have houtputs : (∀ name ∈ g.graphOutputs.map f, g'.Defines name) ↔
      ∀ name ∈ g.graphOutputs, g.Defines name := by
    simp only [List.forall_mem_map, h.defines_iff]
  have hinputs := hnamed g.graphInputs
  have hnodeOutputs := hnamed g.allOutputs
  have hdistinct := List.nodup_map_iff (l := g.allOutputs) h.injective
  have hgraphOutputs := hnamed g.graphOutputs
  rw [← h.graphInputs] at hinputs
  rw [← h.allOutputs_eq] at hnodeOutputs hfresh hdistinct
  rw [← h.graphOutputs] at hgraphOutputs houtputs
  constructor
  · intro hwf
    exact ⟨hinputs.mp hwf.inputs_named, hinitializers.mp hwf.initializers_named,
      hopTypes.mp hwf.opTypes_named, hnodeOutputs.mp hwf.nodeOutputs_named,
      hfresh.mp hwf.nodeOutputs_fresh, hdistinct.mp hwf.nodeOutputs_distinct,
      hreads.mp hwf.nodeInputs_defined, hgraphOutputs.mp hwf.graphOutputs_named,
      houtputs.mp hwf.graphOutputs_defined⟩
  · intro hwf
    exact ⟨hinputs.mpr hwf.inputs_named, hinitializers.mpr hwf.initializers_named,
      hopTypes.mpr hwf.opTypes_named, hnodeOutputs.mpr hwf.nodeOutputs_named,
      hfresh.mpr hwf.nodeOutputs_fresh, hdistinct.mpr hwf.nodeOutputs_distinct,
      hreads.mpr hwf.nodeInputs_defined, hgraphOutputs.mpr hwf.graphOutputs_named,
      houtputs.mpr hwf.graphOutputs_defined⟩

private theorem isOk_iff :
    (prepareGraphStructure g').1 = .ok () ↔ (prepareGraphStructure g).1 = .ok () := by
  have hE : g'.Edge = g.Edge := by
    ext u v
    exact h.edge_iff u v
  rw [prepareGraphStructure_isOk, prepareGraphStructure_isOk, h.wellFormed_iff, hE]

/-- The stored order of both graphs. -/
theorem topoOrder_eq :
    (prepareGraphStructure g').2.topoOrder = (prepareGraphStructure g).2.topoOrder := by
  by_cases hok : (prepareGraphStructure g).1 = .ok ()
  · have horder := prepareGraphStructure_order hok
    have horder' := prepareGraphStructure_order (h.isOk_iff.mpr hok)
    obtain ⟨-, -, horder⟩ := (computeTopoOrder_eq_ok_iff _ _).mp horder
    obtain ⟨-, -, horder'⟩ := (computeTopoOrder_eq_ok_iff _ _).mp horder'
    rw [horder, horder', h.kahnOrder_eq]
  · rw [topoOrder_of_refused hok, topoOrder_of_refused (fun hok' ↦ hok (h.isOk_iff.mp hok'))]

/-- The network of the second graph is that of the first one under the new names, for kernels that
do not look at the names. -/
theorem renames_network {V : Type} {kernel : Node → List (Option V) → Option (List V)}
    (hkernel : ∀ node, kernel (node.rename f) = kernel node) :
    (g.network kernel).Renames f (g'.network kernel) where
  injective := h.injective
  reads v := by
    show ((g'.inputsAt v).map fun name ↦ if name = "" then none else some name) = _
    rw [h.inputsAt_eq, network, List.map_map, List.map_map]
    apply List.map_congr_left
    intro name _
    show (if f name = "" then none else some (f name)) =
      Option.map f (if name = "" then none else some name)
    simp only [h.eq_empty_iff]
    split <;> rfl
  writes v := h.outputsAt_eq v
  op v := by
    have hcomp : kernel ∘ Node.rename f = kernel := by
      ext node : 1
      exact hkernel node
    show (g'.nodes[v]?.map kernel).getD _ = (g.nodes[v]?.map kernel).getD _
    rw [h.nodes, List.getElem?_map, Option.map_map, hcomp]

end Renamed

end Graph

/-- Preparation and execution do not depend on how the values are called: with other names, kept
apart and with omitted inputs left out, a graph is accepted as before, has the same order, and
computes for the new names what it computed for the old ones. -/
theorem prepareGraphStructure_renamed {f : String → String} {g g' : Graph} (h : g.Renamed f g') :
    ((prepareGraphStructure g').1 = .ok () ↔ (prepareGraphStructure g).1 = .ok ()) ∧
      (prepareGraphStructure g').2.topoOrder = (prepareGraphStructure g).2.topoOrder ∧
      ∀ {V : Type} (kernel : Node → List (Option V) → Option (List V)),
        (∀ node, kernel (node.rename f) = kernel node) → ∀ feeds : String → Option V,
          ((g'.network kernel).run (prepareGraphStructure g').2.topoOrder feeds).map (· ∘ f) =
            (g.network kernel).run (prepareGraphStructure g).2.topoOrder (feeds ∘ f) := by
  refine ⟨h.isOk_iff, h.topoOrder_eq, fun kernel hkernel feeds ↦ ?_⟩
  rw [h.topoOrder_eq]
  exact (h.renames_network hkernel).run_eq _ feeds

/-- The input and the result of `joinFirst` change their names. -/
def joinFirstSwapped : Graph where
  graphInputs := ["Z"]
  nodes := joinFirst.nodes.map (Node.rename (Equiv.swap "X" "Z"))

theorem prepareGraphStructure_renamed_joinFirst :
    (prepareGraphStructure joinFirstSwapped).2.topoOrder = [1, 2, 0] ∧
      ((joinFirstSwapped.network sumKernel).run (prepareGraphStructure joinFirstSwapped).2.topoOrder
        fun name ↦ if name = "Z" then some 1 else none).map (· ∘ Equiv.swap "X" "Z") =
          (joinFirst.network sumKernel).run [1, 2, 0]
            ((fun name ↦ if name = "Z" then some 1 else none) ∘ Equiv.swap "X" "Z") := by
  have hrenamed : joinFirst.Renamed (Equiv.swap "X" "Z") joinFirstSwapped :=
    ⟨(Equiv.swap "X" "Z").injective, by decide, rfl, by decide, rfl, .nil⟩
  have hkernel (node : Node) :
      sumKernel (node.rename (Equiv.swap "X" "Z")) = sumKernel node := by
    funext inputs
    simp [sumKernel, Node.rename, Function.comp_def]
  have horder : (prepareGraphStructure joinFirst).2.topoOrder = [1, 2, 0] := by decide
  obtain ⟨-, hsame, hrun⟩ := prepareGraphStructure_renamed hrenamed
  rw [horder] at hsame hrun
  exact ⟨hsame, hrun sumKernel hkernel _⟩

end Eduort
