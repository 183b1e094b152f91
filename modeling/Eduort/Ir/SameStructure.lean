import Eduort.Ir.Canonical
import Eduort.Ir.Defects

/-!
# What the structural passes do not see

Validation walks over the initializers in the order of a hash map, and the graph carries
attributes, tensors and versions that no structural pass reads. None of it shows: the defects of
a graph, and with them every message, are determined by its names and its wiring.
-/

namespace Eduort

namespace Graph

/-- The part of a node that the structural passes read. -/
def wiringOf (node : Node) : String × String × List String × List String :=
  (node.name, node.opType, node.inputs, node.outputs)

/-- The graphs differ at most in what the structural passes do not read: attributes, operator
domains, tensors, declared shapes, versions, and the layout of the hash map. -/
structure SameStructure (g g' : Graph) : Prop where
  nodes : g.nodes.map wiringOf = g'.nodes.map wiringOf
  graphInputs : g.graphInputs = g'.graphInputs
  graphOutputs : g.graphOutputs = g'.graphOutputs
  initializers : ∀ name, name ∈ g.initializers ↔ name ∈ g'.initializers

private theorem positionsOf_congr {front front' : List (Node × Nat)}
    (hfront : List.Forall₂ (fun x x' ↦ wiringOf x.1 = wiringOf x'.1 ∧ x.2 = x'.2) front front') :
    positionsOf front = positionsOf front' := by
  apply Base.flatMap_forall₂ _ hfront
  rintro ⟨node, ni⟩ ⟨node', ni'⟩ ⟨hnode, rfl⟩
  simp only [wiringOf, Prod.mk.injEq] at hnode
  show node.outputs.map (fun out ↦ (out, ni)) = node'.outputs.map fun out ↦ (out, ni)
  rw [hnode.2.2.2]

namespace SameStructure

variable {g g' : Graph} (h : g.SameStructure g')
include h

private theorem isSeed_iff (name : String) : g.IsSeed name ↔ g'.IsSeed name := by
  rw [IsSeed, IsSeed, h.graphInputs, h.initializers]

private theorem length_eq : g.nodes.length = g'.nodes.length := by
  have hlength := congrArg List.length h.nodes
  rwa [List.length_map, List.length_map] at hlength

/-- The nodes are alike one by one. -/
theorem forall₂_nodes : List.Forall₂ (fun x x' ↦ wiringOf x = wiringOf x') g.nodes g'.nodes := by
  have hnodes := h.nodes
  rw [← List.forall₂_eq_eq_eq, List.forall₂_map_left_iff, List.forall₂_map_right_iff] at hnodes
  exact hnodes

/-- With their indices too. -/
theorem forall₂_zipIdx : List.Forall₂ (fun x x' ↦ wiringOf x.1 = wiringOf x'.1 ∧ x.2 = x'.2)
    g.nodes.zipIdx g'.nodes.zipIdx := by
  have hnodes := congrArg List.zipIdx h.nodes
  rw [List.zipIdx_map, List.zipIdx_map, ← List.forall₂_eq_eq_eq, List.forall₂_map_left_iff,
    List.forall₂_map_right_iff] at hnodes
  exact hnodes.imp fun x x' hx ↦ Prod.mk.inj hx

private theorem outputPositions_eq : g.outputPositions = g'.outputPositions :=
  positionsOf_congr h.forall₂_zipIdx

private theorem allOutputs_eq : g.allOutputs = g'.allOutputs := by
  rw [← map_fst_outputPositions, ← map_fst_outputPositions, h.outputPositions_eq]

private theorem defines_iff (name : String) : g.Defines name ↔ g'.Defines name := by
  rw [Defines, Defines, h.isSeed_iff, h.allOutputs_eq]

private theorem inputsAt_eq (v : Nat) : g.inputsAt v = g'.inputsAt v := by
  have hinputs (g : Graph) :
      g.inputsAt v = ((g.nodes.map wiringOf)[v]?.map fun x ↦ x.2.2.1).getD [] := by
    rw [inputsAt, List.getElem?_map, Option.map_map]
    rfl
  rw [hinputs, hinputs, h.nodes]

private theorem outputsAt_eq (u : Nat) : g.outputsAt u = g'.outputsAt u := by
  have houtputs (g : Graph) :
      g.outputsAt u = ((g.nodes.map wiringOf)[u]?.map fun x ↦ x.2.2.2).getD [] := by
    rw [outputsAt, List.getElem?_map, Option.map_map]
    rfl
  rw [houtputs, houtputs, h.nodes]

private theorem edge_iff (u v : Nat) : g.Edge u v ↔ g'.Edge u v := by
  rw [Edge, Edge, h.inputsAt_eq, h.outputsAt_eq]

private theorem kahnOrder_eq : g.kahnOrder = g'.kahnOrder := by
  rw [kahnOrder, kahnOrder, h.length_eq]
  exact kahnOrder_congr h.edge_iff

private theorem outputDefects_eq (before : List (String × Nat)) {node node' : Node} (ni : Nat)
    (out : String) (hnode : wiringOf node = wiringOf node') :
    g.outputDefects before node ni out = g'.outputDefects before node' ni out := by
  simp only [wiringOf, Prod.mk.injEq] at hnode
  rw [outputDefects, outputDefects, emptyOutputStatus, emptyOutputStatus, hnode.1, hnode.2.1]
  simp only [h.isSeed_iff]

private theorem nodeDefects_eq (front front' : List (Node × Nat)) (x x' : Node × Nat)
    (hfront : List.Forall₂ (fun x x' ↦ wiringOf x.1 = wiringOf x'.1 ∧ x.2 = x'.2) front front')
    (hx : wiringOf x.1 = wiringOf x'.1 ∧ x.2 = x'.2) :
    g.nodeDefects front x = g'.nodeDefects front' x' := by
  obtain ⟨node, ni⟩ := x
  obtain ⟨node', ni'⟩ := x'
  obtain ⟨hnode, rfl⟩ := hx
  have hparts := hnode
  simp only [wiringOf, Prod.mk.injEq] at hparts
  rw [nodeDefects, nodeDefects, hparts.2.1, hparts.2.2.2, positionsOf_congr hfront]
  simp only [h.outputDefects_eq _ ni _ hnode]

private theorem inputDefects_eq (node node' : Node) (hnode : wiringOf node = wiringOf node') :
    node.inputs.flatMap (g.inputDefects node) = node'.inputs.flatMap (g'.inputDefects node') := by
  simp only [wiringOf, Prod.mk.injEq] at hnode
  rw [hnode.2.2.1]
  apply List.flatMap_congr
  intro name _
  rw [inputDefects, inputDefects, undefinedInputStatus, undefinedInputStatus, hnode.1, hnode.2.1]
  simp only [h.defines_iff]

private theorem edgeDefects_eq (node node' : Node) (hnode : wiringOf node = wiringOf node') :
    node.inputs.flatMap (g.edgeDefects node) = node'.inputs.flatMap (g'.edgeDefects node') := by
  simp only [wiringOf, Prod.mk.injEq] at hnode
  rw [hnode.2.2.1]
  apply List.flatMap_congr
  intro name _
  rw [edgeDefects, edgeDefects, selfLoopStatus, selfLoopStatus, hnode.1, hnode.2.2.2]
  simp only [h.defines_iff]

/-- Validation has the same against both graphs. -/
theorem defects_eq : g.defects = g'.defects := by
  have hresults : g.graphOutputs.flatMap g.resultDefects =
      g'.graphOutputs.flatMap g'.resultDefects := by
    rw [h.graphOutputs]
    apply List.flatMap_congr
    intro out _
    simp only [resultDefects, h.defines_iff]
  rw [defects, defects, h.graphInputs, hresults,
    Base.along_forall₂ h.nodeDefects_eq .nil h.forall₂_zipIdx,
    Base.flatMap_forall₂ h.inputDefects_eq h.forall₂_nodes]
  simp only [h.initializers]

/-- So has the sort. -/
theorem sortDefects_eq : g.sortDefects = g'.sortDefects := by
  rw [sortDefects, sortDefects, h.outputPositions_eq, ← length_kahnOrder, ← length_kahnOrder,
    h.kahnOrder_eq, h.length_eq, Base.flatMap_forall₂ h.edgeDefects_eq h.forall₂_nodes]

end SameStructure

end Graph

/-- Preparation sees the structure of a graph and nothing else: graphs that differ in attributes,
domains, tensors, shapes, versions, the stored order or the layout of the hash map get the same
status, message included, and the same order. -/
theorem prepareGraphStructure_sameStructure (g g' : Graph) (h : g.SameStructure g') :
    (prepareGraphStructure g).1 = (prepareGraphStructure g').1 ∧
      (prepareGraphStructure g).2.topoOrder = (prepareGraphStructure g').2.topoOrder := by
  rw [prepareGraphStructure_report, prepareGraphStructure_report, h.defects_eq, h.sortDefects_eq,
    h.kahnOrder_eq]
  cases g'.defects ++ g'.sortDefects with
  | nil => exact ⟨rfl, rfl⟩
  | cons s rest => exact ⟨rfl, rfl⟩

/-- A weight that holds two floats. -/
def pairWeight : Tensor := Tensor.fresh .kFloat32 { dims := [2] }

/-- A layer and its weights, in one layout of the hash map. -/
def layerWeights : Graph where
  graphInputs := ["X"]
  graphOutputs := ["Y"]
  initializers := AList.insert "W" pairWeight (AList.insert "B" pairWeight ∅)
  nodes := [{ opType := "Relu", inputs := ["Z"], outputs := ["Y"] },
    { opType := "Gemm", inputs := ["X", "W", "B"], outputs := ["Z"] }]

/-- The same weights in the other layout, nodes with domains, and an order from before. -/
def layerWeightsSwapped : Graph where
  graphInputs := ["X"]
  graphOutputs := ["Y"]
  initializers := AList.insert "B" pairWeight (AList.insert "W" pairWeight ∅)
  nodes := [{ opType := "Relu", domain := "ai.onnx", inputs := ["Z"], outputs := ["Y"] },
    { opType := "Gemm", domain := "ai.onnx", inputs := ["X", "W", "B"], outputs := ["Z"] }]
  topoOrder := [0, 1]

theorem prepareGraphStructure_sameStructure_layerWeights :
    (prepareGraphStructure layerWeightsSwapped).1 = .ok () ∧
      (prepareGraphStructure layerWeightsSwapped).2.topoOrder = [1, 0] := by
  have hinitializers (name : String) :
      name ∈ layerWeights.initializers ↔ name ∈ layerWeightsSwapped.initializers := by
    simp only [layerWeights, layerWeightsSwapped, AList.mem_insert, or_left_comm]
  obtain ⟨hstatus, horder⟩ := prepareGraphStructure_sameStructure layerWeights layerWeightsSwapped
    ⟨rfl, rfl, rfl, hinitializers⟩
  have hprepared : (prepareGraphStructure layerWeights).1 = .ok () := by decide
  have hsorted : (prepareGraphStructure layerWeights).2.topoOrder = [1, 0] := by decide
  exact ⟨hstatus.symm.trans hprepared, horder.symm.trans hsorted⟩

end Eduort
