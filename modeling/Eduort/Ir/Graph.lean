import Eduort.Tensor.Basic
import Mathlib.Data.List.AList

/-!
# Graph IR

Models `include/eduort/graph.h`. A `std::unordered_map` is an association list with
distinct keys; its entry order is the iteration order, which the source leaves open.
`float` attributes are 32-bit patterns and string attributes are bytes.
-/

namespace Eduort

/-- Kinds of attributes the loader accepts; `include/eduort/graph.h:24`. -/
inductive AttributeKind where
  | kFloat
  | kInt
  | kInts
  | kString
  | kTensor
  deriving DecidableEq, Repr

/-- Typed metadata on a node; only the field that matches `kind` is meaningful;
`include/eduort/graph.h:23`. -/
structure Attribute where
  name : String := ""
  kind : AttributeKind := .kFloat
  f : UInt32 := 0
  i : Int64 := 0
  ints : List Int64 := []
  s : List UInt8 := []
  tensor : Option Tensor := none
  deriving DecidableEq

/-- Operator invocation; an empty input name is an omitted optional input;
`include/eduort/graph.h:43`. -/
structure Node where
  name : String := ""
  opType : String := ""
  domain : String := ""
  inputs : List String := []
  outputs : List String := []
  attributes : List Attribute := []
  deriving DecidableEq

/-- `std::unordered_map<std::string, α>`. -/
abbrev NameMap (α : Type) := AList fun _ : String ↦ α

/-- Equality by entries, in a form that evaluates. -/
instance {α : Type} [DecidableEq α] : DecidableEq (NameMap α) := fun xs ys ↦
  decidable_of_iff (xs.entries = ys.entries) AList.ext_iff.symm

/-- Loaded model; `include/eduort/graph.h:52`. -/
structure Graph where
  name : String := ""
  nodes : List Node := []
  topoOrder : List Nat := []
  initializers : NameMap Tensor := ∅
  graphInputs : List String := []
  graphOutputs : List String := []
  valueShapes : NameMap TensorShape := ∅
  opsetVersion : Int64 := 0
  irVersion : Int64 := 0
  deriving DecidableEq

/-- Smallest accepted opset; `include/eduort/graph.h:77`. -/
def kMinOpset : Int64 := 11

/-- Largest accepted opset; `include/eduort/graph.h:78`. -/
def kMaxOpset : Int64 := 17

/-- `CanonicalizeDomain`; `src/ir/onnx_loader.cpp:200`. -/
def canonicalizeDomain (domain : String) : String :=
  if domain = "" ∨ domain = "ai.onnx" then "" else domain

/-- Exactly the two spellings of the default domain become the empty one. -/
theorem canonicalizeDomain_eq_empty (domain : String) :
    canonicalizeDomain domain = "" ↔ domain = "" ∨ domain = "ai.onnx" := by
  unfold canonicalizeDomain
  split
  · next h => simp [h]
  · next h => exact ⟨fun he ↦ Or.inl he, fun he ↦ absurd he h⟩

namespace Graph

/-- Names listed as node inputs of the node at an index, none past the last node. -/
def inputsAt (g : Graph) (v : Nat) : List String := (g.nodes[v]?.map Node.inputs).getD []

/-- Names listed as node outputs of the node at an index, none past the last node. -/
def outputsAt (g : Graph) (u : Nat) : List String := (g.nodes[u]?.map Node.outputs).getD []

/-- All node output positions in node order. -/
def allOutputs (g : Graph) : List String := g.nodes.flatMap Node.outputs

/-- The name is a graph input or an initializer. -/
def IsSeed (g : Graph) (name : String) : Prop := name ∈ g.graphInputs ∨ name ∈ g.initializers

instance (g : Graph) (name : String) : Decidable (g.IsSeed name) :=
  inferInstanceAs (Decidable (_ ∨ _))

/-- Node `v` reads a non-empty value that node `u` writes. -/
def Edge (g : Graph) (u v : Nat) : Prop :=
  ∃ name ∈ g.inputsAt v, name ≠ "" ∧ name ∈ g.outputsAt u

instance (g : Graph) (u v : Nat) : Decidable (g.Edge u v) :=
  inferInstanceAs (Decidable (∃ name ∈ g.inputsAt v, name ≠ "" ∧ name ∈ g.outputsAt u))

section Names

variable (g : Graph) {v : Nat} {node : Node}

theorem inputsAt_of_getElem? (h : g.nodes[v]? = some node) : g.inputsAt v = node.inputs := by
  rw [inputsAt, h]
  rfl

theorem outputsAt_of_getElem? (h : g.nodes[v]? = some node) : g.outputsAt v = node.outputs := by
  rw [outputsAt, h]
  rfl

/-- A name that is read at an index is read by the node there. -/
theorem mem_inputsAt (name : String) (v : Nat) :
    name ∈ g.inputsAt v ↔ ∃ node, g.nodes[v]? = some node ∧ name ∈ node.inputs := by
  cases hnode : g.nodes[v]? with
  | none => simp [inputsAt, hnode]
  | some node => simp [g.inputsAt_of_getElem? hnode]

/-- A name that is written at an index is written by the node there. -/
theorem mem_outputsAt (name : String) (v : Nat) :
    name ∈ g.outputsAt v ↔ ∃ node, g.nodes[v]? = some node ∧ name ∈ node.outputs := by
  cases hnode : g.nodes[v]? with
  | none => simp [outputsAt, hnode]
  | some node => simp [g.outputsAt_of_getElem? hnode]

end Names

end Graph
end Eduort
