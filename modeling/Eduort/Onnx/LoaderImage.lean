import Eduort.Onnx.LoaderRules

/-!
# What a loaded graph contains

A loaded graph is related to its model entry by entry: lists keep their length and order,
and a table holds for a name what the entries of that name say.
-/

namespace Eduort

open Onnx

variable (hostNew : UInt64 → Bool)

/-- The attribute has the name and the content of the message, as the kind under which the
message is read. -/
structure AttributeImage (ap : AttributeProto) (a : Attribute) : Prop where
  name_eq : a.name = ap.name
  kind_eq : ap.readKind = some a.kind
  content : match a.kind with
    | .kFloat => a.f = ap.f.getD 0
    | .kInt => a.i = ap.i.getD 0
    | .kInts => a.ints = ap.ints
    | .kString => a.s = ap.s.getD []
    | .kTensor => ∃ t, tensorFromTensorProto hostNew (ap.t.getD {}) = .ok t ∧ a.tensor = some t
  tensor_none : a.kind ≠ .kTensor → a.tensor = none

/-- The node has the fields of the message and one attribute for each of its attributes. -/
structure NodeImage (np : NodeProto) (node : Node) : Prop where
  name_eq : node.name = np.name
  opType_eq : node.opType = np.opType
  domain_eq : node.domain = ""
  inputs_eq : node.inputs = np.input
  outputs_eq : node.outputs = np.output
  attributes : List.Forall₂ (AttributeImage hostNew) np.attributes node.attributes

/-- Some entry declares the shape under the name and no later one declares another. -/
def LastDeclared (vis : List ValueInfoProto) (name : String) (sh : TensorShape) : Prop :=
  ∃ front vi back, vis = front ++ vi :: back ∧ vi.name = name ∧ vi.explicitShape = some sh ∧
    ∀ later ∈ back, later.name = name → later.explicitShape = none

/-- The graph has one node for each node, the names of the inputs and outputs, the decode of
each initializer, and the last declared shape of each value. -/
structure GraphImage (gp : GraphProto) (g : Graph) : Prop where
  name_eq : g.name = gp.name
  nodes : List.Forall₂ (NodeImage hostNew) gp.node g.nodes
  graphInputs_eq : g.graphInputs = gp.input.map ValueInfoProto.name
  graphOutputs_eq : g.graphOutputs = gp.output.map ValueInfoProto.name
  initializers_distinct : (gp.initializer.map TensorProto.name).Nodup
  initializers : InitializersOf hostNew gp.initializer g.initializers
  shapes_static : ∀ vi ∈ gp.input ++ gp.output ++ gp.valueInfo, vi.Static
  valueShapes_keys : ∀ name, name ∈ g.valueShapes ↔
    ∃ vi ∈ gp.input ++ gp.output ++ gp.valueInfo, vi.name = name ∧ vi.explicitDims.isSome
  valueShapes : ∀ name sh, g.valueShapes.lookup name = some sh ↔
    LastDeclared (gp.input ++ gp.output ++ gp.valueInfo) name sh
  topoOrder_eq : g.topoOrder = []

/-- The graph is the image of the graph of the model, under the one imported version. -/
structure ModelImage (model : ModelProto) (g : Graph) : Prop where
  graph : ∃ gp, model.graph = some gp ∧ GraphImage hostNew gp g
  opsetVersion_imported : model.opsetImport ≠ []
  opsetVersion_eq : ∀ id ∈ model.opsetImport, id.version = g.opsetVersion
  irVersion_eq : g.irVersion = model.irVersion

private theorem readAttribute_image (ap : AttributeProto) (kind : AttributeKind) (a : Attribute)
    (hkind : ap.readKind = some kind) (h : readAttribute hostNew ap kind = .ok a) :
    AttributeImage hostNew ap a := by
  cases kind with
  | kTensor =>
    obtain ⟨t, ht, rfl⟩ := (mapTensorAttribute_eq_ok hostNew _ _ a).mp h
    exact ⟨rfl, hkind, ⟨t, ht, rfl⟩, fun h ↦ absurd rfl h⟩
  | kFloat =>
    cases h
    exact ⟨rfl, hkind, rfl, fun _ ↦ rfl⟩
  | kInt =>
    cases h
    exact ⟨rfl, hkind, rfl, fun _ ↦ rfl⟩
  | kInts =>
    cases h
    exact ⟨rfl, hkind, rfl, fun _ ↦ rfl⟩
  | kString =>
    cases h
    exact ⟨rfl, hkind, rfl, fun _ ↦ rfl⟩

/-- A mapped attribute is the image of its message. -/
theorem mapAttribute_image (ap : AttributeProto) (a : Attribute)
    (h : mapAttribute hostNew ap = .ok a) : AttributeImage hostNew ap a := by
  obtain ⟨kind, hkind, hread⟩ := (mapAttribute_eq_ok hostNew ap a).mp h
  exact readAttribute_image hostNew ap kind a hkind hread

/-- A mapped node is the image of its message. -/
theorem mapNode_image (np : NodeProto) (node : Node) (h : mapNode hostNew np = .ok node) :
    NodeImage hostNew np node := by
  obtain ⟨-, -, attributes, hattributes, rfl⟩ := (mapNode_eq_ok hostNew np node).mp h
  exact ⟨rfl, rfl, rfl, rfl, rfl, hattributes.imp (mapAttribute_image hostNew)⟩

/-- The table of the value loops holds the last declared shapes. -/
theorem lookup_valueShapes (vis : List ValueInfoProto) (name : String) (sh : TensorShape) :
    (vis.foldl recordIn ∅).lookup name = some sh ↔ LastDeclared vis name sh := by
  rw [lookup_foldl_recordIn, lastShape, List.findSome?_eq_some_iff]
  constructor
  · rintro ⟨back, vi, front, hvis, hvi, hback⟩
    obtain ⟨hname, hshape⟩ : vi.name = name ∧ vi.explicitShape = some sh := by
      split at hvi
      · next hname => exact ⟨hname, hvi⟩
      · cases hvi
    refine ⟨front.reverse, vi, back.reverse, ?_, hname, hshape, fun later hlater hl ↦ ?_⟩
    · rw [← List.reverse_reverse vis, hvis]
      simp
    · have hnone := hback later (List.mem_reverse.mp hlater)
      rwa [if_pos hl] at hnone
  · rintro ⟨front, vi, back, rfl, hname, hshape, hback⟩
    refine ⟨back.reverse, vi, front.reverse, by simp, by rw [if_pos hname, hshape], ?_⟩
    intro later hlater
    by_cases hl : later.name = name
    · rw [if_pos hl, hback later (List.mem_reverse.mp hlater) hl]
    · exact if_neg hl

/-- The keys of the table are the names that some entry declares a shape for. -/
theorem mem_valueShapes (vis : List ValueInfoProto) (name : String) :
    name ∈ vis.foldl recordIn ∅ ↔ ∃ vi ∈ vis, vi.name = name ∧ vi.explicitDims.isSome := by
  rw [← AList.lookup_isSome, lookup_foldl_recordIn, lastShape, List.findSome?_isSome_iff]
  constructor
  · rintro ⟨vi, hvi, hsome⟩
    split at hsome
    · next hname =>
      rw [ValueInfoProto.explicitShape, Option.isSome_map] at hsome
      exact ⟨vi, List.mem_reverse.mp hvi, hname, hsome⟩
    · cases hsome
  · rintro ⟨vi, hvi, hname, hsome⟩
    refine ⟨vi, List.mem_reverse.mpr hvi, ?_⟩
    rwa [if_pos hname, ValueInfoProto.explicitShape, Option.isSome_map]

/-- The graph of a successful run is the image of the graph message. -/
theorem loaded_graphImage (model : ModelProto) (g : Graph)
    (h : loadGraphFromModelProto hostNew model = .ok g) :
    ∃ gp, model.graph = some gp ∧ GraphImage hostNew gp g := by
  obtain ⟨gp, hgp, v, -, table, hload, hstatic, nodes, hnodes, rfl⟩ :=
    (loadGraphFromModelProto_eq_ok hostNew model g).mp h
  obtain ⟨_, htable, heq⟩ := foldlM_loadInitializer hostNew _ _ rfl _ hload
  cases congrArg Graph.initializers heq
  obtain ⟨-, hdistinct⟩ :=
    (foldlM_loadInitializer_isOk hostNew (emptyGraph model gp v) rfl gp.initializer).mp ⟨_, hload⟩
  obtain ⟨_, hmapped, rfl⟩ := (Base.foldlM_pushM _ _ _ _).mp hnodes
  exact ⟨gp, hgp, {
    name_eq := rfl
    nodes := hmapped.imp (mapNode_image hostNew)
    graphInputs_eq := rfl
    graphOutputs_eq := rfl
    initializers_distinct := hdistinct
    initializers := htable
    shapes_static := hstatic
    valueShapes_keys := mem_valueShapes _
    valueShapes := lookup_valueShapes _
    topoOrder_eq := rfl }⟩

/-- A loaded graph is the image of its model: nothing is dropped, repeated or moved. -/
theorem loadGraphFromModelProto_image (model : ModelProto) (g : Graph)
    (h : loadGraphFromModelProto hostNew model = .ok g) : ModelImage hostNew model g := by
  have himage := loaded_graphImage hostNew model g h
  obtain ⟨gp, -, v, hv, table, -, -, nodes, -, rfl⟩ :=
    (loadGraphFromModelProto_eq_ok hostNew model g).mp h
  obtain ⟨hne, hids, -⟩ := (resolveOpset_eq_ok model v).mp hv
  exact ⟨himage, hne, fun id hid ↦ (hids id hid).2, rfl⟩

/-- One node that adds a weight to the input; the weight is an initializer and the output
has no declared shape. -/
def addModel : ModelProto where
  irVersion := 8
  opsetImport := [{ domain := "ai.onnx", version := 13 }]
  graph := some {
    name := "add"
    node := [{ input := ["X", "W"], output := ["Y"], name := "n", opType := "Add"
               attributes := [{ name := "axis", type := .INT, i := some 1 }] }]
    initializer := [{ name := "W", dataType := 1, dims := [2], floatData := [0, 1065353216] }]
    input := [{ name := "X", type := some ⟨some ⟨some ⟨[.dimValue 2]⟩⟩⟩ }]
    output := [{ name := "Y" }] }

/-- The graph of `addModel`. -/
def addGraph : Graph where
  name := "add"
  nodes := [{ name := "n", opType := "Add", inputs := ["X", "W"], outputs := ["Y"]
              attributes := [{ name := "axis", kind := .kInt, i := 1 }] }]
  initializers := AList.insert "W"
    (Tensor.holding .kFloat32 ⟨[2]⟩ [0, 0, 0, 0, 0, 0, 128, 63]) ∅
  graphInputs := ["X"]
  graphOutputs := ["Y"]
  valueShapes := AList.insert "X" ⟨[2]⟩ ∅
  opsetVersion := 13
  irVersion := 8

theorem addModel_loads :
    loadGraphFromModelProto (fun _ ↦ true) addModel = .ok addGraph := by decide

theorem loadGraphFromModelProto_image_add : ModelImage (fun _ ↦ true) addModel addGraph :=
  loadGraphFromModelProto_image _ addModel addGraph addModel_loads

end Eduort
