import Eduort.Onnx.TensorDecode

/-!
# Loading a graph from a model

Models `src/ir/onnx_loader.cpp` from `ShapeFromValueInfo` to `LoadGraphFromModelProto`. Each
loop body of the source is one definition. The warning about the IR version goes to
`stderr` only and is left out.
-/

namespace Eduort

open Onnx

/-! ### Value shapes -/

/-- The dims of the tensor type with a shape, if the value has one. -/
def Onnx.ValueInfoProto.explicitDims (vi : ValueInfoProto) : Option (List Dimension) := do
  let type ← vi.type
  let tensorType ← type.tensorType
  let shape ← tensorType.shape
  return shape.dim

/-- The status for a symbolic dimension; `src/ir/onnx_loader.cpp:52`. -/
def Onnx.ValueInfoProto.symbolicDimStatus (vi : ValueInfoProto) (param : String) : Status :=
  Status.error .kModelLoad s!"symbolic dim_param not supported in MVP: {param} (value {vi.name})"

/-- The status for a dimension without a number; `src/ir/onnx_loader.cpp:59`. -/
def Onnx.ValueInfoProto.missingDimStatus (vi : ValueInfoProto) : Status :=
  Status.error .kModelLoad s!"missing dim_value for value {vi.name}"

/-- One dimension of `ShapeFromValueInfo`; `src/ir/onnx_loader.cpp:49–62`. -/
def pushDimension (vi : ValueInfoProto) (dims : List Int64) : Dimension → StatusOr (List Int64)
  | .dimValue value => .ok (dims ++ [value])
  | .dimParam param =>
    if param ≠ "" then .error (vi.symbolicDimStatus param) else .error vi.missingDimStatus
  | .unset => .error vi.missingDimStatus

/-- `ShapeFromValueInfo`; `src/ir/onnx_loader.cpp:39`. Without an explicit shape the result
is the rank-0 marker. -/
def shapeFromValueInfo (vi : ValueInfoProto) : StatusOr TensorShape :=
  match vi.explicitDims with
  | none => .ok ⟨[]⟩
  | some dims => do
    let signed ← dims.foldlM (pushDimension vi) []
    TensorShape.fromSignedDims signed

/-! ### Operator sets -/

/-- Loop state of `ResolveOpset`; `src/ir/onnx_loader.cpp:69–70`. -/
structure OpsetScan where
  found : Int64 := -1
  sawDefault : Bool := false
  deriving DecidableEq

/-- The status for an operator set of another domain; `src/ir/onnx_loader.cpp:75`. -/
def opsetDomainStatus (domain : String) : Status :=
  Status.error .kModelLoad (s!"unsupported opset domain '{domain}' " ++
    "(MVP only supports default ONNX domain \"\" / ai.onnx)")

/-- The status for two versions of one operator set; `src/ir/onnx_loader.cpp:82`. -/
def opsetConflictStatus : Status :=
  Status.error .kModelLoad "conflicting default-domain opset versions in model"

/-- The status for a model without an operator set; `src/ir/onnx_loader.cpp:90`. -/
def opsetMissingStatus : Status :=
  Status.error .kModelLoad "model missing opset_import for default ONNX domain"

/-- The status for a version out of range; `src/ir/onnx_loader.cpp:94`. -/
def opsetRangeStatus (version : Int64) : Status :=
  Status.error .kModelLoad
    s!"opset version {version} outside supported range [{kMinOpset}, {kMaxOpset}]"

/-- One `opset_import` entry; `src/ir/onnx_loader.cpp:71–87`. -/
def scanOpset (st : OpsetScan) (id : OperatorSetIdProto) : StatusOr OpsetScan :=
  if canonicalizeDomain id.domain ≠ "" then
    .error (opsetDomainStatus id.domain)
  else if st.sawDefault ∧ st.found ≠ id.version then .error opsetConflictStatus
  else .ok { found := id.version, sawDefault := true }

/-- `ResolveOpset`; `src/ir/onnx_loader.cpp:66`. -/
def resolveOpset (model : ModelProto) : StatusOr Int64 := do
  let st ← model.opsetImport.foldlM scanOpset {}
  if ¬ st.sawDefault then .error opsetMissingStatus
  else if st.found < kMinOpset ∨ kMaxOpset < st.found then .error (opsetRangeStatus st.found)
  else .ok st.found

/-! ### Nodes -/

variable (hostNew : UInt64 → Bool)

/-- The tensor case of `MapAttribute`. -/
def mapTensorAttribute (name : String) (t : TensorProto) : Outcome Attribute := do
  let tv ← tensorFromTensorProto hostNew t
  return { name, kind := .kTensor, tensor := some tv }

/-- The status for an attribute that is read under no kind; `src/ir/onnx_loader.cpp:161–167`. -/
def unreadStatus (ap : AttributeProto) : Status :=
  match ap.type with
  | .UNDEFINED =>
    Status.error .kModelLoad s!"attribute '{ap.name}' has UNDEFINED type and no data fields"
  | type =>
    let number := type.number
    Status.error .kModelLoad s!"unsupported attribute type for '{ap.name}' (type={number})"

/-- `MapAttribute`; `src/ir/onnx_loader.cpp:103`. Without a type the first populated field of
`t`, `f`, `i`, `ints` and `s` decides. -/
def mapAttribute (ap : AttributeProto) : Outcome Attribute :=
  match ap.type with
  | .FLOAT => .ok { name := ap.name, kind := .kFloat, f := ap.f.getD 0 }
  | .INT => .ok { name := ap.name, kind := .kInt, i := ap.i.getD 0 }
  | .INTS => .ok { name := ap.name, kind := .kInts, ints := ap.ints }
  | .STRING => .ok { name := ap.name, kind := .kString, s := ap.s.getD [] }
  | .TENSOR => mapTensorAttribute hostNew ap.name (ap.t.getD {})
  | .UNDEFINED =>
    if ap.t.isSome then mapTensorAttribute hostNew ap.name (ap.t.getD {})
    else if ap.f.isSome then .ok { name := ap.name, kind := .kFloat, f := ap.f.getD 0 }
    else if ap.i.isSome then .ok { name := ap.name, kind := .kInt, i := ap.i.getD 0 }
    else if ap.ints ≠ [] then .ok { name := ap.name, kind := .kInts, ints := ap.ints }
    else if ap.s.isSome then .ok { name := ap.name, kind := .kString, s := ap.s.getD [] }
    else .error (.status (unreadStatus ap))
  | _ => .error (.status (unreadStatus ap))

/-- The status for a node without an operator; `src/ir/onnx_loader.cpp:174`. -/
def missingOpStatus : Status := Status.error .kModelLoad "node missing op_type"

/-- The status for a node of another domain; `src/ir/onnx_loader.cpp:179`. -/
def nodeDomainStatus (np : NodeProto) : Status :=
  Status.error .kModelLoad
    s!"node '{np.name}' op {np.opType} has unsupported domain '{np.domain}'"

/-- `MapNode`; `src/ir/onnx_loader.cpp:171`. -/
def mapNode (np : NodeProto) : Outcome Node :=
  if np.opType = "" then .error (.status missingOpStatus)
  else
    let domain := canonicalizeDomain np.domain
    if domain ≠ "" then .error (.status (nodeDomainStatus np))
    else do
      let attributes ← np.attributes.foldlM (Base.pushM (mapAttribute hostNew)) []
      return { name := np.name, opType := np.opType, domain, inputs := np.input,
               outputs := np.output, attributes }

/-! ### Graphs -/

/-- The status for an initializer without a name; `src/ir/onnx_loader.cpp:291`. -/
def unnamedInitializerStatus : Status := Status.error .kModelLoad "initializer with empty name"

/-- The status for a second initializer of one name; `src/ir/onnx_loader.cpp:296`. -/
def duplicateInitializerStatus (name : String) : Status :=
  Status.error .kModelLoad s!"duplicate initializer name: {name}"

/-- One initializer; `src/ir/onnx_loader.cpp:289–299`. -/
def loadInitializer (g : Graph) (tp : TensorProto) : Outcome Graph :=
  if tp.name = "" then .error (.status unnamedInitializerStatus)
  else do
    let tensor ← tensorFromTensorProto hostNew tp
    if tp.name ∈ g.initializers then
      .error (.status (duplicateInitializerStatus tp.name))
    else
      return { g with initializers := g.initializers.insert tp.name tensor }

/-- The part the loops over values share: record the shape, if there is an explicit one. -/
def recordShape (g : Graph) (vi : ValueInfoProto) : StatusOr Graph := do
  let sh ← shapeFromValueInfo vi
  if vi.explicitDims.isSome then
    return { g with valueShapes := g.valueShapes.insert vi.name sh }
  else
    return g

/-- One graph input; `src/ir/onnx_loader.cpp:303–315`. -/
def loadInput (g : Graph) (vi : ValueInfoProto) : StatusOr Graph :=
  recordShape { g with graphInputs := g.graphInputs ++ [vi.name] } vi

/-- One graph output; `src/ir/onnx_loader.cpp:316–326`. -/
def loadOutput (g : Graph) (vi : ValueInfoProto) : StatusOr Graph :=
  recordShape { g with graphOutputs := g.graphOutputs ++ [vi.name] } vi

/-- One inner value; `src/ir/onnx_loader.cpp:327–336`. -/
def loadValueInfo (g : Graph) (vi : ValueInfoProto) : StatusOr Graph := recordShape g vi

/-- The status for a model without a graph; `src/ir/onnx_loader.cpp:268`. -/
def missingGraphStatus : Status := Status.error .kModelLoad "ModelProto has no graph"

/-- `LoadGraphFromModelProto`; `src/ir/onnx_loader.cpp:266`. -/
def loadGraphFromModelProto (model : ModelProto) : Outcome Graph :=
  match model.graph with
  | none => .error (.status missingGraphStatus)
  | some gp => do
    let opsetVersion ← resolveOpset model
    let g : Graph := { name := gp.name, irVersion := model.irVersion, opsetVersion }
    let g ← gp.initializer.foldlM (loadInitializer hostNew) g
    let g ← (gp.input.foldlM loadInput g : StatusOr Graph)
    let g ← (gp.output.foldlM loadOutput g : StatusOr Graph)
    let g ← (gp.valueInfo.foldlM loadValueInfo g : StatusOr Graph)
    let nodes ← gp.node.foldlM (Base.pushM (mapNode hostNew)) g.nodes
    return { g with nodes }

end Eduort
