import Eduort.Base.Report
import Eduort.Onnx.LoaderRules

/-!
# The defects of a model, in the order of the loader

The loader stops at the first entry of a model that it does not accept. Here the defects of a
model are listed entry by entry, together with the graph of a model that has none. The loader
returns the head of the list or that graph, so its messages name the first bad entry.
-/

namespace Eduort

open Onnx

/-! ### Tensors -/

/-- What the sign check has against a dim. -/
def TensorShape.signDefects (d : Int64) : List Status :=
  if d < 0 then [TensorShape.negativeDimStatus d] else []

namespace Onnx.TensorProto

variable (hostNew : UInt64 → Bool) (tp : TensorProto)

/-- The element type of a proto, if it is supported. -/
def elemType : Option DataType :=
  if tp.dataType = kOnnxFloat then some .kFloat32
  else if tp.dataType = kOnnxInt64 then some .kInt64
  else none

/-- The shape of a proto without negative dims. -/
def shape : TensorShape := ⟨tp.dims.map Int64.toUInt64⟩

/-- What the decoder has against the sizes of a proto and its payload. -/
def sizeDefects (dt : DataType) : List Status :=
  if 2 ^ 64 ≤ tp.shape.leadingCount then [TensorShape.overflowStatus]
  else if 2 ^ 64 ≤ Tensor.byteSize dt tp.shape then [byteSizeStatus]
  else if Tensor.byteSize dt tp.shape = 0 then []
  else
    (if hostNew (UInt64.ofNat (Tensor.byteSize dt tp.shape)) = false then
      [Tensor.allocationStatus (UInt64.ofNat (Tensor.byteSize dt tp.shape))] else []) ++
    (if (tp.payload dt).length ≠ Tensor.byteSize dt tp.shape then
      [payloadStatus (if tp.rawData ≠ [] then "raw_data" else typedFieldName dt) tp.name] else [])

/-- What the decoder has against a proto: its element type, or else its dims, or else its sizes
and its payload. -/
def defects : List Status :=
  match tp.elemType with
  | none => [unsupportedTypeStatus tp.dataType]
  | some dt =>
    match tp.dims.flatMap TensorShape.signDefects with
    | [] => tp.sizeDefects hostNew dt
    | negative => negative

/-- The tensor of a proto without defects. -/
def decoded : Tensor :=
  if Tensor.byteSize (tp.elemType.getD .kFloat32) tp.shape = 0 then
    Tensor.fresh (tp.elemType.getD .kFloat32) tp.shape
  else
    Tensor.holding (tp.elemType.getD .kFloat32) tp.shape
      (tp.payload (tp.elemType.getD .kFloat32))

end Onnx.TensorProto

private theorem mapElemType_eq (tp : TensorProto) : mapElemType tp.dataType =
    match tp.elemType with
    | some dt => .ok dt
    | none => .error (unsupportedTypeStatus tp.dataType) := by
  unfold mapElemType TensorProto.elemType
  split_ifs <;> rfl

/-- The sign check reports the first negative dim. -/
theorem fromSignedDims_reports (dims : List Int64) :
    Base.Reports (TensorShape.fromSignedDims dims) (dims.flatMap TensorShape.signDefects)
      (· = ⟨dims.map Int64.toUInt64⟩) := by
  have hloop := Base.Reports.foldlM
    (fun (ds : List Int64) (out : List UInt64) ↦ out = ds.map Int64.toUInt64)
    (fun _ ↦ TensorShape.signDefects) (f := TensorShape.pushSignedDim) dims [] rfl <| by
      intro front d _ out hout
      unfold TensorShape.pushSignedDim TensorShape.signDefects
      by_cases hd : d < 0
      · rw [if_pos hd, if_pos hd]
        exact .error []
      · rw [if_neg hd, if_neg hd]
        apply Base.Reports.ok
        rw [hout, List.map_append, List.map_singleton]
  rw [Base.along_const, List.nil_append] at hloop
  rw [TensorShape.fromSignedDims, ← List.append_nil (dims.flatMap _)]
  apply hloop.bind
  rintro out - rfl
  exact .ok rfl

/-- Behind the header the decoder reports a size, the allocation or the payload. -/
theorem create_fill_reports (hostNew : UInt64 → Bool) (tp : TensorProto) (dt : DataType)
    (htype : tp.elemType = some dt) :
    Base.Reports (do
        let ne ← tp.shape.numElementsChecked
        let t ← Tensor.create hostNew dt tp.shape .kCPU
        fillFromProto tp dt ne (ne * sizeOfDataType dt) t : Outcome Tensor)
      ((tp.sizeDefects hostNew dt).map Stop.status) (· = tp.decoded) := by
  rw [tp.shape.numElementsChecked_eq, Tensor.create_eq, TensorProto.sizeDefects,
    TensorProto.decoded, htype, Option.getD_some]
  by_cases hlead : tp.shape.leadingCount < 2 ^ 64
  · rw [if_pos hlead, if_pos hlead, if_neg (Nat.not_le.mpr hlead)]
    by_cases hfits : Tensor.byteSize dt tp.shape < 2 ^ 64
    · have hmul : UInt64.ofNat tp.shape.count * sizeOfDataType dt =
          UInt64.ofNat (Tensor.byteSize dt tp.shape) := by
        rw [Tensor.byteSize, UInt64.ofNat_mul, UInt64.ofNat_toNat]
      rw [if_pos hfits, if_neg (Nat.not_le.mpr hfits)]
      by_cases hz : Tensor.byteSize dt tp.shape = 0
      · have hnew : ¬ (0 < Tensor.byteSize dt tp.shape ∧
            hostNew (UInt64.ofNat (Tensor.byteSize dt tp.shape)) = false) := by
          rintro ⟨hpos, -⟩
          omega
        have hfill := fillFromProto_fresh tp dt tp.shape hlead hfits
        rw [if_pos hz] at hfill
        rw [if_pos hz, if_pos hz, if_neg hnew]
        show Base.Reports (fillFromProto tp dt (UInt64.ofNat tp.shape.count)
          (UInt64.ofNat tp.shape.count * sizeOfDataType dt) (Tensor.fresh dt tp.shape)) _ _
        rw [hmul, hfill]
        exact .ok rfl
      · rw [if_neg hz, if_neg hz, List.map_append]
        by_cases hnew : hostNew (UInt64.ofNat (Tensor.byteSize dt tp.shape)) = false
        · rw [if_pos ⟨Nat.pos_of_ne_zero hz, hnew⟩, if_pos hnew]
          exact .error _
        · have hfill := fillFromProto_fresh tp dt tp.shape hlead hfits
          rw [if_neg hz] at hfill
          rw [if_neg (fun h ↦ hnew h.2), if_neg hnew]
          show Base.Reports (fillFromProto tp dt (UInt64.ofNat tp.shape.count)
            (UInt64.ofNat tp.shape.count * sizeOfDataType dt) (Tensor.fresh dt tp.shape)) _ _
          rw [hmul, hfill]
          by_cases hsize : (tp.payload dt).length = Tensor.byteSize dt tp.shape
          · rw [if_pos hsize, if_neg (not_not.mpr hsize)]
            exact .ok rfl
          · rw [if_neg hsize, if_pos hsize]
            exact .error []
    · rw [if_neg hfits, if_pos (Nat.not_lt.mp hfits)]
      exact .error []
  · rw [if_neg hlead, if_pos (Nat.not_lt.mp hlead)]
    exact .error []

/-- The decoder reports the first defect of a proto and returns its tensor if there is none. -/
theorem tensorFromTensorProto_reports (hostNew : UInt64 → Bool) (tp : TensorProto) :
    Base.Reports (tensorFromTensorProto hostNew tp) ((tp.defects hostNew).map Stop.status)
      (· = tp.decoded) := by
  rw [tensorFromTensorProto, mapElemType_eq, TensorProto.defects]
  cases htype : tp.elemType with
  | none => exact .error []
  | some dt =>
    have hdims := (fromSignedDims_reports tp.dims).mapError Stop.status
    have hrest := create_fill_reports hostNew tp dt htype
    show Base.Reports (do
        let shape ← (TensorShape.fromSignedDims tp.dims).mapError Stop.status
        let ne ← shape.numElementsChecked
        let t ← Tensor.create hostNew dt shape .kCPU
        fillFromProto tp dt ne (ne * sizeOfDataType dt) t : Outcome Tensor) _ _
    cases hsign : tp.dims.flatMap TensorShape.signDefects with
    | nil =>
      rw [hsign] at hdims
      obtain ⟨shape, hshape, rfl⟩ := hdims
      rw [hshape]
      exact hrest
    | cons s rest =>
      rw [hsign] at hdims
      have herror : (TensorShape.fromSignedDims tp.dims).mapError Stop.status =
          .error (.status s) := hdims
      rw [herror]
      exact .error _

/-! ### Values -/

namespace Onnx.ValueInfoProto

variable (vi : ValueInfoProto)

/-- What the loader has against a dimension of a value. -/
def dimDefects : Dimension → List Status
  | .dimValue _ => []
  | .dimParam param =>
    if param ≠ "" then [vi.symbolicDimStatus param] else [vi.missingDimStatus]
  | .unset => [vi.missingDimStatus]

/-- What the sign check has against a dimension. -/
def signDefects : Dimension → List Status
  | .dimValue value => TensorShape.signDefects value
  | _ => []

/-- What the loader has against a value: all its dimensions have to be numbers before the sign of
the first one is looked at. -/
def defects : List Status :=
  match vi.explicitDims with
  | none => []
  | some dims => dims.flatMap vi.dimDefects ++ dims.flatMap signDefects

end Onnx.ValueInfoProto

private theorem pushDimension_reports (vi : ValueInfoProto) (dims : List Dimension) :
    Base.Reports (dims.foldlM (pushDimension vi) []) (dims.flatMap vi.dimDefects)
      (fun values ↦ dims = values.map .dimValue) := by
  have hloop := Base.Reports.foldlM
    (fun (front : List Dimension) (values : List Int64) ↦ front = values.map .dimValue)
    (fun _ ↦ vi.dimDefects) (f := pushDimension vi) dims [] (s := []) rfl <| by
      intro front d _ values hfront
      cases d with
      | unset => exact .error []
      | dimValue value =>
        apply Base.Reports.ok
        rw [hfront, List.map_append, List.map_singleton]
      | dimParam param =>
        simp only [pushDimension, ValueInfoProto.dimDefects]
        split
        · exact .error []
        · exact .error []
  rwa [Base.along_const, List.nil_append] at hloop

/-- The shape of a value, or its first defect. -/
theorem shapeFromValueInfo_reports (vi : ValueInfoProto) :
    Base.Reports (shapeFromValueInfo vi) vi.defects (· = vi.explicitShape.getD ⟨[]⟩) := by
  unfold shapeFromValueInfo ValueInfoProto.defects ValueInfoProto.explicitShape
  cases vi.explicitDims with
  | none => exact .ok rfl
  | some dims =>
    apply (pushDimension_reports vi dims).bind
    rintro values - rfl
    have hsign := fromSignedDims_reports values
    rw [List.flatMap_map]
    apply hsign.mono
    rintro shape - rfl
    simp [Function.comp_def, Dimension.size]

/-- Recording a value changes the shape table only. -/
theorem recordShape_reports (g : Graph) (vi : ValueInfoProto) :
    Base.Reports (recordShape g vi) vi.defects
      (· = { g with valueShapes := recordIn g.valueShapes vi }) := by
  rw [recordShape, ← List.append_nil vi.defects]
  apply (shapeFromValueInfo_reports vi).bind
  rintro shape - rfl
  unfold recordIn ValueInfoProto.explicitShape
  cases vi.explicitDims with
  | none => exact .ok rfl
  | some dims => exact .ok rfl

/-- A loop over values that lists something else besides. -/
theorem recordLoop_reports {f : Graph → ValueInfoProto → StatusOr Graph}
    (image : List ValueInfoProto → Graph)
    (hstep : ∀ front vi, Base.Reports (f (image front) vi) vi.defects (· = image (front ++ [vi])))
    (vis : List ValueInfoProto) :
    Base.Reports (vis.foldlM f (image [])) (vis.flatMap ValueInfoProto.defects)
      (· = image vis) := by
  have hloop := Base.Reports.foldlM (fun front g ↦ g = image front)
    (fun _ ↦ ValueInfoProto.defects) (f := f) vis [] rfl <| by
      rintro front vi - g rfl
      exact hstep front vi
  rwa [Base.along_const, List.nil_append] at hloop

private theorem inputLoop_reports (g : Graph) (vis : List ValueInfoProto) :
    Base.Reports (vis.foldlM loadInput g) (vis.flatMap ValueInfoProto.defects)
      (· = { g with
        graphInputs := g.graphInputs ++ vis.map ValueInfoProto.name
        valueShapes := vis.foldl recordIn g.valueShapes }) := by
  have hloop := recordLoop_reports (f := loadInput)
    (fun front ↦ { g with
      graphInputs := g.graphInputs ++ front.map ValueInfoProto.name
      valueShapes := front.foldl recordIn g.valueShapes }) (fun front vi ↦ ?_) vis
  · rwa [List.map_nil, List.append_nil, List.foldl_nil] at hloop
  · rw [List.map_append, ← List.append_assoc, List.foldl_append]
    exact recordShape_reports _ vi

private theorem outputLoop_reports (g : Graph) (vis : List ValueInfoProto) :
    Base.Reports (vis.foldlM loadOutput g) (vis.flatMap ValueInfoProto.defects)
      (· = { g with
        graphOutputs := g.graphOutputs ++ vis.map ValueInfoProto.name
        valueShapes := vis.foldl recordIn g.valueShapes }) := by
  have hloop := recordLoop_reports (f := loadOutput)
    (fun front ↦ { g with
      graphOutputs := g.graphOutputs ++ front.map ValueInfoProto.name
      valueShapes := front.foldl recordIn g.valueShapes }) (fun front vi ↦ ?_) vis
  · rwa [List.map_nil, List.append_nil, List.foldl_nil] at hloop
  · rw [List.map_append, ← List.append_assoc, List.foldl_append]
    exact recordShape_reports _ vi

private theorem valueInfoLoop_reports (g : Graph) (vis : List ValueInfoProto) :
    Base.Reports (vis.foldlM loadValueInfo g) (vis.flatMap ValueInfoProto.defects)
      (· = { g with valueShapes := vis.foldl recordIn g.valueShapes }) := by
  apply recordLoop_reports fun front ↦
    { g with valueShapes := front.foldl recordIn g.valueShapes }
  intro front vi
  rw [List.foldl_append]
  exact recordShape_reports _ vi

/-! ### Operator sets -/

namespace Onnx.ModelProto

/-- What the loader has against an operator set behind others. -/
def opsetDefects (front : List OperatorSetIdProto) (id : OperatorSetIdProto) : List Status :=
  (if canonicalizeDomain id.domain ≠ "" then [opsetDomainStatus id.domain] else []) ++
  (if ∃ first ∈ front.head?, first.version ≠ id.version then [opsetConflictStatus] else [])

/-- What the loader has against the version of the operator sets. -/
def versionDefects : List OperatorSetIdProto → List Status
  | [] => [opsetMissingStatus]
  | id :: _ =>
    if id.version < kMinOpset ∨ kMaxOpset < id.version then [opsetRangeStatus id.version] else []

/-- The version of the operator sets, if there is one. -/
def opsetVersion (model : ModelProto) : Int64 :=
  (model.opsetImport.head?.map OperatorSetIdProto.version).getD (-1)

end Onnx.ModelProto

/-- What the scan has found is the version of the first entry. -/
def ScannedOpsets (front : List OperatorSetIdProto) (st : OpsetScan) : Prop :=
  st = match front.head? with
    | none => {}
    | some first => { found := first.version, sawDefault := true }

private theorem scanOpset_reports (front : List OperatorSetIdProto) (id : OperatorSetIdProto)
    (st : OpsetScan) (h : ScannedOpsets front st) :
    Base.Reports (scanOpset st id) (ModelProto.opsetDefects front id)
      (ScannedOpsets (front ++ [id])) := by
  rw [scanOpset, ModelProto.opsetDefects]
  apply Base.Reports.check
  intro _
  cases front with
  | nil =>
    rw [ScannedOpsets] at h
    rw [h]
    exact .ok rfl
  | cons first rest =>
    rw [ScannedOpsets] at h
    rw [h]
    by_cases hversion : first.version = id.version
    · have hcond : ¬ ∃ first' ∈ (first :: rest).head?, first'.version ≠ id.version := by
        simp [hversion]
      rw [if_neg (fun hc ↦ hc.2 hversion), if_neg hcond]
      apply Base.Reports.ok
      rw [ScannedOpsets, ← hversion]
      rfl
    · have hcond : ∃ first' ∈ (first :: rest).head?, first'.version ≠ id.version :=
        ⟨first, rfl, hversion⟩
      rw [if_pos ⟨rfl, hversion⟩, if_pos hcond]
      exact .error []

/-- The resolution reports the first bad entry, or else the version. -/
theorem resolveOpset_reports (model : ModelProto) :
    Base.Reports (resolveOpset model)
      (Base.along ModelProto.opsetDefects [] model.opsetImport ++
        ModelProto.versionDefects model.opsetImport) (· = model.opsetVersion) := by
  have hloop := Base.Reports.foldlM ScannedOpsets ModelProto.opsetDefects model.opsetImport []
    (s := {}) rfl fun front id _ st hst ↦ scanOpset_reports front id st hst
  rw [resolveOpset]
  apply hloop.bind
  intro st _ hst
  rw [List.nil_append] at hst
  rw [ModelProto.opsetVersion]
  generalize model.opsetImport = ids at hst
  cases ids with
  | nil =>
    have hnone : st = {} := hst
    rw [hnone]
    exact .error []
  | cons id rest =>
    have hfound : st = { found := id.version, sawDefault := true } := hst
    rw [hfound, if_neg (not_not.mpr rfl), ModelProto.versionDefects]
    by_cases hrange : id.version < kMinOpset ∨ kMaxOpset < id.version
    · rw [if_pos hrange, if_pos hrange]
      exact .error []
    · rw [if_neg hrange, if_neg hrange]
      exact .ok rfl

/-! ### Nodes -/

section Nodes

variable (hostNew : UInt64 → Bool)

/-- What the loader has against an attribute. -/
def Onnx.AttributeProto.defects (ap : AttributeProto) : List Status :=
  match ap.readKind with
  | none => [unreadStatus ap]
  | some .kTensor => (ap.t.getD {}).defects hostNew
  | some _ => []

/-- The attribute of a message without defects. -/
def Onnx.AttributeProto.loaded (ap : AttributeProto) : Attribute :=
  match ap.readKind with
  | some .kFloat => { name := ap.name, kind := .kFloat, f := ap.f.getD 0 }
  | some .kInt => { name := ap.name, kind := .kInt, i := ap.i.getD 0 }
  | some .kInts => { name := ap.name, kind := .kInts, ints := ap.ints }
  | some .kString => { name := ap.name, kind := .kString, s := ap.s.getD [] }
  | some .kTensor => { name := ap.name, kind := .kTensor, tensor := some (ap.t.getD {}).decoded }
  | none => {}

/-- What the loader has against a node. -/
def Onnx.NodeProto.defects (np : NodeProto) : List Status :=
  (if np.opType = "" then [missingOpStatus] else []) ++
  ((if canonicalizeDomain np.domain ≠ "" then [nodeDomainStatus np] else []) ++
  np.attributes.flatMap (AttributeProto.defects hostNew))

/-- The node of a message without defects. -/
def Onnx.NodeProto.loaded (np : NodeProto) : Node where
  name := np.name
  opType := np.opType
  inputs := np.input
  outputs := np.output
  attributes := np.attributes.map AttributeProto.loaded

private theorem mapAttribute_reports (ap : AttributeProto) :
    Base.Reports (mapAttribute hostNew ap) ((ap.defects hostNew).map Stop.status)
      (· = ap.loaded) := by
  rw [mapAttribute_eq, AttributeProto.defects, AttributeProto.loaded]
  cases ap.readKind with
  | none => exact .error []
  | some kind =>
    cases kind with
    | kTensor =>
      show Base.Reports (mapTensorAttribute hostNew ap.name (ap.t.getD {})) _ _
      rw [mapTensorAttribute, ← List.append_nil (List.map _ _)]
      apply (tensorFromTensorProto_reports hostNew (ap.t.getD {})).bind
      rintro t - rfl
      exact .ok rfl
    | kFloat => exact .ok rfl
    | kInt => exact .ok rfl
    | kInts => exact .ok rfl
    | kString => exact .ok rfl

private theorem mapNode_reports (np : NodeProto) :
    Base.Reports (mapNode hostNew np) ((np.defects hostNew).map Stop.status) (· = np.loaded) := by
  rw [mapNode, NodeProto.defects, List.map_append, List.map_append, List.map_flatMap]
  have hattributes := Base.Reports.pushM (mapAttribute_reports hostNew) [] np.attributes
  by_cases hop : np.opType = ""
  · rw [if_pos hop, if_pos hop]
    exact .error _
  rw [if_neg hop, if_neg hop]
  by_cases hdomain : canonicalizeDomain np.domain = ""
  · rw [if_neg (not_not.mpr hdomain), if_neg (not_not.mpr hdomain), hdomain,
      ← List.append_nil (List.flatMap _ _)]
    apply hattributes.bind
    rintro attributes - rfl
    exact .ok rfl
  · simp only [ne_eq, hdomain, not_false_eq_true, ↓reduceIte]
    exact .error _

/-! ### Initializers -/

/-- What the loader has against an initializer behind others. -/
def Onnx.TensorProto.entryDefects (front : List TensorProto) (tp : TensorProto) : List Status :=
  (if tp.name = "" then [unnamedInitializerStatus] else []) ++
  (tp.defects hostNew ++
  (if tp.name ∈ front.map TensorProto.name then [duplicateInitializerStatus tp.name] else []))

/-- The tensors of some protos by name. -/
def initializerTable (tps : List TensorProto) : NameMap Tensor :=
  tps.foldl (fun table tp ↦ table.insert tp.name tp.decoded) ∅

private theorem initializerTable_concat (tps : List TensorProto) (tp : TensorProto) :
    initializerTable (tps ++ [tp]) = (initializerTable tps).insert tp.name tp.decoded := by
  rw [initializerTable, List.foldl_append]
  rfl

private theorem mem_initializerTable (tps : List TensorProto) (name : String) :
    name ∈ initializerTable tps ↔ name ∈ tps.map TensorProto.name := by
  induction tps using List.reverseRecOn with
  | nil => simp [initializerTable]
  | append_singleton tps tp ih =>
    rw [initializerTable_concat, AList.mem_insert, ih, List.map_append, List.mem_append,
      List.map_singleton, List.mem_singleton, or_comm]

private theorem loadInitializer_reports (g : Graph) (front : List TensorProto) (tp : TensorProto) :
    Base.Reports (loadInitializer hostNew { g with initializers := initializerTable front } tp)
      ((TensorProto.entryDefects hostNew front tp).map Stop.status)
      (· = { g with initializers := initializerTable (front ++ [tp]) }) := by
  rw [loadInitializer, TensorProto.entryDefects, List.map_append, List.map_append]
  by_cases hname : tp.name = ""
  · rw [if_pos hname, if_pos hname]
    exact .error _
  rw [if_neg hname, if_neg hname]
  apply (tensorFromTensorProto_reports hostNew tp).bind
  rintro t - rfl
  dsimp only
  by_cases hmem : tp.name ∈ initializerTable front
  · rw [if_pos hmem, if_pos ((mem_initializerTable front tp.name).mp hmem)]
    exact .error []
  · rw [if_neg hmem, if_neg (fun h ↦ hmem ((mem_initializerTable front tp.name).mpr h)),
      initializerTable_concat]
    exact .ok rfl

/-- The table of the initializers, or the first bad one. -/
theorem initializerLoop_reports (g : Graph) (hempty : g.initializers = ∅)
    (tps : List TensorProto) :
    Base.Reports (tps.foldlM (loadInitializer hostNew) g)
      ((Base.along (TensorProto.entryDefects hostNew) [] tps).map Stop.status)
      (· = { g with initializers := initializerTable tps }) := by
  have hstart : g = { g with initializers := initializerTable [] } := by
    rw [initializerTable, List.foldl_nil, ← hempty]
  have hloop := Base.Reports.foldlM
    (fun front s ↦ s = { g with initializers := initializerTable front })
    (fun front tp ↦ (TensorProto.entryDefects hostNew front tp).map Stop.status)
    (f := loadInitializer hostNew) tps [] hstart <| by
      rintro front tp - s rfl
      exact loadInitializer_reports hostNew g front tp
  rwa [Base.along_map, List.nil_append] at hloop

end Nodes

/-! ### Models -/

/-- The error status of a callee is returned. -/
theorem liftM_reports {α : Type} {x : StatusOr α} {errors : List Status} {Post : α → Prop}
    (h : Base.Reports x errors Post) :
    Base.Reports (liftM x : Outcome α) (errors.map Stop.status) Post := h.mapError Stop.status

namespace Onnx.ModelProto

/-- What the loader has against a model, in the order of `LoadGraphFromModelProto`. -/
def defects (hostNew : UInt64 → Bool) (model : ModelProto) : List Status :=
  match model.graph with
  | none => [missingGraphStatus]
  | some gp =>
    (Base.along opsetDefects [] model.opsetImport ++ versionDefects model.opsetImport) ++
    (Base.along (TensorProto.entryDefects hostNew) [] gp.initializer ++
    (gp.input.flatMap ValueInfoProto.defects ++
    (gp.output.flatMap ValueInfoProto.defects ++
    (gp.valueInfo.flatMap ValueInfoProto.defects ++
    gp.node.flatMap (NodeProto.defects hostNew)))))

/-- The graph of a model without defects. -/
def loaded (model : ModelProto) : Graph where
  name := (model.graph.getD {}).name
  nodes := (model.graph.getD {}).node.map NodeProto.loaded
  initializers := initializerTable (model.graph.getD {}).initializer
  graphInputs := (model.graph.getD {}).input.map ValueInfoProto.name
  graphOutputs := (model.graph.getD {}).output.map ValueInfoProto.name
  valueShapes := ((model.graph.getD {}).input ++ (model.graph.getD {}).output ++
    (model.graph.getD {}).valueInfo).foldl recordIn ∅
  opsetVersion := model.opsetVersion
  irVersion := model.irVersion

end Onnx.ModelProto

/-- The passes of the loader, one after the other. -/
theorem loadGraphFromModelProto_reports (hostNew : UInt64 → Bool) (model : ModelProto) :
    Base.Reports (loadGraphFromModelProto hostNew model)
      ((model.defects hostNew).map Stop.status) (· = model.loaded) := by
  unfold loadGraphFromModelProto ModelProto.defects
  cases hgraph : model.graph with
  | none => exact .error []
  | some gp =>
    rw [List.map_append]
    apply (liftM_reports (resolveOpset_reports model)).bind
    rintro version - rfl
    rw [List.map_append]
    apply (initializerLoop_reports hostNew _ rfl gp.initializer).bind
    rintro g - rfl
    rw [List.map_append]
    apply (liftM_reports (inputLoop_reports _ gp.input)).bind
    rintro g - rfl
    rw [List.map_append]
    apply (liftM_reports (outputLoop_reports _ gp.output)).bind
    rintro g - rfl
    rw [List.map_append]
    apply (liftM_reports (valueInfoLoop_reports _ gp.valueInfo)).bind
    rintro g - rfl
    rw [List.map_flatMap, ← List.append_nil (List.flatMap _ _)]
    apply (Base.Reports.pushM (mapNode_reports hostNew) _ gp.node).bind
    rintro nodes - rfl
    apply Base.Reports.ok
    simp only [ModelProto.loaded, hgraph, Option.getD_some, List.foldl_append, List.nil_append]

/-- The loader reports the first defect of a model, with its text, and returns the graph of the
model if there is none. -/
theorem loadGraphFromModelProto_report (hostNew : UInt64 → Bool) (model : ModelProto) :
    loadGraphFromModelProto hostNew model =
      Base.report ((model.defects hostNew).map Stop.status) model.loaded :=
  (loadGraphFromModelProto_reports hostNew model).eq_report

end Eduort
