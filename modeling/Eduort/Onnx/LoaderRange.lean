import Eduort.Onnx.LoaderImage

/-!
# Which graphs the loader returns

A loaded graph obeys rules that its types do not state. The rules are complete: a graph that
obeys them can be written as a model, with raw data only, and that model loads into it again.
-/

namespace Eduort

open Onnx

variable (hostNew : UInt64 → Bool)

/-! ### Tensors -/

/-- Every dim is one that a signed dim can carry. -/
def TensorShape.Signed (s : TensorShape) : Prop := ∀ d ∈ s.dims, 0 ≤ d.toInt64

/-- A tensor as the decoder leaves it: owned, on the host, of the computed size, and with
storage that is written to its end. -/
structure Tensor.Decoded (t : Tensor) : Prop where
  shape_signed : t.shape.Signed
  nbytes_eq : computeNBytes t.dtype t.shape = .ok t.nbytes
  device_eq : t.device = .kCPU
  ownsData_eq : t.ownsData = true
  storage : match t.buffer with
    | none => t.nbytes = 0
    | some b => t.nbytes ≠ 0 ∧ hostNew t.nbytes ∧
        ∃ bytes, b = Base.Block.ofBytes bytes ∧ bytes.length = t.nbytes.toNat

/-- The bytes that the tensor holds, none if they cannot be read. -/
def Tensor.bytes (t : Tensor) : List UInt8 :=
  (Base.load t.buffer 0 t.nbytes.toNat).toOption.getD []

/-- The message with the content of a tensor as raw data. -/
def Tensor.toProto (name : String) (t : Tensor) : TensorProto where
  dims := t.shape.dims.map UInt64.toInt64
  dataType := t.dtype.onnxCode
  name := name
  rawData := t.bytes

/-- The sizes of a shape that passes the checked arithmetic. -/
theorem computeNBytes_toNat {dt : DataType} {shape : TensorShape} {nbytes : UInt64}
    (h : computeNBytes dt shape = .ok nbytes) :
    nbytes = UInt64.ofNat (Tensor.byteSize dt shape) ∧ nbytes.toNat = Tensor.byteSize dt shape := by
  obtain ⟨-, hfits, hn⟩ := (computeNBytes_eq_ok dt shape nbytes).mp h
  refine ⟨?_, hn⟩
  apply UInt64.toNat_inj.mp
  rw [hn, UInt64.toNat_ofNat_of_lt' hfits]

/-- What the decoder returns follows the rules. -/
theorem tensorFromTensorProto_decoded (tp : TensorProto) (t : Tensor)
    (h : tensorFromTensorProto hostNew tp = .ok t) : t.Decoded hostNew := by
  obtain ⟨dt, shape, header, hnew, hcase⟩ := (tensorFromTensorProto_eq_ok hostNew tp t).mp h
  have hsigned : shape.Signed := by
    rw [header.shape_eq]
    intro d hd
    obtain ⟨value, hvalue, rfl⟩ := List.mem_map.mp hd
    rw [Int64.toInt64_toUInt64]
    exact header.dims_nonneg value hvalue
  obtain ⟨nbytes, hbytes⟩ := header.sizes_checked
  obtain ⟨rfl, hn⟩ := computeNBytes_toNat hbytes
  rcases hcase with ⟨hzero, rfl⟩ | ⟨hzero, hlength, rfl⟩
  · refine ⟨hsigned, hbytes, rfl, rfl, ?_⟩
    have hnull : (Tensor.fresh dt shape).buffer = none := if_pos hzero
    rw [hnull]
    show UInt64.ofNat (Tensor.byteSize dt shape) = 0
    rw [hzero]
    rfl
  · refine ⟨hsigned, hbytes, rfl, rfl, ?_⟩
    show UInt64.ofNat (Tensor.byteSize dt shape) ≠ 0 ∧ _
    refine ⟨fun h0 ↦ ?_, hnew (Nat.pos_of_ne_zero hzero), tp.payload dt, rfl, ?_⟩
    · rw [h0] at hn
      exact hzero hn.symm
    · exact hlength.trans hn.symm

/-- The bytes of a tensor whose storage is written to its end. -/
theorem Tensor.bytes_of_buffer {t : Tensor} {bytes : List UInt8}
    (hbuffer : t.buffer = some (Base.Block.ofBytes bytes))
    (hlength : bytes.length = t.nbytes.toNat) : t.bytes = bytes := by
  rw [Tensor.bytes, hbuffer, ← hlength, Base.load_ofBytes bytes 0 bytes.length (by omega),
    List.drop_zero, List.take_length]
  rfl

namespace Tensor.Decoded

variable {hostNew} {t : Tensor} (h : t.Decoded hostNew)
include h

/-- The message of the tensor has the header of the tensor. -/
theorem header (name : String) : (t.toProto name).Header t.dtype t.shape where
  dataType_eq := rfl
  dims_nonneg d hd := by
    obtain ⟨d', hd', rfl⟩ := List.mem_map.mp hd
    exact h.shape_signed d' hd'
  shape_eq := by
    show t.shape = ⟨(t.shape.dims.map UInt64.toInt64).map Int64.toUInt64⟩
    simp [Function.comp_def]
  sizes_checked := ⟨t.nbytes, h.nbytes_eq⟩

/-- Apart from its storage the tensor is a fresh one. -/
theorem eq_fresh : t = { Tensor.fresh t.dtype t.shape with buffer := t.buffer } := by
  have hn := (computeNBytes_toNat h.nbytes_eq).1
  have hdevice := h.device_eq
  have howns := h.ownsData_eq
  cases t
  dsimp only at hn hdevice howns
  rw [hdevice, howns, hn]
  rfl

/-- A tensor that follows the rules is decoded from its message. -/
theorem tensorFromTensorProto_toProto (name : String) :
    tensorFromTensorProto hostNew (t.toProto name) = .ok t := by
  obtain ⟨hn, hnat⟩ := computeNBytes_toNat h.nbytes_eq
  have hstorage := h.storage
  have heq := h.eq_fresh
  apply (tensorFromTensorProto_eq_ok hostNew _ _).mpr
  refine ⟨t.dtype, t.shape, h.header name, ?_⟩
  cases hbuffer : t.buffer with
  | none =>
    rw [hbuffer] at hstorage heq
    have hzero : Tensor.byteSize t.dtype t.shape = 0 := by
      rw [← hnat, hstorage]
      rfl
    have hnull : (Tensor.fresh t.dtype t.shape).buffer = none := if_pos hzero
    refine ⟨fun hpos ↦ absurd hzero (Nat.ne_of_gt hpos), Or.inl ⟨hzero, ?_⟩⟩
    rw [← hnull] at heq
    exact heq
  | some b =>
    rw [hbuffer] at hstorage heq
    obtain ⟨hne, hnew, bytes, rfl, hlength⟩ := hstorage
    have hzero : Tensor.byteSize t.dtype t.shape ≠ 0 := by
      rw [← hnat]
      intro h0
      exact hne (UInt64.toNat_inj.mp h0)
    have hraw : (t.toProto name).rawData = bytes := bytes_of_buffer hbuffer hlength
    have hpayload : (t.toProto name).payload t.dtype = bytes := by
      rw [TensorProto.payload, hraw]
      apply if_pos
      rintro rfl
      exact hzero (hnat.symm.trans hlength.symm)
    refine ⟨fun _ ↦ hn ▸ hnew, Or.inr ⟨hzero, ?_, ?_⟩⟩
    · rw [hpayload, hlength, hnat]
    · rw [hpayload]
      exact heq

end Tensor.Decoded

/-! ### Attributes and nodes -/

/-- An attribute as the loader leaves it: nothing is set but the field of its kind, and a tensor
is one that the decoder returns. -/
def Attribute.Mapped (a : Attribute) : Prop :=
  match a.kind with
  | .kFloat => a = { name := a.name, kind := .kFloat, f := a.f }
  | .kInt => a = { name := a.name, kind := .kInt, i := a.i }
  | .kInts => a = { name := a.name, kind := .kInts, ints := a.ints }
  | .kString => a = { name := a.name, kind := .kString, s := a.s }
  | .kTensor =>
    ∃ t, t.Decoded hostNew ∧ a = { name := a.name, kind := .kTensor, tensor := some t }

/-- The typed message with the content of an attribute. -/
def Attribute.toProto (a : Attribute) : AttributeProto :=
  match a.kind with
  | .kFloat => { name := a.name, type := .FLOAT, f := some a.f }
  | .kInt => { name := a.name, type := .INT, i := some a.i }
  | .kInts => { name := a.name, type := .INTS, ints := a.ints }
  | .kString => { name := a.name, type := .STRING, s := some a.s }
  | .kTensor => { name := a.name, type := .TENSOR, t := a.tensor.map (Tensor.toProto "") }

/-- A node as the loader leaves it: an operator of the default domain. -/
structure Node.Mapped (node : Node) : Prop where
  opType_ne : node.opType ≠ ""
  domain_eq : node.domain = ""
  attributes : ∀ a ∈ node.attributes, a.Mapped hostNew

/-- The message with the content of a node. -/
def Node.toProto (node : Node) : NodeProto where
  input := node.inputs
  output := node.outputs
  name := node.name
  opType := node.opType
  domain := node.domain
  attributes := node.attributes.map Attribute.toProto

private theorem mapAttribute_mapped (ap : AttributeProto) (a : Attribute)
    (h : mapAttribute hostNew ap = .ok a) : a.Mapped hostNew := by
  obtain ⟨kind, -, hread⟩ := (mapAttribute_eq_ok hostNew ap a).mp h
  cases kind with
  | kTensor =>
    obtain ⟨t, ht, rfl⟩ := (mapTensorAttribute_eq_ok hostNew _ _ a).mp hread
    exact ⟨t, tensorFromTensorProto_decoded hostNew _ t ht, rfl⟩
  | kFloat =>
    cases hread
    rfl
  | kInt =>
    cases hread
    rfl
  | kInts =>
    cases hread
    rfl
  | kString =>
    cases hread
    rfl

/-- An attribute that follows the rules is mapped from its message. -/
theorem Attribute.Mapped.mapAttribute_toProto {a : Attribute} (h : a.Mapped hostNew) :
    mapAttribute hostNew a.toProto = .ok a := by
  unfold Attribute.Mapped at h
  unfold Attribute.toProto
  cases hkind : a.kind with
  | kTensor =>
    rw [hkind] at h
    obtain ⟨t, ht, ha⟩ := h
    have htensor : a.tensor = some t := by
      rw [ha]
    rw [htensor]
    exact (mapTensorAttribute_eq_ok hostNew _ _ a).mpr ⟨t, ht.tensorFromTensorProto_toProto "", ha⟩
  | kFloat =>
    rw [hkind] at h
    exact congrArg Except.ok h.symm
  | kInt =>
    rw [hkind] at h
    exact congrArg Except.ok h.symm
  | kInts =>
    rw [hkind] at h
    exact congrArg Except.ok h.symm
  | kString =>
    rw [hkind] at h
    exact congrArg Except.ok h.symm

private theorem mapNode_mapped (np : NodeProto) (node : Node) (h : mapNode hostNew np = .ok node) :
    node.Mapped hostNew := by
  obtain ⟨hop, -, attributes, hattributes, rfl⟩ := (mapNode_eq_ok hostNew np node).mp h
  refine ⟨hop, rfl, fun a ha ↦ ?_⟩
  obtain ⟨ap, -, hmap⟩ := Base.exists_left_of_forall₂ hattributes ha
  exact mapAttribute_mapped hostNew ap a hmap

/-- A node that follows the rules is mapped from its message. -/
theorem Node.Mapped.mapNode_toProto {node : Node} (h : node.Mapped hostNew) :
    mapNode hostNew node.toProto = .ok node := by
  apply (mapNode_eq_ok hostNew _ _).mpr
  refine ⟨h.opType_ne, Or.inl h.domain_eq, node.attributes, ?_, ?_⟩
  · show List.Forall₂ _ (node.attributes.map Attribute.toProto) _
    rw [List.forall₂_map_left_iff, List.forall₂_same]
    intro a ha
    exact (h.attributes a ha).mapAttribute_toProto hostNew
  · have hdomain := h.domain_eq
    cases node
    dsimp only at hdomain
    rw [hdomain]
    rfl

/-! ### Graphs -/

/-- The message of a value that declares a shape. -/
def TensorShape.toValueInfo (name : String) (s : TensorShape) : ValueInfoProto where
  name := name
  type := some ⟨some ⟨some ⟨s.dims.map fun d ↦ .dimValue d.toInt64⟩⟩⟩

/-- A graph as the loader leaves it. -/
structure Graph.Loaded (g : Graph) : Prop where
  opset_ge : kMinOpset ≤ g.opsetVersion
  opset_le : g.opsetVersion ≤ kMaxOpset
  nodes : ∀ node ∈ g.nodes, node.Mapped hostNew
  initializers : ∀ e ∈ g.initializers.entries, e.1 ≠ "" ∧ e.2.Decoded hostNew
  valueShapes : ∀ e ∈ g.valueShapes.entries, e.2.Signed
  topoOrder_eq : g.topoOrder = []

/-- The model with the content of a graph: the tables are listed in the order in which their
entries came in. -/
def Graph.toModel (g : Graph) : ModelProto where
  irVersion := g.irVersion
  opsetImport := [{ version := g.opsetVersion }]
  graph := some {
    node := g.nodes.map Node.toProto
    name := g.name
    initializer := g.initializers.entries.reverse.map fun e ↦ e.2.toProto e.1
    input := g.graphInputs.map fun name ↦ { name }
    output := g.graphOutputs.map fun name ↦ { name }
    valueInfo := g.valueShapes.entries.reverse.map fun e ↦ e.2.toValueInfo e.1 }

private theorem explicitShape_toValueInfo (name : String) (s : TensorShape) :
    (s.toValueInfo name).explicitShape = some s := by
  show some (TensorShape.mk _) = some s
  simp [Function.comp_def, Dimension.size]

private theorem static_toValueInfo (name : String) (s : TensorShape) (h : s.Signed) :
    (s.toValueInfo name).Static := by
  intro dims hdims dim hdim
  cases hdims
  obtain ⟨d, hd, rfl⟩ := List.mem_map.mp hdim
  exact ⟨d.toInt64, rfl, h d hd⟩

/-- A declared shape without symbols has dims that a signed dim can carry. -/
theorem explicitShape_signed (vi : ValueInfoProto) (s : TensorShape) (h : vi.Static)
    (hshape : vi.explicitShape = some s) : s.Signed := by
  obtain ⟨dims, hdims, rfl⟩ := Option.map_eq_some_iff.mp hshape
  intro d hd
  obtain ⟨dim, hdim, rfl⟩ := List.mem_map.mp hd
  obtain ⟨value, rfl, hnonneg⟩ := h dims hdims dim hdim
  exact hnonneg

/-- Every entry of a table of initializers is the decode of one of them. -/
theorem InitializersOf.entry {tps : List TensorProto} {table : NameMap Tensor}
    (h : InitializersOf hostNew tps table) (e : (_ : String) × Tensor) (he : e ∈ table.entries) :
    ∃ tp ∈ tps, tp.name = e.1 ∧ tensorFromTensorProto hostNew tp = .ok e.2 := by
  have hlookup : table.lookup e.1 = some e.2 := AList.mem_lookup_iff.mpr he
  have hmem : e.1 ∈ table := AList.mem_keys.mpr (List.mem_map_of_mem he)
  obtain ⟨tp, htp, hname⟩ := (h.keys e.1).mp hmem
  obtain ⟨t, ht, hlookup'⟩ := h.decoded tp htp
  rw [hname, hlookup] at hlookup'
  cases hlookup'
  exact ⟨tp, htp, hname, ht⟩

/-- The initializer loop puts the table together again. -/
theorem foldlM_loadInitializer_entries (g : Graph) (hempty : g.initializers = ∅)
    (table : NameMap Tensor) (h : ∀ e ∈ table.entries, e.1 ≠ "" ∧ e.2.Decoded hostNew) :
    (table.entries.reverse.map fun e ↦ e.2.toProto e.1).foldlM (loadInitializer hostNew) g =
      .ok { g with initializers := table } := by
  induction table using AList.insertRec with
  | H0 =>
    have hstart : g = { g with initializers := ∅ } := by
      rw [← hempty]
    exact congrArg Except.ok hstart
  | IH name t table hfresh ih =>
    rw [AList.entries_insert_of_notMem hfresh] at h ⊢
    obtain ⟨hhead, htail⟩ := List.forall_mem_cons.mp h
    have hlast := (loadInitializer_eq_ok hostNew { g with initializers := table } _ _).mpr
      ⟨hhead.1, hfresh, t, hhead.2.tensorFromTensorProto_toProto name, rfl⟩
    rw [List.reverse_cons, List.map_append, List.foldlM_append, Base.bind_eq_ok]
    refine ⟨_, ih htail, ?_⟩
    rw [List.map_singleton, List.foldlM_cons, Base.bind_eq_ok]
    exact ⟨_, hlast, rfl⟩

/-- The value loops put the shape table together again. -/
theorem foldl_recordIn_entries (table : NameMap TensorShape) :
    (table.entries.reverse.map fun e ↦ e.2.toValueInfo e.1).foldl recordIn ∅ = table := by
  induction table using AList.insertRec with
  | H0 => rfl
  | IH name s table hfresh ih =>
    rw [AList.entries_insert_of_notMem hfresh, List.reverse_cons, List.map_append,
      List.foldl_append, ih]
    show recordIn table (s.toValueInfo name) = _
    rw [recordIn, explicitShape_toValueInfo]
    rfl

/-- Names alone record nothing. -/
theorem foldl_recordIn_names (names : List String) (table : NameMap TensorShape) :
    (names.map fun name ↦ ({ name } : ValueInfoProto)).foldl recordIn table = table := by
  induction names with
  | nil => rfl
  | cons name names ih => exact ih

/-- A loaded graph follows the rules. -/
theorem loadGraphFromModelProto_loaded (model : ModelProto) (g : Graph)
    (h : loadGraphFromModelProto hostNew model = .ok g) : g.Loaded hostNew := by
  obtain ⟨gp, -, v, hv, table, hload, hstatic, nodes, hnodes, rfl⟩ :=
    (loadGraphFromModelProto_eq_ok hostNew model g).mp h
  obtain ⟨-, -, hmin, hmax⟩ := (resolveOpset_eq_ok model v).mp hv
  refine ⟨hmin, hmax, fun node hnode ↦ ?_, fun e he ↦ ?_, fun e he ↦ ?_, rfl⟩
  · obtain ⟨mapped, hmapped, rfl⟩ := (Base.foldlM_pushM _ _ _ _).mp hnodes
    obtain ⟨np, -, hmap⟩ := Base.exists_left_of_forall₂ hmapped hnode
    exact mapNode_mapped hostNew np node hmap
  · obtain ⟨table', htable, heq⟩ := foldlM_loadInitializer hostNew _ _ rfl _ hload
    cases congrArg Graph.initializers heq
    have hall := ((foldlM_loadInitializer_isOk hostNew _ rfl gp.initializer).mp ⟨_, hload⟩).1
    obtain ⟨tp, htp, hname, ht⟩ := htable.entry hostNew e he
    exact ⟨hname ▸ (hall tp htp).1, tensorFromTensorProto_decoded hostNew tp _ ht⟩
  · obtain ⟨front, vi, back, hvis, -, hshape, -⟩ :=
      (lookup_valueShapes _ e.1 e.2).mp (AList.mem_lookup_iff.mpr he)
    apply explicitShape_signed vi e.2 (hstatic vi ?_) hshape
    rw [hvis]
    exact List.mem_append_right front List.mem_cons_self

/-- A graph that follows the rules is loaded from its model. -/
theorem Graph.Loaded.loadGraphFromModelProto_toModel {g : Graph} (h : g.Loaded hostNew) :
    loadGraphFromModelProto hostNew g.toModel = .ok g := by
  apply (loadGraphFromModelProto_eq_ok hostNew _ g).mpr
  refine ⟨_, rfl, g.opsetVersion, ?_, g.initializers, ?_, ?_, g.nodes, ?_, ?_⟩
  · apply (resolveOpset_eq_ok _ _).mpr
    refine ⟨List.cons_ne_nil _ _, fun id hid ↦ ?_, h.opset_ge, h.opset_le⟩
    rw [List.mem_singleton.mp hid]
    exact ⟨Or.inl rfl, rfl⟩
  · exact foldlM_loadInitializer_entries hostNew _ rfl g.initializers h.initializers
  · intro vi hvi
    rcases List.mem_append.mp hvi with hvi | hvi
    · rcases List.mem_append.mp hvi with hvi | hvi
      · obtain ⟨name, -, rfl⟩ := List.mem_map.mp hvi
        intro dims hdims
        cases hdims
      · obtain ⟨name, -, rfl⟩ := List.mem_map.mp hvi
        intro dims hdims
        cases hdims
    · obtain ⟨e, he, rfl⟩ := List.mem_map.mp hvi
      exact static_toValueInfo e.1 e.2 (h.valueShapes e (List.mem_reverse.mp he))
  · apply (Base.foldlM_pushM _ _ _ _).mpr
    refine ⟨g.nodes, ?_, rfl⟩
    rw [List.forall₂_map_left_iff, List.forall₂_same]
    intro node hnode
    exact (h.nodes node hnode).mapNode_toProto hostNew
  · have horder := h.topoOrder_eq
    rw [List.foldl_append, List.foldl_append, foldl_recordIn_names, foldl_recordIn_names,
      foldl_recordIn_entries]
    cases g
    dsimp only at horder
    rw [horder]
    simp [emptyGraph, Graph.toModel, Function.comp_def]

/-- The graphs that the loader returns for some model are exactly those that follow the rules,
and these are the ones that the loader gets back from their own model. -/
theorem loadGraphFromModelProto_range (g : Graph) :
    ((∃ model, loadGraphFromModelProto hostNew model = .ok g) ↔ g.Loaded hostNew) ∧
      (g.Loaded hostNew ↔ loadGraphFromModelProto hostNew g.toModel = .ok g) := by
  have hloaded (model : ModelProto) (h : loadGraphFromModelProto hostNew model = .ok g) :
      g.Loaded hostNew := loadGraphFromModelProto_loaded hostNew model g h
  have hback (h : g.Loaded hostNew) : loadGraphFromModelProto hostNew g.toModel = .ok g :=
    h.loadGraphFromModelProto_toModel hostNew
  exact ⟨⟨fun ⟨model, h⟩ ↦ hloaded model h, fun h ↦ ⟨g.toModel, hback h⟩⟩, hback, hloaded g.toModel⟩

end Eduort
