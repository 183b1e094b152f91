import Eduort.Ir.Graph
import Eduort.Onnx.Proto

/-!
# Tensors from serialized tensors

Models `TensorFromTensorProto` of `src/ir/onnx_loader.cpp:209–264` on a little-endian host.
The typed element loops store `float` and `int64_t` objects into the buffer, the raw path
copies bytes. Protobuf counts the entries of a repeated field in an `int` that cannot
overflow, so the loop bounds are list lengths.
-/

namespace Eduort

open Onnx

/-- `TensorProto.FLOAT`; `src/ir/onnx_loader.cpp:22`. -/
def kOnnxFloat : Int32 := 1

/-- `TensorProto.INT64`; `src/ir/onnx_loader.cpp:23`. -/
def kOnnxInt64 : Int32 := 7

/-- The status for an element type that is not supported; `src/ir/onnx_loader.cpp:32`. -/
def unsupportedTypeStatus (code : Int32) : Status :=
  Status.error .kModelLoad s!"unsupported TensorProto data_type {code} (MVP: FLOAT=1, INT64=7)"

/-- `MapElemType`; `src/ir/onnx_loader.cpp:25`. -/
def mapElemType (onnxDtype : Int32) : StatusOr DataType :=
  if onnxDtype = kOnnxFloat then .ok .kFloat32
  else if onnxDtype = kOnnxInt64 then .ok .kInt64
  else .error (unsupportedTypeStatus onnxDtype)

/-- Object representation of a `float` with this bit pattern. -/
def encodeF32 (x : UInt32) : List UInt8 := Base.leBytes 4 x.toNat

/-- Object representation of an `int64_t`. -/
def encodeI64 (x : Int64) : List UInt8 := Base.leBytes 8 x.toUInt64.toNat

/-- The status for a payload field of another size than the shape asks for;
`src/ir/onnx_loader.cpp:227`. -/
def payloadStatus (field name : String) : Status :=
  Status.error .kModelLoad s!"TensorProto {field} size mismatch for '{name}'"

/-- `payloadStatus` is returned. -/
def sizeMismatch (field name : String) : Stop := .status (payloadStatus field name)

/-- The status for an element type that has no payload field; `src/ir/onnx_loader.cpp:261`. -/
def noPayloadStatus (name : String) : Status :=
  Status.error .kModelLoad s!"TensorProto has no usable data payload for '{name}'"

/-- The part of `TensorFromTensorProto` behind `Tensor::Create`;
`src/ir/onnx_loader.cpp:220–263`. -/
def fillFromProto (tp : TensorProto) (dt : DataType) (ne nbytes : UInt64) (t : Tensor) :
    Outcome Tensor :=
  if nbytes = 0 then .ok t
  else if tp.rawData ≠ [] then
    if tp.rawData.length ≠ nbytes.toNat then .error (sizeMismatch "raw_data" tp.name)
    else do
      let buffer ← Base.memcpy t.buffer tp.rawData nbytes.toNat
      return { t with buffer }
  else if dt = .kFloat32 then
    if tp.floatData.length ≠ ne.toNat then .error (sizeMismatch "float_data" tp.name)
    else do
      let out ← t.mutableDataF32
      let buffer ← Base.storeEach 4 encodeF32 out tp.floatData
      return { t with buffer }
  else if dt = .kInt64 then
    if tp.int64Data.length ≠ ne.toNat then .error (sizeMismatch "int64_data" tp.name)
    else do
      let out ← t.mutableDataI64
      let buffer ← Base.storeEach 8 encodeI64 out tp.int64Data
      return { t with buffer }
  else .error (.status (noPayloadStatus tp.name))

/-- `TensorFromTensorProto`; `src/ir/onnx_loader.cpp:209`. The local byte size wraps. -/
def tensorFromTensorProto (hostNew : UInt64 → Bool) (tp : TensorProto) : Outcome Tensor := do
  let dt ← mapElemType tp.dataType
  let shape ← TensorShape.fromSignedDims tp.dims
  let ne ← shape.numElementsChecked
  let elem := sizeOfDataType dt
  let nbytes := ne * elem
  let t ← Tensor.create hostNew dt shape .kCPU
  fillFromProto tp dt ne nbytes t

/-- `data_f32()[i]`. -/
def Tensor.elemF32 (t : Tensor) (i : Nat) : Outcome UInt32 := do
  let data ← t.dataF32
  let bytes ← Base.load data (4 * i) 4
  return UInt32.ofNat (Base.leNat bytes)

/-- `data_i64()[i]`. -/
def Tensor.elemI64 (t : Tensor) (i : Nat) : Outcome Int64 := do
  let data ← t.dataI64
  let bytes ← Base.load data (8 * i) 8
  return (UInt64.ofNat (Base.leNat bytes)).toInt64

/-! ### The two element types as one family -/

/-- Values of an element type. -/
def DataType.Elem : DataType → Type
  | .kFloat32 => UInt32
  | .kInt64 => Int64

/-- The number `MapElemType` maps to an element type. -/
def DataType.onnxCode : DataType → Int32
  | .kFloat32 => kOnnxFloat
  | .kInt64 => kOnnxInt64

/-- Object representation of an element. -/
def encodeElem : (dt : DataType) → dt.Elem → List UInt8
  | .kFloat32 => encodeF32
  | .kInt64 => encodeI64

/-- The typed field that belongs to an element type. -/
def Onnx.TensorProto.typedData (tp : TensorProto) : (dt : DataType) → List dt.Elem
  | .kFloat32 => tp.floatData
  | .kInt64 => tp.int64Data

/-- The name of the typed field in error messages. -/
def typedFieldName : DataType → String
  | .kFloat32 => "float_data"
  | .kInt64 => "int64_data"

/-- Typed element access at an element type. -/
def Tensor.elem (t : Tensor) : (dt : DataType) → Nat → Outcome dt.Elem
  | .kFloat32 => t.elemF32
  | .kInt64 => t.elemI64

/-- The bytes a proto supplies for an element type: the raw field when it is not empty, the
object representations of the typed entries otherwise. -/
def Onnx.TensorProto.payload (tp : TensorProto) (dt : DataType) : List UInt8 :=
  if tp.rawData ≠ [] then tp.rawData else (tp.typedData dt).flatMap (encodeElem dt)

/-- The tensor of a dtype and shape that holds exactly these bytes. -/
def Tensor.holding (dt : DataType) (shape : TensorShape) (bytes : List UInt8) : Tensor :=
  { Tensor.fresh dt shape with buffer := some (Base.Block.ofBytes bytes) }

private theorem mapElemType_eq_ok (code : Int32) (dt : DataType) :
    mapElemType code = .ok dt ↔ code = dt.onnxCode := by
  unfold mapElemType
  split
  · next h => cases dt <;> simp [h, DataType.onnxCode, kOnnxFloat, kOnnxInt64]
  · split
    · next h => cases dt <;> simp [h, DataType.onnxCode, kOnnxFloat, kOnnxInt64]
    · next h1 h2 => cases dt <;> simp [h1, h2, DataType.onnxCode]

theorem length_encodeElem (dt : DataType) (x : dt.Elem) :
    (encodeElem dt x).length = (sizeOfDataType dt).toNat := by
  cases dt
  · exact Base.length_leBytes 4 _
  · exact Base.length_leBytes 8 _

/-- A typed payload takes the element size times the number of entries. -/
theorem length_typedPayload (dt : DataType) (xs : List dt.Elem) :
    (xs.flatMap (encodeElem dt)).length = (sizeOfDataType dt).toNat * xs.length :=
  Base.length_flatMap_width _ _ (length_encodeElem dt) xs

/-- The typed part of the fill stores the entries of the field of the dtype. -/
theorem fillFromProto_typed (tp : TensorProto) (dt : DataType) (ne nbytes : UInt64) (t : Tensor)
    (hraw : tp.rawData = []) (hbytes : nbytes ≠ 0) (hdtype : t.dtype = dt) :
    fillFromProto tp dt ne nbytes t =
      if (tp.typedData dt).length ≠ ne.toNat then
        .error (sizeMismatch (typedFieldName dt) tp.name)
      else do
        let buffer ← Base.storeEach (sizeOfDataType dt).toNat (encodeElem dt) t.buffer
          (tp.typedData dt)
        return { t with buffer } := by
  have haccess (accessor : String) : t.typedData dt accessor = .ok t.buffer :=
    t.typedData_eq_ok dt accessor hdtype
  rw [fillFromProto, if_neg hbytes, if_neg (by simp [hraw])]
  cases dt with
  | kFloat32 =>
    rw [if_pos rfl, Tensor.mutableDataF32, haccess]
    rfl
  | kInt64 =>
    rw [if_neg (by decide), if_pos rfl, Tensor.mutableDataI64, haccess]
    rfl

variable (hostNew : UInt64 → Bool)

/-- On fresh storage of the exact size, the fill accepts a payload exactly when it has that
size, and then leaves exactly its bytes; an empty tensor is returned without a look at the
payload. -/
theorem fillFromProto_fresh (tp : TensorProto) (dt : DataType) (shape : TensorShape)
    (hlead : shape.leadingCount < 2 ^ 64) (hfits : Tensor.byteSize dt shape < 2 ^ 64) :
    fillFromProto tp dt (UInt64.ofNat shape.count) (UInt64.ofNat (Tensor.byteSize dt shape))
        (Tensor.fresh dt shape) =
      if Tensor.byteSize dt shape = 0 then .ok (Tensor.fresh dt shape)
      else if (tp.payload dt).length = Tensor.byteSize dt shape then
        .ok (Tensor.holding dt shape (tp.payload dt))
      else
        .error (sizeMismatch (if tp.rawData ≠ [] then "raw_data" else typedFieldName dt)
          tp.name) := by
  have hcount : (UInt64.ofNat shape.count).toNat = shape.count :=
    UInt64.toNat_ofNat_of_lt' (shape.count_lt_of_leadingCount_lt hlead)
  have hn : (UInt64.ofNat (Tensor.byteSize dt shape)).toNat = Tensor.byteSize dt shape :=
    UInt64.toNat_ofNat_of_lt' hfits
  by_cases hz : Tensor.byteSize dt shape = 0
  · rw [if_pos hz, hz, fillFromProto]
    exact if_pos rfl
  have hbytes : UInt64.ofNat (Tensor.byteSize dt shape) ≠ 0 := by
    intro h
    rw [h] at hn
    exact hz hn.symm
  have hbuffer : (Tensor.fresh dt shape).buffer =
      some (Base.Block.uninit (Tensor.byteSize dt shape)) := if_neg hz
  rw [if_neg hz]
  by_cases hraw : tp.rawData = []
  · have hpayload : tp.payload dt = (tp.typedData dt).flatMap (encodeElem dt) :=
      if_neg (not_not.mpr hraw)
    have hlength : (tp.payload dt).length = Tensor.byteSize dt shape ↔
        (tp.typedData dt).length = shape.count := by
      rw [hpayload, length_typedPayload, Tensor.byteSize, Nat.mul_comm shape.count]
      exact Nat.mul_left_cancel_iff (sizeOfDataType_pos dt)
    rw [fillFromProto_typed tp dt _ _ _ hraw hbytes rfl, hcount, hbuffer,
      if_neg (not_not.mpr hraw)]
    by_cases hsize : (tp.typedData dt).length = shape.count
    · rw [if_neg (not_not.mpr hsize), if_pos (hlength.mpr hsize), hpayload, Tensor.byteSize,
        ← hsize, Nat.mul_comm, Base.storeEach_uninit _ _ (length_encodeElem dt)]
      rfl
    · rw [if_pos hsize, if_neg (fun h ↦ hsize (hlength.mp h))]
  · have hpayload : tp.payload dt = tp.rawData := if_pos hraw
    rw [fillFromProto, if_neg hbytes, if_pos hraw, hn, hbuffer, hpayload]
    by_cases hsize : tp.rawData.length = Tensor.byteSize dt shape
    · rw [if_neg (not_not.mpr hsize), if_pos hsize, ← hsize, Base.memcpy_uninit]
      rfl
    · rw [if_pos hsize, if_neg hsize, if_pos hraw]

/-- The header of a proto names a supported dtype and a shape whose sizes pass the checked
arithmetic. -/
structure Onnx.TensorProto.Header (tp : TensorProto) (dt : DataType) (shape : TensorShape) :
    Prop where
  dataType_eq : tp.dataType = dt.onnxCode
  dims_nonneg : ∀ d ∈ tp.dims, 0 ≤ d
  shape_eq : shape = ⟨tp.dims.map Int64.toUInt64⟩
  sizes_checked : ∃ nbytes, computeNBytes dt shape = .ok nbytes

namespace Onnx.TensorProto.Header

variable {tp : TensorProto} {dt dt' : DataType} {shape shape' : TensorShape}

theorem leadingCount_lt (h : tp.Header dt shape) : shape.leadingCount < 2 ^ 64 := by
  obtain ⟨nbytes, hn⟩ := h.sizes_checked
  exact ((computeNBytes_eq_ok dt shape nbytes).mp hn).1

theorem byteSize_lt (h : tp.Header dt shape) : Tensor.byteSize dt shape < 2 ^ 64 := by
  obtain ⟨nbytes, hn⟩ := h.sizes_checked
  exact ((computeNBytes_eq_ok dt shape nbytes).mp hn).2.1

/-- A proto has at most one header. -/
theorem unique (h : tp.Header dt shape) (h' : tp.Header dt' shape') :
    dt = dt' ∧ shape = shape' := by
  refine ⟨?_, h.shape_eq.trans h'.shape_eq.symm⟩
  have hcode := h.dataType_eq.symm.trans h'.dataType_eq
  cases dt <;> cases dt' <;> first | rfl | exact absurd hcode (by decide)

end Onnx.TensorProto.Header

/-- The locals of `TensorFromTensorProto` once control is past `Tensor::Create`;
`src/ir/onnx_loader.cpp:210–218`. -/
structure Onnx.TensorProto.PastCreate (tp : TensorProto) (dt : DataType) (shape : TensorShape)
    (ne : UInt64) (t : Tensor) : Prop where
  dtype : mapElemType tp.dataType = .ok dt
  dims : TensorShape.fromSignedDims tp.dims = .ok shape
  count : shape.numElementsChecked = .ok ne
  create : Tensor.create hostNew dt shape .kCPU = .ok t

namespace Onnx.TensorProto.PastCreate

variable {hostNew} {tp : TensorProto} {dt : DataType} {shape : TensorShape} {ne : UInt64}
  {t : Tensor}

/-- What is left to run is the fill, with a byte size that may have wrapped. -/
theorem run_eq (h : tp.PastCreate hostNew dt shape ne t) :
    tensorFromTensorProto hostNew tp = fillFromProto tp dt ne (ne * sizeOfDataType dt) t := by
  simp only [tensorFromTensorProto, h.dtype, h.dims, h.count, h.create, liftM, monadLift,
    MonadLift.monadLift, Except.mapError, bind, Except.bind]

/-- The header has passed every check by then. -/
theorem header (h : tp.PastCreate hostNew dt shape ne t) : tp.Header dt shape := by
  obtain ⟨hdims, hshape⟩ := (TensorShape.fromSignedDims_eq_ok tp.dims shape).mp h.dims
  obtain ⟨hlead, hfits, -, -⟩ := (Tensor.create_eq_ok hostNew dt shape t).mp h.create
  exact ⟨(mapElemType_eq_ok tp.dataType dt).mp h.dtype, hdims, hshape,
    checked_of_lt dt shape hlead hfits⟩

private theorem allocated (h : tp.PastCreate hostNew dt shape ne t) :
    0 < Tensor.byteSize dt shape → hostNew (UInt64.ofNat (Tensor.byteSize dt shape)) :=
  ((Tensor.create_eq_ok hostNew dt shape t).mp h.create).2.2.1

theorem eq_fresh (h : tp.PastCreate hostNew dt shape ne t) : t = Tensor.fresh dt shape :=
  ((Tensor.create_eq_ok hostNew dt shape t).mp h.create).2.2.2

theorem count_eq (h : tp.PastCreate hostNew dt shape ne t) : ne.toNat = shape.count :=
  ((shape.numElementsChecked_eq_ok ne).mp h.count).2

/-- The product of the source is the exact one. -/
theorem toNat_mul (h : tp.PastCreate hostNew dt shape ne t) :
    (ne * sizeOfDataType dt).toNat = ne.toNat * (sizeOfDataType dt).toNat := by
  have hfits : ne.toNat * (sizeOfDataType dt).toNat < 2 ^ 64 := by
    rw [h.count_eq]
    exact h.header.byteSize_lt
  rw [UInt64.toNat_mul, Nat.mod_eq_of_lt hfits]

/-- It is the byte size of the tensor that `Tensor::Create` has returned. -/
theorem mul_eq_nbytes (h : tp.PastCreate hostNew dt shape ne t) :
    ne * sizeOfDataType dt = t.nbytes := by
  have hn : (Tensor.fresh dt shape).nbytes.toNat = Tensor.byteSize dt shape :=
    UInt64.toNat_ofNat_of_lt' h.header.byteSize_lt
  apply UInt64.toNat_inj.mp
  rw [h.toNat_mul, h.count_eq, h.eq_fresh, hn, Tensor.byteSize]

/-- So it is zero for shapes without elements only. -/
theorem mul_eq_zero_iff (h : tp.PastCreate hostNew dt shape ne t) :
    ne * sizeOfDataType dt = 0 ↔ shape.count = 0 := by
  have hpos := sizeOfDataType_pos dt
  rw [← UInt64.toNat_inj, h.toNat_mul, h.count_eq, UInt64.toNat_zero, Nat.mul_eq_zero]
  omega

theorem of_header (header : tp.Header dt shape)
    (hnew : 0 < Tensor.byteSize dt shape → hostNew (UInt64.ofNat (Tensor.byteSize dt shape))) :
    tp.PastCreate hostNew dt shape (UInt64.ofNat shape.count) (Tensor.fresh dt shape) where
  dtype := (mapElemType_eq_ok tp.dataType dt).mpr header.dataType_eq
  dims := (TensorShape.fromSignedDims_eq_ok tp.dims shape).mpr
    ⟨header.dims_nonneg, header.shape_eq⟩
  count := by
    rw [shape.numElementsChecked_eq, if_pos header.leadingCount_lt]
  create := (Tensor.create_eq_ok hostNew dt shape _).mpr
    ⟨header.leadingCount_lt, header.byteSize_lt, hnew, rfl⟩

end Onnx.TensorProto.PastCreate

/-- Decoding stops with an error status in front of the fill, or control gets there. -/
theorem tensorFromTensorProto_cases (tp : TensorProto) :
    (∃ s, tensorFromTensorProto hostNew tp = .error (.status s)) ∨
      ∃ dt shape ne t, tp.PastCreate hostNew dt shape ne t := by
  cases hrun : tensorFromTensorProto hostNew tp with
  | ok t =>
    simp only [tensorFromTensorProto, Base.bind_eq_ok, monadLift_eq_ok] at hrun
    obtain ⟨dt, hdt, shape, hshape, ne, hcount, fresh, hcreate, -⟩ := hrun
    exact Or.inr ⟨dt, shape, ne, fresh, hdt, hshape, hcount, hcreate⟩
  | error stop =>
    simp only [tensorFromTensorProto, Base.bind_eq_error, monadLift_eq_ok,
      monadLift_eq_error] at hrun
    rcases hrun with ⟨s, -, rfl⟩ | ⟨dt, hdt, ⟨s, -, rfl⟩ | ⟨shape, hshape, ⟨s, -, rfl⟩ |
      ⟨ne, hcount, ⟨s, -, rfl⟩ | ⟨fresh, hcreate, -⟩⟩⟩⟩
    · exact Or.inl ⟨s, rfl⟩
    · exact Or.inl ⟨s, rfl⟩
    · exact Or.inl ⟨s, rfl⟩
    · exact Or.inl ⟨s, rfl⟩
    · exact Or.inr ⟨dt, shape, ne, fresh, hdt, hshape, hcount, hcreate⟩

/-- Past `Tensor::Create` the local element count and byte size are the exact ones. -/
theorem tensorFromTensorProto_of_header (tp : TensorProto) (dt : DataType) (shape : TensorShape)
    (header : tp.Header dt shape)
    (hnew : 0 < Tensor.byteSize dt shape → hostNew (UInt64.ofNat (Tensor.byteSize dt shape))) :
    tensorFromTensorProto hostNew tp =
      fillFromProto tp dt (UInt64.ofNat shape.count)
        (UInt64.ofNat (Tensor.byteSize dt shape)) (Tensor.fresh dt shape) := by
  have hmul : UInt64.ofNat shape.count * sizeOfDataType dt =
      UInt64.ofNat (Tensor.byteSize dt shape) := by
    rw [Tensor.byteSize, UInt64.ofNat_mul, UInt64.ofNat_toNat]
  rw [(TensorProto.PastCreate.of_header header hnew).run_eq, hmul]

/-- A proto decodes exactly when its header is supported, storage is available, and either
the shape is empty or the payload has the size of the shape. -/
theorem tensorFromTensorProto_eq_ok (tp : TensorProto) (t : Tensor) :
    tensorFromTensorProto hostNew tp = .ok t ↔
      ∃ dt shape, tp.Header dt shape ∧
        (0 < Tensor.byteSize dt shape → hostNew (UInt64.ofNat (Tensor.byteSize dt shape))) ∧
        (Tensor.byteSize dt shape = 0 ∧ t = Tensor.fresh dt shape ∨
          Tensor.byteSize dt shape ≠ 0 ∧ (tp.payload dt).length = Tensor.byteSize dt shape ∧
            t = Tensor.holding dt shape (tp.payload dt)) := by
  constructor
  · intro h
    rcases tensorFromTensorProto_cases hostNew tp with ⟨s, hs⟩ | ⟨dt, shape, ne, fresh, hpast⟩
    · rw [hs] at h
      cases h
    have header := hpast.header
    refine ⟨dt, shape, header, hpast.allocated, ?_⟩
    rw [tensorFromTensorProto_of_header hostNew tp dt shape header hpast.allocated,
      fillFromProto_fresh tp dt shape header.leadingCount_lt header.byteSize_lt] at h
    split at h
    · next hz => exact Or.inl ⟨hz, (Except.ok.inj h).symm⟩
    · next hz =>
      split at h
      · next hsize => exact Or.inr ⟨hz, hsize, (Except.ok.inj h).symm⟩
      · cases h
  · rintro ⟨dt, shape, header, hnew, hcase⟩
    rw [tensorFromTensorProto_of_header hostNew tp dt shape header hnew,
      fillFromProto_fresh tp dt shape header.leadingCount_lt header.byteSize_lt]
    rcases hcase with ⟨hz, rfl⟩ | ⟨hz, hsize, rfl⟩
    · exact if_pos hz
    · rw [if_neg hz, if_pos hsize]

/-- Decoding fails only with an error status: every memory access is in bounds and every
typed accessor meets its dtype. -/
theorem tensorFromTensorProto_eq_error (tp : TensorProto) (stop : Stop)
    (h : tensorFromTensorProto hostNew tp = .error stop) : ∃ st, stop = .status st := by
  rcases tensorFromTensorProto_cases hostNew tp with ⟨s, hs⟩ | ⟨dt, shape, ne, fresh, hpast⟩
  · rw [hs] at h
    exact ⟨s, (Except.error.inj h).symm⟩
  have header := hpast.header
  rw [tensorFromTensorProto_of_header hostNew tp dt shape header hpast.allocated,
    fillFromProto_fresh tp dt shape header.leadingCount_lt header.byteSize_lt] at h
  split at h
  · cases h
  · split at h
    · cases h
    · exact ⟨_, (Except.error.inj h).symm⟩

end Eduort
