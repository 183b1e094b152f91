import Eduort.Tensor.Shape

/-!
# Tensors and their buffers

Models `include/eduort/allocator.h`, `src/allocator.cpp` and the `Tensor` class of
`src/tensor.cpp:112–224`. `size_t` has 64 bits. The answer of `::operator new[]` to each
request is a parameter, so every statement covers every allocator outcome. Here a buffer is the
block it points to; which tensors share one is the subject of the modules on ownership.
-/

namespace Eduort

/-- Where a buffer lives; `include/eduort/allocator.h:23`. -/
inductive DeviceKind where
  | kCPU
  | kCUDA
  deriving DecidableEq, Repr

/-- Element types; `include/eduort/tensor.h:31`. -/
inductive DataType where
  | kFloat32
  | kInt64
  deriving DecidableEq, Repr

/-- `DataTypeName`; `src/tensor.cpp:40`. -/
def dataTypeName : DataType → String
  | .kFloat32 => "float32"
  | .kInt64 => "int64"

/-- `SizeOfDataType`; `src/tensor.cpp:50`. -/
def sizeOfDataType : DataType → UInt64
  | .kFloat32 => 4
  | .kInt64 => 8

/-- `CpuAllocator::Allocate`; `src/allocator.cpp:20`. `hostNew` tells whether
`::operator new[](nbytes, std::nothrow)` returns storage. -/
def cpuAllocate (hostNew : UInt64 → Bool) (nbytes : UInt64) : Option Base.Block :=
  if nbytes = 0 then none
  else if hostNew nbytes then some (Base.Block.uninit nbytes.toNat)
  else none

/-- The fields of a `Tensor`; `include/eduort/tensor.h:89`. -/
structure Tensor where
  dtype : DataType
  shape : TensorShape
  device : DeviceKind
  buffer : Option Base.Block
  nbytes : UInt64
  ownsData : Bool
  deriving DecidableEq, Repr

/-- `ValidateShape`; `src/tensor.cpp:17`. -/
def validateShape (shape : TensorShape) : StatusOr Unit := do
  let _ ← shape.numElementsChecked

/-- The status of a byte size that does not fit; `src/tensor.cpp:32`. -/
def byteSizeStatus : Status :=
  Status.error .kInvalidArgument "tensor byte size overflows size_t"

/-- `ComputeNBytes`; `src/tensor.cpp:23`. -/
def computeNBytes (dt : DataType) (shape : TensorShape) : StatusOr UInt64 := do
  let n ← shape.numElementsChecked
  let elem := sizeOfDataType dt
  if elem = 0 then
    .error (Status.error .kInvalidArgument s!"unsupported DataType: {dataTypeName dt}")
  else if 0 < n ∧ uint64Max / elem < n then .error byteSizeStatus
  else .ok (n * elem)

namespace Tensor

/-- The status for an element type without a size; `src/tensor.cpp:149`. -/
def createTypeStatus (dt : DataType) : Status :=
  Status.error .kInvalidArgument s!"unsupported DataType in Tensor::Create: {dataTypeName dt}"

/-- The status for a device other than the host; `src/tensor.cpp:155`. -/
def deviceStatus : Status :=
  Status.error .kInvalidArgument
    ("Tensor::Create only supports DeviceKind::kCPU in PR2 " ++
      "(CUDA allocation lands with the CUDA EP)")

/-- The status of a request that `::operator new[]` refuses; `src/tensor.cpp:168`. -/
def allocationStatus (nbytes : UInt64) : Status :=
  Status.error .kRuntime s!"CpuAllocator failed to allocate {nbytes} bytes"

/-- The status for an element type without a size; `src/tensor.cpp:182`. -/
def blobTypeStatus : Status :=
  Status.error .kInvalidArgument "unsupported DataType in Tensor::FromHostBlob"

/-- The status for a blob of another size than the shape asks for; `src/tensor.cpp:190`. -/
def blobSizeStatus (bytes nbytes : UInt64) : Status :=
  Status.error .kInvalidArgument s!"FromHostBlob bytes ({bytes}) != shape*dtype ({nbytes})"

/-- The status for a blob that is missing; `src/tensor.cpp:196`. -/
def nullBlobStatus : Status :=
  Status.error .kInvalidArgument "FromHostBlob: data is null but nbytes > 0"

/-- `Tensor::Create`; `src/tensor.cpp:146`. -/
def create (hostNew : UInt64 → Bool) (dt : DataType) (shape : TensorShape)
    (device : DeviceKind) : StatusOr Tensor :=
  if sizeOfDataType dt = 0 then .error (createTypeStatus dt)
  else if device ≠ .kCPU then .error deviceStatus
  else do
    validateShape shape
    let nbytes ← computeNBytes dt shape
    let ptr := if 0 < nbytes then cpuAllocate hostNew nbytes else none
    if 0 < nbytes ∧ ptr = none then .error (allocationStatus nbytes)
    else .ok { dtype := dt, shape, device, buffer := ptr, nbytes, ownsData := true }

/-- `Tensor::FromHostBlob`; `src/tensor.cpp:179`. -/
def fromHostBlob (dt : DataType) (shape : TensorShape) (data : Option Base.Block)
    (bytes : UInt64) : StatusOr Tensor :=
  if sizeOfDataType dt = 0 then .error blobTypeStatus
  else do
    validateShape shape
    let nbytes ← computeNBytes dt shape
    if bytes ≠ nbytes then .error (blobSizeStatus bytes nbytes)
    else if 0 < nbytes ∧ data = none then .error nullBlobStatus
    else
      .ok { dtype := dt, shape, device := .kCPU, buffer := data, nbytes, ownsData := false }

/-- `Tensor::CheckDtype`; `src/tensor.cpp:136`. -/
def checkDtype (t : Tensor) (expected : DataType) (accessor : String) : Outcome Unit :=
  if t.dtype ≠ expected then
    let tensor := dataTypeName t.dtype
    let wanted := dataTypeName expected
    .error (.abort (s!"eduort::Tensor::{accessor}: dtype mismatch (tensor is {tensor}, " ++
      s!"accessor expects {wanted}). Check dtype() before calling typed accessors.\n"))
  else
    .ok ()

/-- A typed accessor: the buffer, once the dtype is the expected one. -/
def typedData (t : Tensor) (expected : DataType) (accessor : String) :
    Outcome (Option Base.Block) := do
  t.checkDtype expected accessor
  return t.buffer

/-- `mutable_data_f32`; `src/tensor.cpp:206`. -/
def mutableDataF32 (t : Tensor) : Outcome (Option Base.Block) :=
  t.typedData .kFloat32 "mutable_data_f32"

/-- `data_f32`; `src/tensor.cpp:210`. -/
def dataF32 (t : Tensor) : Outcome (Option Base.Block) :=
  t.typedData .kFloat32 "data_f32"

/-- `mutable_data_i64`; `src/tensor.cpp:214`. -/
def mutableDataI64 (t : Tensor) : Outcome (Option Base.Block) :=
  t.typedData .kInt64 "mutable_data_i64"

/-- `data_i64`; `src/tensor.cpp:218`. -/
def dataI64 (t : Tensor) : Outcome (Option Base.Block) :=
  t.typedData .kInt64 "data_i64"

/-- The offset lies in the buffer and has been written. -/
def Written (t : Tensor) (i : Nat) : Prop := ∃ b, t.buffer = some b ∧ b.Written i

/-- The exact byte size of a shape at an element type, over `Nat`. -/
def byteSize (dt : DataType) (shape : TensorShape) : Nat :=
  shape.count * (sizeOfDataType dt).toNat

end Tensor

/-! ### Sizes -/

/-- Both element types have a size. -/
theorem sizeOfDataType_ne_zero (dt : DataType) : sizeOfDataType dt ≠ 0 := by
  cases dt <;> decide

theorem sizeOfDataType_pos (dt : DataType) : 0 < (sizeOfDataType dt).toNat := by
  cases dt <;> decide

/-- Validation passes exactly the shapes whose count check passes. -/
theorem validateShape_eq_ok (shape : TensorShape) :
    validateShape shape = .ok () ↔ shape.leadingCount < 2 ^ 64 := by
  rw [← TensorShape.numElementsChecked_isOk, validateShape]
  cases shape.numElementsChecked <;> simp [bind, Except.bind, pure, Except.pure]

/-- Validation fails only with the overflow status. -/
theorem validateShape_eq_error (shape : TensorShape) (st : Status)
    (h : validateShape shape = .error st) : st = TensorShape.overflowStatus := by
  rw [validateShape, Base.bind_eq_error] at h
  rcases h with h | ⟨-, -, h⟩
  · exact shape.numElementsChecked_eq_error st h
  · cases h

/-- The whole outcome of the byte size computation, from the exact products. -/
theorem computeNBytes_eq (dt : DataType) (shape : TensorShape) : computeNBytes dt shape =
    if shape.leadingCount < 2 ^ 64 then
      if Tensor.byteSize dt shape < 2 ^ 64 then .ok (UInt64.ofNat (Tensor.byteSize dt shape))
      else .error byteSizeStatus
    else .error TensorShape.overflowStatus := by
  rw [computeNBytes, TensorShape.numElementsChecked_eq]
  by_cases hlead : shape.leadingCount < 2 ^ 64
  · rw [if_pos hlead, if_pos hlead]
    have hcount : (UInt64.ofNat shape.count).toNat = shape.count :=
      UInt64.toNat_ofNat_of_lt' (shape.count_lt_of_leadingCount_lt hlead)
    have hguard : 0 < UInt64.ofNat shape.count ∧
        uint64Max / sizeOfDataType dt < UInt64.ofNat shape.count ↔
          2 ^ 64 ≤ Tensor.byteSize dt shape := by
      rw [TensorShape.guard_iff _ _ (sizeOfDataType_ne_zero dt), hcount, Tensor.byteSize,
        and_iff_right_iff_imp]
      intro hbig
      rw [UInt64.lt_iff_toNat_lt, hcount]
      exact Nat.pos_of_mul_pos_right (Nat.lt_of_lt_of_le (by decide) hbig)
    simp only [bind, Except.bind, sizeOfDataType_ne_zero, ↓reduceIte, hguard]
    by_cases hfits : Tensor.byteSize dt shape < 2 ^ 64
    · rw [if_neg (by omega), if_pos hfits]
      congr 1
      apply UInt64.toNat_inj.mp
      rw [UInt64.toNat_ofNat_of_lt' hfits, UInt64.toNat_mul, hcount]
      exact Nat.mod_eq_of_lt hfits
    · rw [if_pos (by omega), if_neg hfits]
  · rw [if_neg hlead, if_neg hlead]
    rfl

/-- The byte size is computed exactly when it fits in `size_t`, and without wrapping. -/
theorem computeNBytes_eq_ok (dt : DataType) (shape : TensorShape) (nbytes : UInt64) :
    computeNBytes dt shape = .ok nbytes ↔
      shape.leadingCount < 2 ^ 64 ∧ Tensor.byteSize dt shape < 2 ^ 64 ∧
        nbytes.toNat = Tensor.byteSize dt shape := by
  rw [computeNBytes_eq]
  by_cases hlead : shape.leadingCount < 2 ^ 64
  · by_cases hfits : Tensor.byteSize dt shape < 2 ^ 64
    · have hn := UInt64.toNat_ofNat_of_lt' hfits
      simp only [hlead, hfits, ↓reduceIte, true_and, Except.ok.injEq]
      rw [← UInt64.toNat_inj, hn, eq_comm]
    · simp only [hlead, hfits, ↓reduceIte, reduceCtorEq, false_and, and_false]
  · simp only [hlead, ↓reduceIte, reduceCtorEq, false_and]

/-- Sizes within the two bounds pass the checked arithmetic. -/
theorem checked_of_lt (dt : DataType) (shape : TensorShape) (hlead : shape.leadingCount < 2 ^ 64)
    (hfits : Tensor.byteSize dt shape < 2 ^ 64) : ∃ nbytes, computeNBytes dt shape = .ok nbytes :=
  ⟨UInt64.ofNat (Tensor.byteSize dt shape), (computeNBytes_eq_ok dt shape _).mpr
    ⟨hlead, hfits, UInt64.toNat_ofNat_of_lt' hfits⟩⟩

namespace Tensor

/-- What every tensor the library builds promises about its size. -/
structure WellSized (t : Tensor) : Prop where
  fits : byteSize t.dtype t.shape < 2 ^ 64
  nbytes_eq : t.nbytes.toNat = byteSize t.dtype t.shape
  buffer_ne_null : 0 < t.nbytes → t.buffer ≠ none
  numElements_eq : ∃ n, t.shape.numElements = .ok n ∧ n.toNat = t.shape.count

/-- A typed accessor of the right dtype returns the buffer. -/
theorem typedData_eq_ok (t : Tensor) (expected : DataType) (accessor : String)
    (h : t.dtype = expected) : t.typedData expected accessor = .ok t.buffer := by
  simp [typedData, checkDtype, h, bind, Except.bind, pure, Except.pure]

variable (hostNew : UInt64 → Bool) (dt : DataType) (shape : TensorShape)

/-- The tensor `Create` returns for a shape whose storage is available. -/
def fresh : Tensor where
  dtype := dt
  shape := shape
  device := .kCPU
  buffer := if byteSize dt shape = 0 then none else some (Base.Block.uninit (byteSize dt shape))
  nbytes := UInt64.ofNat (byteSize dt shape)
  ownsData := true

/-- Nothing of the storage is written yet. -/
theorem not_written_fresh (i : Nat) : ¬ (fresh dt shape).Written i := by
  rintro ⟨b, hb, hwritten⟩
  rw [fresh] at hb
  dsimp only at hb
  split at hb
  · cases hb
  · cases hb
    exact Base.Block.not_written_uninit _ i hwritten

/-- The whole outcome of `Create` on the host, from the exact products. -/
theorem create_eq : create hostNew dt shape .kCPU =
    if shape.leadingCount < 2 ^ 64 then
      if byteSize dt shape < 2 ^ 64 then
        if 0 < byteSize dt shape ∧ hostNew (UInt64.ofNat (byteSize dt shape)) = false then
          .error (allocationStatus (UInt64.ofNat (byteSize dt shape)))
        else .ok (fresh dt shape)
      else .error byteSizeStatus
    else .error TensorShape.overflowStatus := by
  rw [create, if_neg (sizeOfDataType_ne_zero dt), if_neg (by decide), computeNBytes_eq]
  by_cases hlead : shape.leadingCount < 2 ^ 64
  · rw [(validateShape_eq_ok shape).mpr hlead, if_pos hlead, if_pos hlead]
    by_cases hfits : byteSize dt shape < 2 ^ 64
    · have hn : (UInt64.ofNat (byteSize dt shape)).toNat = byteSize dt shape :=
        UInt64.toNat_ofNat_of_lt' hfits
      have hpos : 0 < UInt64.ofNat (byteSize dt shape) ↔ 0 < byteSize dt shape := by
        rw [UInt64.lt_iff_toNat_lt, hn]
        rfl
      have hzero : UInt64.ofNat (byteSize dt shape) = 0 ↔ byteSize dt shape = 0 := by
        rw [← UInt64.toNat_inj, hn]
        rfl
      rw [if_pos hfits, if_pos hfits]
      simp only [bind, Except.bind, cpuAllocate, hpos, hzero, hn, fresh, allocationStatus]
      by_cases hz : byteSize dt shape = 0
      · simp [hz]
      · have hz' : 0 < byteSize dt shape := Nat.pos_of_ne_zero hz
        cases hnew : hostNew (UInt64.ofNat (byteSize dt shape)) <;> simp [hz, hz']
    · rw [if_neg hfits, if_neg hfits]
      rfl
  · have herr : validateShape shape = .error TensorShape.overflowStatus := by
      cases hv : validateShape shape with
      | ok u => exact absurd ((validateShape_eq_ok shape).mp hv) hlead
      | error st => rw [validateShape_eq_error shape st hv]
    rw [herr, if_neg hlead, if_neg hlead]
    rfl

/-- `Create` succeeds exactly when both size checks pass and storage is available, and then
returns fresh storage of the exact size. -/
theorem create_eq_ok (t : Tensor) :
    create hostNew dt shape .kCPU = .ok t ↔
      shape.leadingCount < 2 ^ 64 ∧ byteSize dt shape < 2 ^ 64 ∧
        (0 < byteSize dt shape → hostNew (UInt64.ofNat (byteSize dt shape))) ∧
          t = fresh dt shape := by
  rw [create_eq]
  by_cases hlead : shape.leadingCount < 2 ^ 64
  · by_cases hfits : byteSize dt shape < 2 ^ 64
    · simp only [hlead, hfits, ↓reduceIte, true_and]
      cases hostNew (UInt64.ofNat (byteSize dt shape)) <;>
        by_cases hz : 0 < byteSize dt shape <;> simp [hz, eq_comm]
    · simp only [hlead, hfits, ↓reduceIte, reduceCtorEq, false_and, and_false]
  · simp only [hlead, ↓reduceIte, reduceCtorEq, false_and]

/-- `Create` on the host fails with `kInvalidArgument` exactly when a size check fails. -/
theorem create_kInvalidArgument_iff :
    (∃ st, create hostNew dt shape .kCPU = .error st ∧ st.code = .kInvalidArgument) ↔
      ¬ (shape.leadingCount < 2 ^ 64 ∧ byteSize dt shape < 2 ^ 64) := by
  rw [create_eq]
  by_cases hlead : shape.leadingCount < 2 ^ 64
  · by_cases hfits : byteSize dt shape < 2 ^ 64
    · simp only [hlead, hfits, ↓reduceIte, and_self, not_true_eq_false, iff_false]
      rintro ⟨st, h, hcode⟩
      split at h
      · cases h
        cases hcode
      · cases h
    · simp only [hlead, hfits, ↓reduceIte, and_false, not_false_eq_true, iff_true]
      exact ⟨_, rfl, rfl⟩
  · simp only [hlead, ↓reduceIte, false_and, not_false_eq_true, iff_true]
    exact ⟨_, rfl, rfl⟩

/-- Without a zero dim, the two size checks together are the exact byte size bound. -/
theorem sizeChecks_iff (hz : 0 ∉ shape.dims) :
    shape.leadingCount < 2 ^ 64 ∧ byteSize dt shape < 2 ^ 64 ↔ byteSize dt shape < 2 ^ 64 := by
  rw [and_iff_right_iff_imp, shape.leadingCount_of_not_mem_zero hz, byteSize]
  exact Nat.lt_of_le_of_lt (Nat.le_mul_of_pos_right _ (sizeOfDataType_pos dt))

/-- A tensor whose size fields are exact is well sized. -/
theorem wellSized_of_exact (t : Tensor) (hlead : t.shape.leadingCount < 2 ^ 64)
    (hfits : byteSize t.dtype t.shape < 2 ^ 64)
    (hbytes : t.nbytes.toNat = byteSize t.dtype t.shape)
    (hbuffer : 0 < t.nbytes → t.buffer ≠ none) : t.WellSized where
  fits := hfits
  nbytes_eq := hbytes
  buffer_ne_null := hbuffer
  numElements_eq := by
    obtain ⟨n, hn⟩ := t.shape.numElementsChecked_isOk.mpr hlead
    exact ⟨n, (t.shape.numElements_eq_ok n).mpr hn, ((t.shape.numElementsChecked_eq_ok n).mp hn).2⟩

/-- Every tensor `Create` returns is well sized. -/
theorem create_wellSized (t : Tensor) (h : create hostNew dt shape .kCPU = .ok t) :
    t.WellSized := by
  obtain ⟨hlead, hfits, -, rfl⟩ := (create_eq_ok hostNew dt shape t).mp h
  have hn : (UInt64.ofNat (byteSize dt shape)).toNat = byteSize dt shape :=
    UInt64.toNat_ofNat_of_lt' hfits
  refine wellSized_of_exact _ hlead hfits hn fun hpos ↦ ?_
  have hne : byteSize dt shape ≠ 0 := by
    intro hz
    simp [fresh, hz] at hpos
  simp [fresh, hne]

/-- Every tensor `FromHostBlob` returns is well sized. -/
theorem fromHostBlob_wellSized (data : Option Base.Block) (bytes : UInt64) (t : Tensor)
    (h : fromHostBlob dt shape data bytes = .ok t) : t.WellSized := by
  rw [fromHostBlob, if_neg (sizeOfDataType_ne_zero dt), Base.bind_eq_ok] at h
  obtain ⟨-, -, h⟩ := h
  rw [Base.bind_eq_ok] at h
  obtain ⟨nbytes, hcompute, h⟩ := h
  obtain ⟨hlead, hfits, hn⟩ := (computeNBytes_eq_ok dt shape nbytes).mp hcompute
  split at h
  · cases h
  · split at h
    · cases h
    · next hnull =>
      cases h
      exact wellSized_of_exact _ hlead hfits hn fun hpos hnone ↦ hnull ⟨hpos, hnone⟩

end Tensor
end Eduort
