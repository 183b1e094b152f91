import Eduort.Onnx.TensorDecode
import Eduort.Tensor.Sharing

/-!
# Decoding tensors into shared memory

`TensorFromTensorProto` as it runs on storage with owners: `Tensor::Create` asks the allocator,
the payload is written through the pointer of the new tensor, and on an error return the local
tensor gives its storage back.
-/

namespace Eduort

open Onnx

/-- The bytes that the tensor asks for, if its dtype and dims are accepted. -/
def Onnx.TensorProto.Requests (tp : TensorProto) (n : Nat) : Prop :=
  ∃ dt shape, mapElemType tp.dataType = .ok dt ∧ TensorShape.fromSignedDims tp.dims = .ok shape ∧
    n = Tensor.byteSize dt shape

namespace SharedTensor

/-- A typed accessor: the pointer, once the dtype is the expected one. -/
def typedPtr (t : SharedTensor) (expected : DataType) (accessor : String) :
    Outcome (Option Base.Pointer) := do
  (t.view .empty).checkDtype expected accessor
  return t.buffer.ptr

/-- The part of `TensorFromTensorProto` behind `Tensor::Create`;
`src/ir/onnx_loader.cpp:220–263`. -/
def fillFromProto (tp : TensorProto) (dt : DataType) (ne nbytes : UInt64) (t : SharedTensor) :
    Base.Call Stop SharedTensor :=
  if nbytes = 0 then return t
  else if tp.rawData ≠ [] then
    if tp.rawData.length ≠ nbytes.toNat then .exit [t.buffer] (sizeMismatch "raw_data" tp.name)
    else do
      Base.Call.onMemory fun m ↦ m.memcpy t.buffer.ptr tp.rawData nbytes.toNat
      return t
  else if dt = .kFloat32 then
    if tp.floatData.length ≠ ne.toNat then .exit [t.buffer] (sizeMismatch "float_data" tp.name)
    else do
      let out ← Base.Call.ofExcept (t.typedPtr .kFloat32 "mutable_data_f32")
      Base.Call.onMemory fun m ↦ m.storeEach 4 encodeF32 out tp.floatData
      return t
  else if dt = .kInt64 then
    if tp.int64Data.length ≠ ne.toNat then .exit [t.buffer] (sizeMismatch "int64_data" tp.name)
    else do
      let out ← Base.Call.ofExcept (t.typedPtr .kInt64 "mutable_data_i64")
      Base.Call.onMemory fun m ↦ m.storeEach 8 encodeI64 out tp.int64Data
      return t
  else .exit [t.buffer] (.status (noPayloadStatus tp.name))

/-- `TensorFromTensorProto`; `src/ir/onnx_loader.cpp:209`. -/
def fromTensorProto (alloc : HostAllocator) (tp : TensorProto) : Base.Call Stop SharedTensor := do
  let dt ← ofStatusOr (mapElemType tp.dataType)
  let shape ← ofStatusOr (TensorShape.fromSignedDims tp.dims)
  let ne ← ofStatusOr shape.numElementsChecked
  let elem := sizeOfDataType dt
  let nbytes := ne * elem
  let t ← create alloc dt shape .kCPU
  fillFromProto tp dt ne nbytes t

variable {alloc : HostAllocator} {requests : Nat → Prop}

/-! ### The fill -/

/-- The typed part of the fill stores the entries of the field of the dtype. -/
theorem fillFromProto_typed (tp : TensorProto) (dt : DataType) (ne nbytes : UInt64)
    (t : SharedTensor) (hraw : tp.rawData = []) (hbytes : nbytes ≠ 0) (hdtype : t.dtype = dt) :
    fillFromProto tp dt ne nbytes t =
      if (tp.typedData dt).length ≠ ne.toNat then
        .exit [t.buffer] (sizeMismatch (typedFieldName dt) tp.name)
      else do
        let out ← Base.Call.ofExcept (.ok t.buffer.ptr)
        Base.Call.onMemory fun m ↦
          m.storeEach (sizeOfDataType dt).toNat (encodeElem dt) out (tp.typedData dt)
        return t := by
  have hview : (t.view .empty).dtype = dt := hdtype
  have haccess (accessor : String) : t.typedPtr dt accessor = .ok t.buffer.ptr := by
    rw [typedPtr, Tensor.checkDtype, if_neg (not_not.mpr hview)]
    rfl
  rw [fillFromProto, if_neg hbytes, if_neg (by simp [hraw])]
  cases dt with
  | kFloat32 =>
    rw [if_pos rfl, haccess]
    rfl
  | kInt64 =>
    rw [if_neg (by decide), if_pos rfl, haccess]
    rfl

section Fill

variable {m₀ m : Base.Memory} {owners : List BufferPtr} {t : SharedTensor} {v : Tensor}
  {a : Nat} {s : Base.Storage}

/-- A new tensor whose storage has been overwritten. -/
theorem joined_provide (h : reading.Joined m₀ owners m t v) (hptr : t.buffer.ptr = some (.start a))
    (hs : m.storage a = some s) (b : Base.Block) :
    reading.Joined m₀ owners (m.provide a { s with block := b }) t { v with buffer := some b } := by
  have haddr : Base.addresses (reading.owned t) = [a] := by
    show Base.addresses [t.buffer] = [a]
    rw [Base.addresses, List.filterMap_cons, hptr]
    rfl
  have hfresh : m₀.storage a = none := by
    apply h.fresh
    rw [haddr]
    exact List.mem_singleton_self a
  have hwritten : (m.provide a { s with block := b }).storage a = some { s with block := b } := by
    rw [m.storage_provide, if_pos rfl]
  constructor
  · exact h.refCounted.overwrite hs b
  · exact h.grows.provide hfresh hs b
  · exact h.owning
  · rw [haddr]
    intro a' ha'
    obtain rfl := List.mem_singleton.mp ha'
    rw [hwritten]
    exact Option.some_ne_none _
  · exact h.fresh
  · exact h.distinct
  · exact h.refused_eq
  · rw [← h.view_eq]
    show t.view _ = { t.view m with buffer := some b }
    rw [view, view, hptr, Base.Memory.blockAt_start _ a _ hwritten]

/-- A routine that overwrites the storage of a new tensor, which is then returned. -/
theorem write_ends {f : Base.Memory → Except Base.HeapFault Base.Memory} {b : Base.Block}
    (h : reading.Joined m₀ owners m t v) (hptr : t.buffer.ptr = some (.start a))
    (hs : m.storage a = some s) (hf : f m = .ok (m.provide a { s with block := b })) :
    Base.Ends (alloc.Refuses requests) m₀ owners (.ok { v with buffer := some b })
      (reading.Joined m₀ owners)
      ((Base.Call.onMemory f >>= fun _ ↦ pure t).execute m) := by
  have hrun : (Base.Call.onMemory f : Base.Call Stop PUnit).execute m =
      .ok (.ok ⟨⟩, m.provide a { s with block := b }) := by
    show (f m >>= _ : Except Base.HeapFault _) = _
    rw [hf]
    rfl
  rw [Base.Call.execute_bind, hrun]
  exact .pure (joined_provide h hptr hs b)

/-- The fill of a new tensor ends like the fill of its value. -/
theorem fillFromProto_ends (h₀ : Base.RefCounted m₀ owners) (tp : TensorProto) (dt : DataType)
    (shape : TensorShape) (hlead : shape.leadingCount < 2 ^ 64)
    (hfits : Tensor.byteSize dt shape < 2 ^ 64)
    (h : reading.Joined m₀ owners m t (Tensor.fresh dt shape)) :
    Base.Ends (alloc.Refuses requests) m₀ owners
      (Eduort.fillFromProto tp dt (UInt64.ofNat shape.count)
        (UInt64.ofNat (Tensor.byteSize dt shape)) (Tensor.fresh dt shape))
      (reading.Joined m₀ owners)
      ((fillFromProto tp dt (UInt64.ofNat shape.count)
        (UInt64.ofNat (Tensor.byteSize dt shape)) t).execute m) := by
  rw [Eduort.fillFromProto_fresh tp dt shape hlead hfits]
  have hcount : (UInt64.ofNat shape.count).toNat = shape.count :=
    UInt64.toNat_ofNat_of_lt' (shape.count_lt_of_leadingCount_lt hlead)
  have hn : (UInt64.ofNat (Tensor.byteSize dt shape)).toNat = Tensor.byteSize dt shape :=
    UInt64.toNat_ofNat_of_lt' hfits
  have hdtype : t.dtype = dt := congrArg Tensor.dtype h.view_eq
  have hblock : m.blockAt t.buffer.ptr = (Tensor.fresh dt shape).buffer :=
    congrArg Tensor.buffer h.view_eq
  by_cases hz : Tensor.byteSize dt shape = 0
  · rw [if_pos hz, hz, fillFromProto]
    exact .pure h
  have hbytes : UInt64.ofNat (Tensor.byteSize dt shape) ≠ 0 := by
    intro hzero
    rw [hzero] at hn
    exact hz hn.symm
  rw [if_neg hz]
  rw [Tensor.fresh] at hblock
  dsimp only at hblock
  rw [if_neg hz] at hblock
  obtain ⟨q, hq, -⟩ := Option.bind_eq_some_iff.mp hblock
  obtain ⟨a, s, hptr, hs⟩ := h.exists_storage (List.mem_singleton_self t.buffer) hq
  rw [hptr, m.blockAt_start a s hs, Option.some.injEq] at hblock
  by_cases hraw : tp.rawData = []
  · have hpayload : tp.payload dt = (tp.typedData dt).flatMap (encodeElem dt) :=
      if_neg (not_not.mpr hraw)
    have hlength : (tp.payload dt).length = Tensor.byteSize dt shape ↔
        (tp.typedData dt).length = shape.count := by
      rw [hpayload, length_typedPayload, Tensor.byteSize, Nat.mul_comm shape.count]
      exact Nat.mul_left_cancel_iff (sizeOfDataType_pos dt)
    rw [fillFromProto_typed tp dt _ _ t hraw hbytes hdtype, hcount, if_neg (not_not.mpr hraw)]
    by_cases hsize : (tp.typedData dt).length = shape.count
    · rw [if_neg (not_not.mpr hsize), if_pos (hlength.mpr hsize), Base.Call.execute_bind,
        Base.Call.execute_ofExcept]
      refine write_ends (b := Base.Block.ofBytes (tp.payload dt)) h hptr hs ?_
      rw [hptr]
      apply Base.Memory.storeEach_of_block hs
      rw [hblock, hpayload, Tensor.byteSize, ← hsize, Nat.mul_comm,
        Base.storeEach_uninit _ _ (length_encodeElem dt)]
    · rw [if_pos hsize, if_neg (fun hp ↦ hsize (hlength.mp hp))]
      exact .exit h₀ h
  · have hpayload : tp.payload dt = tp.rawData := if_pos hraw
    rw [fillFromProto, if_neg hbytes, if_pos hraw, if_pos hraw, hn, hpayload]
    by_cases hsize : tp.rawData.length = Tensor.byteSize dt shape
    · rw [if_neg (not_not.mpr hsize), if_pos hsize]
      refine write_ends (b := Base.Block.ofBytes tp.rawData) h hptr hs ?_
      rw [hptr]
      apply Base.Memory.memcpy_of_block hs
      rw [hblock, ← hsize, Base.memcpy_uninit]
    · rw [if_pos hsize, if_neg hsize]
      exact .exit h₀ h

end Fill

/-- Decoding into memory ends like decoding to a value, or the allocator refuses. -/
theorem fromTensorProto_realizes (h : alloc.Fresh) (tp : TensorProto)
    (hrequests : ∀ n, tp.Requests n → requests n) :
    Base.Realizes (alloc.Refuses requests) (fromTensorProto alloc tp) reading
      (tensorFromTensorProto (fun _ ↦ true) tp) := by
  intro m owners hcounted
  apply Base.Ends.ofExcept hcounted
  intro dt hdt
  apply Base.Ends.ofExcept hcounted
  intro shape hshape
  apply Base.Ends.ofExcept hcounted
  intro ne hne
  have hrequest := hrequests _
    ⟨dt, shape, Base.mapError_eq_ok.mp hdt, Base.mapError_eq_ok.mp hshape, rfl⟩
  apply (create_realizes h dt shape .kCPU hrequest m owners hcounted).bind
  intro t v m' hcreate ht
  have hpast : tp.PastCreate (fun _ ↦ true) dt shape ne v :=
    ⟨Base.mapError_eq_ok.mp hdt, Base.mapError_eq_ok.mp hshape, Base.mapError_eq_ok.mp hne,
      Base.mapError_eq_ok.mp hcreate⟩
  have header := hpast.header
  obtain rfl := hpast.eq_fresh
  have hcount : ne = UInt64.ofNat shape.count := by
    rw [← hpast.count_eq, UInt64.ofNat_toNat]
  have hmul : ne * sizeOfDataType dt = UInt64.ofNat (Tensor.byteSize dt shape) :=
    hpast.mul_eq_nbytes
  rw [hmul, hcount]
  exact fillFromProto_ends hcounted tp dt shape header.leadingCount_lt header.byteSize_lt ht

end SharedTensor
end Eduort
