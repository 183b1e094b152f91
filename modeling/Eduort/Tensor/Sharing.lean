import Eduort.Base.OwnedCall
import Eduort.Tensor.Basic

/-!
# Tensors that share buffers

Models the ownership of `src/allocator.cpp` and of the `Tensor` class: a tensor holds a shared
pointer, so that copies see one buffer. `Tensor` of the module before is what a shared tensor
looks like to somebody who reads its buffer. What `::operator new[]` answers is a parameter, which
may depend on the memory; the address is one that is not in use, but may have been in use before.
-/

namespace Eduort

/-- The allocators of the library; `src/allocator.cpp:36`. -/
inductive Allocator where
  | defaultCpuAllocator
  deriving DecidableEq, Repr

/-- `BufferPtr`; `include/eduort/allocator.h:69`. -/
abbrev BufferPtr := Base.SharedPtr

/-- What `::operator new[]` answers to a request of this size: an address that is not in use, or
null. -/
abbrev HostAllocator := Base.Memory → UInt64 → Option Nat

/-- The allocator hands out storage that nobody uses. -/
def HostAllocator.Fresh (alloc : HostAllocator) : Prop :=
  ∀ m nbytes a, alloc m nbytes = some a → m.storage a = none

/-- `n` bytes are one of the requests, in this memory the allocator answers it with null, and this
is the error that `Tensor::Create` then returns. -/
def HostAllocator.Refuses (alloc : HostAllocator) (requests : Nat → Prop) (m : Base.Memory)
    (n : Nat) (stop : Stop) : Prop :=
  requests n ∧ ∃ nbytes, nbytes.toNat = n ∧ alloc m nbytes = none ∧
    stop = .status (Tensor.allocationStatus nbytes)

/-- `CpuAllocator::Allocate`; `src/allocator.cpp:20`. -/
def heapAllocate (alloc : HostAllocator) (m : Base.Memory) (nbytes : UInt64) :
    Option Base.Pointer × Base.Memory :=
  if nbytes = 0 then (none, m)
  else
    match alloc m nbytes with
    | none => (none, m.refuse nbytes.toNat)
    | some a => (some (.start a), m.provide a ⟨Base.Block.uninit nbytes.toNat, .allocated⟩)

/-- `MakeAllocatedBuffer`; `src/allocator.cpp:43`. -/
def makeAllocatedBuffer (m : Base.Memory) (ptr : Option Base.Pointer) (alloc : Option Allocator) :
    BufferPtr × Base.Memory :=
  match ptr with
  | none => (.empty, m)
  | some q => m.share (some q) (if alloc ≠ none then .free else .noop)

/-- `MakeNonOwningBuffer`; `src/allocator.cpp:56`. -/
def makeNonOwningBuffer (m : Base.Memory) (ptr : Option Base.Pointer) : BufferPtr × Base.Memory :=
  m.share ptr .noop

/-- A callee that returns a `StatusOr` and touches no memory. -/
def ofStatusOr {α : Type} (x : StatusOr α) : Base.Call Stop α :=
  .ofExcept (x.mapError Stop.status)

/-- The fields of a `Tensor` with the shared pointer; `include/eduort/tensor.h:89`. -/
structure SharedTensor where
  dtype : DataType
  shape : TensorShape
  device : DeviceKind
  buffer : BufferPtr
  nbytes : UInt64
  ownsData : Bool
  deriving DecidableEq, Repr

instance : Inhabited SharedTensor := ⟨⟨.kFloat32, ⟨[]⟩, .kCPU, .empty, 0, true⟩⟩

namespace SharedTensor

/-- `Tensor::Create`; `src/tensor.cpp:146`. -/
def create (alloc : HostAllocator) (dt : DataType) (shape : TensorShape) (device : DeviceKind) :
    Base.Call Stop SharedTensor :=
  if sizeOfDataType dt = 0 then .exit [] (.status (Tensor.createTypeStatus dt))
  else if device ≠ .kCPU then .exit [] (.status Tensor.deviceStatus)
  else do
    ofStatusOr (validateShape shape)
    let nbytes ← ofStatusOr (computeNBytes dt shape)
    let ptr ← .modifyGet fun m ↦ if 0 < nbytes then heapAllocate alloc m nbytes else (none, m)
    if 0 < nbytes ∧ ptr = none then .exit [] (.status (Tensor.allocationStatus nbytes))
    else do
      let buffer ← .modifyGet fun m ↦ makeAllocatedBuffer m ptr (some .defaultCpuAllocator)
      return { dtype := dt, shape, device, buffer, nbytes, ownsData := true }

/-- `Tensor::FromHostBlob`; `src/tensor.cpp:179`. -/
def fromHostBlob (m : Base.Memory) (dt : DataType) (shape : TensorShape)
    (data : Option Base.Pointer) (bytes : UInt64) : StatusOr (SharedTensor × Base.Memory) :=
  if sizeOfDataType dt = 0 then .error Tensor.blobTypeStatus
  else do
    validateShape shape
    let nbytes ← computeNBytes dt shape
    if bytes ≠ nbytes then .error (Tensor.blobSizeStatus bytes nbytes)
    else if 0 < nbytes ∧ data = none then .error Tensor.nullBlobStatus
    else
      let (buffer, m) := makeNonOwningBuffer m data
      .ok ({ dtype := dt, shape, device := .kCPU, buffer, nbytes, ownsData := false }, m)

/-- The implicit move operations of `Tensor` take the dims and the shared pointer, and leave the
other fields as they are; `include/eduort/tensor.h:89`. -/
def movedFrom (t : SharedTensor) : SharedTensor := { t with shape := ⟨[]⟩, buffer := .empty }

/-- The tensor as a value: its fields and the bytes behind its pointer. -/
def view (m : Base.Memory) (t : SharedTensor) : Tensor where
  dtype := t.dtype
  shape := t.shape
  device := t.device
  buffer := m.blockAt t.buffer.ptr
  nbytes := t.nbytes
  ownsData := t.ownsData

/-- A tensor owns its buffer and reads as the bytes behind it. -/
def reading : Base.Reading SharedTensor Tensor where
  owned t := [t.buffer]
  view := view
  view_congr m m' t h := by
    rw [view, view, h t.buffer List.mem_cons_self]

/-! ### New tensors -/

/-- `Create` on memory ends like `Create` on values, or the allocator refuses. -/
theorem create_realizes {alloc : HostAllocator} (h : alloc.Fresh) {requests : Nat → Prop}
    (dt : DataType) (shape : TensorShape) (device : DeviceKind)
    (hrequest : requests (Tensor.byteSize dt shape)) :
    Base.Realizes (alloc.Refuses requests) (create alloc dt shape device) reading
      ((Tensor.create (fun _ ↦ true) dt shape device).mapError Stop.status) := by
  intro m owners hcounted
  rw [create, Tensor.create, if_neg (sizeOfDataType_ne_zero dt), if_neg (sizeOfDataType_ne_zero dt)]
  by_cases hdevice : device ≠ .kCPU
  · rw [if_pos hdevice, if_pos hdevice]
    exact .exitNil hcounted
  rw [if_neg hdevice, if_neg hdevice, Base.mapError_bind]
  apply Base.Ends.ofExcept hcounted
  intro _ _
  rw [Base.mapError_bind]
  apply Base.Ends.ofExcept hcounted
  intro nbytes hnbytes
  obtain ⟨-, -, hsize⟩ := (computeNBytes_eq_ok dt shape nbytes).mp (Base.mapError_eq_ok.mp hnbytes)
  rw [← hsize] at hrequest
  rw [Base.Call.execute_bind, Base.Call.execute_modifyGet]
  by_cases hpos : 0 < nbytes
  · have hne : nbytes ≠ 0 := UInt64.pos_iff_ne_zero.mp hpos
    have hvalue : cpuAllocate (fun _ ↦ true) nbytes = some (Base.Block.uninit nbytes.toNat) := by
      rw [cpuAllocate, if_neg hne]
      rfl
    cases hanswer : alloc m nbytes with
    | none =>
      have hrefused : heapAllocate alloc m nbytes = (none, m.refuse nbytes.toNat) := by
        rw [heapAllocate, if_neg hne, hanswer]
      simp only [hpos, hrefused, ↓reduceIte, and_self]
      have hrefusal : alloc.Refuses requests m nbytes.toNat
          (.status (Tensor.allocationStatus nbytes)) := ⟨hrequest, nbytes, rfl, hanswer, rfl⟩
      exact .error (.refused m _ (Base.Memory.Grows.refl m) hrefusal rfl)
        (hcounted.refuse _) ((Base.Memory.Grows.refl m).refuse _)
    | some a =>
      have hallocated : heapAllocate alloc m nbytes =
          (some (.start a), m.provide a ⟨Base.Block.uninit nbytes.toNat, .allocated⟩) := by
        rw [heapAllocate, if_neg hne, hanswer]
      simp only [hpos, hallocated, hvalue, ↓reduceIte, reduceCtorEq, and_false]
      refine .value rfl (.allocated hcounted _ (h m nbytes a hanswer) rfl rfl ?_)
      exact congrArg (fun buffer ↦ (⟨dt, shape, device, buffer, nbytes, true⟩ : Tensor))
        (m.blockAt_share_provide a ⟨Base.Block.uninit nbytes.toNat, .allocated⟩ .free)
  · simp only [hpos, ↓reduceIte, false_and]
    exact .value rfl (.empty hcounted rfl)

/-- `FromHostBlob` is that on values, when the pointer is null or points into live storage. -/
theorem fromHostBlob_view (m : Base.Memory) (dt : DataType) (shape : TensorShape)
    (data : Option Base.Pointer) (bytes : UInt64)
    (hdata : ∀ q, data = some q → m.storage q.base ≠ none) :
    (fromHostBlob m dt shape data bytes).map (fun (t, m') ↦ t.view m') =
      Tensor.fromHostBlob dt shape (m.blockAt data) bytes := by
  have hnull : m.blockAt data = none ↔ data = none := by
    cases data with
    | none => exact iff_of_true rfl rfl
    | some q =>
      have hlive := hdata q rfl
      cases hs : m.storage q.base with
      | none => exact absurd hs hlive
      | some s => simp [Base.Memory.blockAt, hs]
  rw [fromHostBlob, Tensor.fromHostBlob]
  split
  · rfl
  cases validateShape shape with
  | error s => rfl
  | ok u =>
    cases computeNBytes dt shape with
    | error s => rfl
    | ok nbytes =>
      simp only [bind, Except.bind, hnull]
      split
      · rfl
      · split
        · rfl
        · rfl

theorem fromHostBlob_spec {m m' : Base.Memory} {dt : DataType} {shape : TensorShape}
    {data : Option Base.Pointer} {bytes : UInt64} {t : SharedTensor}
    (h : fromHostBlob m dt shape data bytes = .ok (t, m')) :
    t.ownsData = false ∧ t.nbytes.toNat = Tensor.byteSize t.dtype t.shape ∧
      (t.nbytes = bytes ∧ (data = none → t.nbytes = 0)) ∧
        t.buffer = (m.share data .noop).1 ∧ m' = (m.share data .noop).2 := by
  rw [fromHostBlob, if_neg (sizeOfDataType_ne_zero dt), Base.bind_eq_ok] at h
  obtain ⟨-, -, h⟩ := h
  rw [Base.bind_eq_ok] at h
  obtain ⟨nbytes, hcompute, h⟩ := h
  obtain ⟨-, -, hn⟩ := (computeNBytes_eq_ok dt shape nbytes).mp hcompute
  rw [Base.check_eq_ok, Base.check_eq_ok] at h
  obtain ⟨hbytes, hnull, h⟩ := h
  cases h
  refine ⟨rfl, hn, ⟨(not_not.mp hbytes).symm, fun hnone ↦ ?_⟩, rfl, rfl⟩
  by_contra hne
  exact hnull ⟨UInt64.pos_iff_ne_zero.mpr hne, hnone⟩

end SharedTensor
end Eduort
