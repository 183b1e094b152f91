import Eduort.Onnx.TensorDecode

/-!
# Payload encodings and acceptance of serialized tensors

The two payload encodings decode to the same tensor, every tensor the library builds has
its exact size, and a proto is accepted exactly when its payload fits its shape, up to the
shapes without elements, whose payload is never looked at.
-/

namespace Eduort

open Onnx

variable (hostNew : UInt64 → Bool)

/-! ### Element access -/

private theorem elemF32_eq_ok (t : Tensor) (i : Nat) (bytes : List UInt8)
    (hdtype : t.dtype = .kFloat32) (hload : Base.load t.buffer (4 * i) 4 = .ok bytes) :
    t.elemF32 i = .ok (UInt32.ofNat (Base.leNat bytes)) := by
  rw [Tensor.elemF32, Tensor.dataF32, t.typedData_eq_ok _ _ hdtype]
  simp only [bind, Except.bind, hload]
  rfl

private theorem elemI64_eq_ok (t : Tensor) (i : Nat) (bytes : List UInt8)
    (hdtype : t.dtype = .kInt64) (hload : Base.load t.buffer (8 * i) 8 = .ok bytes) :
    t.elemI64 i = .ok (UInt64.ofNat (Base.leNat bytes)).toInt64 := by
  rw [Tensor.elemI64, Tensor.dataI64, t.typedData_eq_ok _ _ hdtype]
  simp only [bind, Except.bind, hload]
  rfl

/-- The object representation of a `float` determines its bit pattern. -/
theorem ofNat_leNat_encodeF32 (x : UInt32) : UInt32.ofNat (Base.leNat (encodeF32 x)) = x := by
  rw [encodeF32, Base.leNat_leBytes 4 _ x.toNat_lt, UInt32.ofNat_toNat]

/-- The object representation of an `int64_t` determines it. -/
theorem toInt64_leNat_encodeI64 (x : Int64) :
    (UInt64.ofNat (Base.leNat (encodeI64 x))).toInt64 = x := by
  rw [encodeI64, Base.leNat_leBytes 8 _ x.toUInt64.toNat_lt, UInt64.ofNat_toNat,
    Int64.toInt64_toUInt64]

/-- Element access reads back the element whose representation stands at its place. -/
theorem elem_holding (dt : DataType) (shape : TensorShape) (xs : List dt.Elem) (i : Nat)
    (hi : i < xs.length) :
    (Tensor.holding dt shape (xs.flatMap (encodeElem dt))).elem dt i = .ok xs[i] := by
  have hbound : (sizeOfDataType dt).toNat * i + (sizeOfDataType dt).toNat ≤
      (xs.flatMap (encodeElem dt)).length := by
    rw [length_typedPayload, ← Nat.mul_succ]
    exact Nat.mul_le_mul_left _ hi
  have hload := Base.load_ofBytes _ _ _ hbound
  rw [Base.window_flatMap _ (encodeElem dt) (length_encodeElem dt) xs i hi] at hload
  cases dt with
  | kFloat32 =>
    have helem := elemF32_eq_ok (Tensor.holding .kFloat32 shape _) i _ rfl hload
    exact helem.trans (congrArg Except.ok (ofNat_leNat_encodeF32 xs[i]))
  | kInt64 =>
    have helem := elemI64_eq_ok (Tensor.holding .kInt64 shape _) i _ rfl hload
    exact helem.trans (congrArg Except.ok (toInt64_leNat_encodeI64 xs[i]))

/-! ### The two payload encodings -/

/-- A supported header with an exact payload decodes to the tensor that holds the payload. -/
theorem tensorFromTensorProto_of_payload (hnew : ∀ n, hostNew n = true) (tp : TensorProto)
    (dt : DataType) (shape : TensorShape) (header : tp.Header dt shape)
    (hz : Tensor.byteSize dt shape ≠ 0)
    (hsize : (tp.payload dt).length = Tensor.byteSize dt shape) :
    tensorFromTensorProto hostNew tp = .ok (Tensor.holding dt shape (tp.payload dt)) :=
  (tensorFromTensorProto_eq_ok hostNew tp _).mpr
    ⟨dt, shape, header, fun _ ↦ hnew _, Or.inr ⟨hz, hsize, rfl⟩⟩

/-- A supported header without elements decodes to the empty tensor. -/
theorem tensorFromTensorProto_of_empty (hnew : ∀ n, hostNew n = true) (tp : TensorProto)
    (dt : DataType) (shape : TensorShape) (header : tp.Header dt shape)
    (hz : Tensor.byteSize dt shape = 0) :
    tensorFromTensorProto hostNew tp = .ok (Tensor.fresh dt shape) :=
  (tensorFromTensorProto_eq_ok hostNew tp _).mpr
    ⟨dt, shape, header, fun _ ↦ hnew _, Or.inl ⟨hz, rfl⟩⟩

/-- Typed entries and their concatenated little-endian bytes decode to one and the same
tensor, whose elements are the entries. The raw proto may carry typed entries besides. -/
theorem tensorFromTensorProto_encodings_agree (hnew : ∀ n, hostNew n = true) (dt : DataType)
    (dims : List Int64) (hdims : ∀ d ∈ dims, 0 ≤ d) (ne : UInt64)
    (hcount : (⟨dims.map Int64.toUInt64⟩ : TensorShape).numElementsChecked = .ok ne)
    (hbytes : ne.toNat * (sizeOfDataType dt).toNat < 2 ^ 64)
    (xs : List dt.Elem) (hlen : xs.length = ne.toNat) (typed raw : TensorProto)
    (htyped : typed.dataType = dt.onnxCode ∧ typed.dims = dims ∧
      typed.typedData dt = xs ∧ typed.rawData = [])
    (hraw : raw.dataType = dt.onnxCode ∧ raw.dims = dims ∧
      raw.rawData = xs.flatMap (encodeElem dt)) :
    ∃ t, tensorFromTensorProto hostNew typed = .ok t ∧
      tensorFromTensorProto hostNew raw = .ok t ∧
      t.dtype = dt ∧ t.shape = ⟨dims.map Int64.toUInt64⟩ ∧
      (xs ≠ [] → t.buffer = some (Base.Block.ofBytes (xs.flatMap (encodeElem dt)))) ∧
      ∀ i (hi : i < xs.length), t.elem dt i = .ok xs[i] := by
  obtain ⟨htypedCode, htypedDims, htypedData, htypedRaw⟩ := htyped
  obtain ⟨hrawCode, hrawDims, hrawData⟩ := hraw
  let shape : TensorShape := ⟨dims.map Int64.toUInt64⟩
  obtain ⟨hlead, hne⟩ := (shape.numElementsChecked_eq_ok ne).mp hcount
  have hbyteSize : Tensor.byteSize dt shape = (sizeOfDataType dt).toNat * xs.length := by
    rw [Tensor.byteSize, ← hne, hlen, Nat.mul_comm]
  have hfits : Tensor.byteSize dt shape < 2 ^ 64 := by
    rwa [Tensor.byteSize, ← hne]
  have headers (tp : TensorProto) (hcode : tp.dataType = dt.onnxCode) (hd : tp.dims = dims) :
      tp.Header dt shape :=
    ⟨hcode, by rwa [hd], by rw [hd], checked_of_lt dt shape hlead hfits⟩
  have typedHeader := headers typed htypedCode htypedDims
  have rawHeader := headers raw hrawCode hrawDims
  by_cases hz : Tensor.byteSize dt shape = 0
  · have hnil : xs = [] := by
      rw [hbyteSize] at hz
      have hpos := sizeOfDataType_pos dt
      exact List.eq_nil_of_length_eq_zero ((Nat.mul_eq_zero.mp hz).resolve_left (by omega))
    refine ⟨Tensor.fresh dt shape,
      tensorFromTensorProto_of_empty hostNew hnew typed dt shape typedHeader hz,
      tensorFromTensorProto_of_empty hostNew hnew raw dt shape rawHeader hz, rfl, rfl,
      fun hne ↦ absurd hnil hne, fun i hi ↦ ?_⟩
    simp [hnil] at hi
  · have hpayload : (xs.flatMap (encodeElem dt)).length = Tensor.byteSize dt shape := by
      rw [length_typedPayload, hbyteSize]
    have htypedPayload : typed.payload dt = xs.flatMap (encodeElem dt) := by
      rw [TensorProto.payload, if_neg (not_not.mpr htypedRaw), htypedData]
    have hrawPayload : raw.payload dt = xs.flatMap (encodeElem dt) := by
      have hne : raw.rawData ≠ [] := by
        intro hnil
        rw [← hpayload, ← hrawData, hnil] at hz
        exact hz rfl
      rw [TensorProto.payload, if_pos hne, hrawData]
    have htypedRun := tensorFromTensorProto_of_payload hostNew hnew typed dt shape typedHeader hz
      (by rw [htypedPayload, hpayload])
    have hrawRun := tensorFromTensorProto_of_payload hostNew hnew raw dt shape rawHeader hz
      (by rw [hrawPayload, hpayload])
    rw [htypedPayload] at htypedRun
    rw [hrawPayload] at hrawRun
    exact ⟨_, htypedRun, hrawRun, rfl, rfl, fun _ ↦ rfl, elem_holding dt shape xs⟩

/-- The two encodings of the vector `[1, -1]` of `int64` elements. -/
theorem tensorFromTensorProto_encodings_agree_int64 :
    ∃ t, tensorFromTensorProto (fun _ ↦ true)
          { dims := [2], dataType := 7, int64Data := [1, -1] } = .ok t ∧
      tensorFromTensorProto (fun _ ↦ true)
          { dims := [2], dataType := 7,
            rawData := [1, 0, 0, 0, 0, 0, 0, 0, 255, 255, 255, 255, 255, 255, 255, 255] } =
        .ok t ∧ t.elemI64 1 = .ok (-1) := by
  obtain ⟨t, htyped, hraw, -, -, -, helem⟩ :=
    tensorFromTensorProto_encodings_agree (fun _ ↦ true) (fun _ ↦ rfl) .kInt64 [2] (by simp) 2
      (by decide) (by decide) ([1, -1] : List Int64) (by decide)
      { dims := [2], dataType := 7, int64Data := [1, -1] }
      { dims := [2], dataType := 7,
        rawData := [1, 0, 0, 0, 0, 0, 0, 0, 255, 255, 255, 255, 255, 255, 255, 255] }
      ⟨rfl, rfl, rfl, rfl⟩ ⟨rfl, rfl, by decide⟩
  exact ⟨t, htyped, hraw, helem 1 (by decide)⟩

/-! ### Exact sizes -/

/-- Every tensor a proto decodes to is well sized. -/
theorem tensorFromTensorProto_wellSized (tp : TensorProto) (t : Tensor)
    (h : tensorFromTensorProto hostNew tp = .ok t) : t.WellSized := by
  obtain ⟨dt, shape, header, hnew, hcase⟩ := (tensorFromTensorProto_eq_ok hostNew tp t).mp h
  rcases hcase with ⟨-, rfl⟩ | ⟨-, -, rfl⟩
  · apply Tensor.create_wellSized hostNew dt shape
    exact (Tensor.create_eq_ok hostNew dt shape _).mpr
      ⟨header.leadingCount_lt, header.byteSize_lt, hnew, rfl⟩
  · refine Tensor.wellSized_of_exact _ header.leadingCount_lt header.byteSize_lt ?_ ?_
    · exact UInt64.toNat_ofNat_of_lt' header.byteSize_lt
    · intro _
      simp [Tensor.holding]

/-- A decoded tensor either has no bytes and no buffer, or a buffer of its byte size in which
every byte has been written. -/
theorem tensorFromTensorProto_initialized (tp : TensorProto) (t : Tensor)
    (h : tensorFromTensorProto hostNew tp = .ok t) :
    (t.nbytes = 0 ∧ t.buffer = none) ∨
      ∃ b, t.buffer = some b ∧ b.size = t.nbytes.toNat ∧
        ∀ i, b.Written i ↔ i < t.nbytes.toNat := by
  obtain ⟨dt, shape, header, -, hcase⟩ := (tensorFromTensorProto_eq_ok hostNew tp t).mp h
  rcases hcase with ⟨hz, rfl⟩ | ⟨-, hsize, rfl⟩
  · left
    exact ⟨congrArg UInt64.ofNat hz, if_pos hz⟩
  · right
    have hn : (UInt64.ofNat (Tensor.byteSize dt shape)).toNat = (tp.payload dt).length := by
      rw [hsize]
      exact UInt64.toNat_ofNat_of_lt' header.byteSize_lt
    refine ⟨Base.Block.ofBytes (tp.payload dt), rfl, ?_, fun i ↦ ?_⟩
    · exact (Base.Block.size_ofBytes _).trans hn.symm
    · rw [Base.Block.written_ofBytes, ← hn]
      rfl

/-- The written offsets of a decoded tensor are exactly those below its byte size, which is the
size of its buffer. -/
theorem tensorFromTensorProto_written (tp : TensorProto) (t : Tensor)
    (h : tensorFromTensorProto hostNew tp = .ok t) :
    (∀ b, t.buffer = some b → b.size = t.nbytes.toNat) ∧
      ∀ i, t.Written i ↔ i < t.nbytes.toNat := by
  rcases tensorFromTensorProto_initialized hostNew tp t h with
    ⟨hz, hnull⟩ | ⟨b, hbuffer, hsize, hwritten⟩
  · constructor
    · intro b hb
      rw [hnull] at hb
      cases hb
    · intro i
      rw [Tensor.Written, hnull, hz]
      simp
  · constructor
    · intro b' hb'
      rw [hbuffer] at hb'
      cases hb'
      exact hsize
    · intro i
      rw [Tensor.Written, hbuffer, ← hwritten i]
      simp

/-- The fill is exact. Past `Tensor::Create` the unguarded product of the element count and the
element size has not wrapped, is the byte size of the tensor, and is zero for shapes without
elements only; nothing is written by then. On success exactly the offsets below the byte size
are written, and no access leaves the buffer. -/
theorem tensorFromTensorProto_fillsExactly (tp : TensorProto) :
    (∀ dt shape ne fresh, tp.PastCreate hostNew dt shape ne fresh →
        tensorFromTensorProto hostNew tp =
            fillFromProto tp dt ne (ne * sizeOfDataType dt) fresh ∧
          (ne * sizeOfDataType dt).toNat = ne.toNat * (sizeOfDataType dt).toNat ∧
          ne * sizeOfDataType dt = fresh.nbytes ∧
          (ne * sizeOfDataType dt = 0 ↔ shape.count = 0) ∧
          ∀ i, ¬ fresh.Written i) ∧
      (∀ t, tensorFromTensorProto hostNew tp = .ok t →
        (∃ dt shape ne fresh, tp.PastCreate hostNew dt shape ne fresh ∧
          t.nbytes = fresh.nbytes) ∧
          (∀ b, t.buffer = some b → b.size = t.nbytes.toNat) ∧
          ∀ i, t.Written i ↔ i < t.nbytes.toNat) ∧
      ∀ stop, tensorFromTensorProto hostNew tp = .error stop → ∃ s, stop = .status s := by
  refine ⟨fun dt shape ne fresh hpast ↦ ?_, fun t h ↦ ⟨?_, ?_⟩,
    tensorFromTensorProto_eq_error hostNew tp⟩
  · refine ⟨hpast.run_eq, hpast.toNat_mul, hpast.mul_eq_nbytes, hpast.mul_eq_zero_iff, ?_⟩
    rw [hpast.eq_fresh]
    exact Tensor.not_written_fresh dt shape
  · obtain ⟨dt, shape, header, hnew, hcase⟩ := (tensorFromTensorProto_eq_ok hostNew tp t).mp h
    refine ⟨dt, shape, _, _, .of_header header hnew, ?_⟩
    rcases hcase with ⟨-, rfl⟩ | ⟨-, -, rfl⟩
    · rfl
    · rfl
  · exact tensorFromTensorProto_written hostNew tp t h

/-- Two `int64` elements fill sixteen bytes; for `2^62` floats the product wraps to zero, but
`Tensor::Create` refuses them first. -/
theorem tensorFromTensorProto_fillsExactly_int64 :
    (∃ t, tensorFromTensorProto (fun _ ↦ true)
          { dims := [2], dataType := 7, int64Data := [1, -1] } = .ok t ∧
        ∀ i, t.Written i ↔ i < 16) ∧
      (0x4000000000000000 : UInt64) * sizeOfDataType .kFloat32 = 0 ∧
      ¬ ∃ shape ne fresh, TensorProto.PastCreate (fun _ ↦ true)
        { dims := [0x4000000000000000], dataType := 1 } .kFloat32 shape ne fresh := by
  refine ⟨?_, by decide, ?_⟩
  · obtain ⟨-, hok, -⟩ := tensorFromTensorProto_fillsExactly (fun _ ↦ true)
      { dims := [2], dataType := 7, int64Data := [1, -1] }
    exact ⟨_, rfl, (hok _ rfl).2.2⟩
  · rintro ⟨shape, ne, fresh, hpast⟩
    obtain ⟨hpastAll, -, -⟩ := tensorFromTensorProto_fillsExactly (fun _ ↦ true)
      { dims := [0x4000000000000000], dataType := 1 }
    obtain ⟨-, hmul, -⟩ := hpastAll _ _ _ _ hpast
    have hlt := (ne * sizeOfDataType .kFloat32).toNat_lt
    rw [hmul, hpast.count_eq, hpast.header.shape_eq] at hlt
    exact absurd hlt (by decide)

/-- Every tensor of the library has its exact byte size, a buffer when it has bytes, and an
element count that does not abort; and for shapes without a zero dim `Create` refuses exactly
those whose byte size leaves `size_t`. -/
theorem builtTensors_wellSized (dt : DataType) (shape : TensorShape) :
    (∀ t, Tensor.create hostNew dt shape .kCPU = .ok t → t.WellSized) ∧
      (∀ data bytes t, Tensor.fromHostBlob dt shape data bytes = .ok t → t.WellSized) ∧
      (∀ tp t, tensorFromTensorProto hostNew tp = .ok t → t.WellSized) ∧
      (0 ∉ shape.dims →
        ((∃ st, Tensor.create hostNew dt shape .kCPU = .error st ∧
            st.code = .kInvalidArgument) ↔ 2 ^ 64 ≤ Tensor.byteSize dt shape)) := by
  refine ⟨Tensor.create_wellSized hostNew dt shape, Tensor.fromHostBlob_wellSized dt shape,
    tensorFromTensorProto_wellSized hostNew, fun hz ↦ ?_⟩
  rw [Tensor.create_kInvalidArgument_iff, Tensor.sizeChecks_iff dt shape hz, Nat.not_lt]

/-- One float that is created, lent and decoded, and `2^62` of them, which are refused. -/
theorem builtTensors_wellSized_float32 :
    (∃ t, Tensor.create (fun _ ↦ true) .kFloat32 ⟨[1]⟩ .kCPU = .ok t ∧ t.WellSized) ∧
      (∃ t, Tensor.fromHostBlob .kFloat32 ⟨[1]⟩ (some (Base.Block.uninit 4)) 4 = .ok t ∧
        t.WellSized) ∧
      (∃ t, tensorFromTensorProto (fun _ ↦ true)
        { dims := [1], dataType := 1, rawData := [0, 0, 128, 63] } = .ok t ∧ t.WellSized) ∧
      ∃ st, Tensor.create (fun _ ↦ true) .kFloat32 ⟨[0x4000000000000000]⟩ .kCPU = .error st ∧
        st.code = .kInvalidArgument := by
  obtain ⟨hcreate, hlend, hdecode, -⟩ := builtTensors_wellSized (fun _ ↦ true) .kFloat32 ⟨[1]⟩
  obtain ⟨-, -, -, hrefuse⟩ :=
    builtTensors_wellSized (fun _ ↦ true) .kFloat32 ⟨[0x4000000000000000]⟩
  obtain ⟨t, ht⟩ : ∃ t, tensorFromTensorProto (fun _ ↦ true)
      { dims := [1], dataType := 1, rawData := [0, 0, 128, 63] } = .ok t := ⟨_, rfl⟩
  exact ⟨⟨_, rfl, hcreate _ rfl⟩, ⟨_, rfl, hlend (some (Base.Block.uninit 4)) 4 _ rfl⟩,
    ⟨t, ht, hdecode _ t ht⟩, (hrefuse (by decide)).mpr (by decide)⟩

/-! ### Acceptance -/

/-- The payload has the size of the shape: as raw bytes when there are any, in entries of
the typed field otherwise. -/
structure Onnx.TensorProto.PayloadMatches (tp : TensorProto) (dt : DataType)
    (shape : TensorShape) : Prop where
  raw : tp.rawData ≠ [] → tp.rawData.length = shape.count * (sizeOfDataType dt).toNat
  typed : tp.rawData = [] → (tp.typedData dt).length = shape.count

/-- The header is supported and the payload has the size of its shape. -/
def Onnx.TensorProto.MatchesShape (tp : TensorProto) : Prop :=
  ∃ dt shape, tp.Header dt shape ∧ tp.PayloadMatches dt shape

/-- The header is supported, its shape has no elements, yet raw bytes or typed entries of
its dtype are there. -/
def Onnx.TensorProto.DiscardsPayload (tp : TensorProto) : Prop :=
  ∃ dt shape, tp.Header dt shape ∧ shape.count = 0 ∧ (tp.rawData ≠ [] ∨ tp.typedData dt ≠ [])

/-- The payload matches exactly when its bytes have the byte size of the shape. -/
theorem payloadMatches_iff (tp : TensorProto) (dt : DataType) (shape : TensorShape) :
    tp.PayloadMatches dt shape ↔ (tp.payload dt).length = Tensor.byteSize dt shape := by
  by_cases hraw : tp.rawData = []
  · rw [TensorProto.payload, if_neg (not_not.mpr hraw), length_typedPayload, Tensor.byteSize,
      Nat.mul_comm shape.count, Nat.mul_left_cancel_iff (sizeOfDataType_pos dt)]
    exact ⟨fun h ↦ h.typed hraw, fun h ↦ ⟨fun hne ↦ absurd hraw hne, fun _ ↦ h⟩⟩
  · rw [TensorProto.payload, if_pos hraw]
    exact ⟨fun h ↦ h.raw hraw, fun h ↦ ⟨fun _ ↦ h, fun hnil ↦ absurd hnil hraw⟩⟩

/-- With storage available, a proto is accepted exactly when its header is supported and the
shape is empty or the payload matches. -/
theorem tensorFromTensorProto_accepts_iff (hnew : ∀ n, hostNew n = true) (tp : TensorProto) :
    (∃ t, tensorFromTensorProto hostNew tp = .ok t) ↔
      ∃ dt shape, tp.Header dt shape ∧ (shape.count = 0 ∨ tp.PayloadMatches dt shape) := by
  have hzero (dt : DataType) (shape : TensorShape) :
      Tensor.byteSize dt shape = 0 ↔ shape.count = 0 := by
    have hpos := sizeOfDataType_pos dt
    rw [Tensor.byteSize, Nat.mul_eq_zero]
    omega
  constructor
  · rintro ⟨t, ht⟩
    obtain ⟨dt, shape, header, -, hcase⟩ := (tensorFromTensorProto_eq_ok hostNew tp t).mp ht
    refine ⟨dt, shape, header, ?_⟩
    rcases hcase with ⟨hz, -⟩ | ⟨-, hsize, -⟩
    · exact Or.inl ((hzero dt shape).mp hz)
    · exact Or.inr ((payloadMatches_iff tp dt shape).mpr hsize)
  · rintro ⟨dt, shape, header, hcase⟩
    by_cases hz : Tensor.byteSize dt shape = 0
    · exact ⟨_, tensorFromTensorProto_of_empty hostNew hnew tp dt shape header hz⟩
    · have hmatch := hcase.resolve_left fun h ↦ hz ((hzero dt shape).mpr h)
      exact ⟨_, tensorFromTensorProto_of_payload hostNew hnew tp dt shape header hz
        ((payloadMatches_iff tp dt shape).mp hmatch)⟩

/-- Without elements only the absent payload matches. -/
theorem payloadMatches_of_count_zero (tp : TensorProto) (dt : DataType) (shape : TensorShape)
    (hz : shape.count = 0) :
    tp.PayloadMatches dt shape ↔ ¬ (tp.rawData ≠ [] ∨ tp.typedData dt ≠ []) := by
  rw [payloadMatches_iff, Tensor.byteSize, hz, Nat.zero_mul, List.length_eq_zero_iff,
    TensorProto.payload]
  split
  · next hraw => simp [hraw]
  · next hraw =>
    have hnil : tp.rawData = [] := not_not.mp hraw
    rw [← List.length_eq_zero_iff, length_typedPayload, Nat.mul_eq_zero,
      List.length_eq_zero_iff]
    have hpos := sizeOfDataType_pos dt
    simp [hnil, Nat.pos_iff_ne_zero.mp hpos]

/-- Acceptance means that the payload matches the shape, exactly for the protos that do not
bring a payload for a shape without elements. -/
theorem tensorFromTensorProto_matches_iff (hnew : ∀ n, hostNew n = true) (tp : TensorProto) :
    ((∃ t, tensorFromTensorProto hostNew tp = .ok t) ↔ tp.MatchesShape) ↔
      ¬ tp.DiscardsPayload := by
  rw [tensorFromTensorProto_accepts_iff hostNew hnew]
  constructor
  · rintro hiff ⟨dt, shape, header, hz, hpayload⟩
    obtain ⟨dt', shape', header', hmatch⟩ := hiff.mp ⟨dt, shape, header, Or.inl hz⟩
    obtain ⟨rfl, rfl⟩ := header.unique header'
    exact (payloadMatches_of_count_zero tp dt shape hz).mp hmatch hpayload
  · intro hkeep
    constructor
    · rintro ⟨dt, shape, header, hz | hmatch⟩
      · refine ⟨dt, shape, header, (payloadMatches_of_count_zero tp dt shape hz).mpr ?_⟩
        exact fun hpayload ↦ hkeep ⟨dt, shape, header, hz, hpayload⟩
      · exact ⟨dt, shape, header, hmatch⟩
    · rintro ⟨dt, shape, header, hmatch⟩
      exact ⟨dt, shape, header, Or.inr hmatch⟩

/-- A scalar with one float is accepted because its payload matches. -/
theorem tensorFromTensorProto_matches_scalar :
    (∃ t, tensorFromTensorProto (fun _ ↦ true)
        { dataType := 1, floatData := [0x3F800000] } = .ok t) ↔
      ({ dataType := 1, floatData := [0x3F800000] } : TensorProto).MatchesShape := by
  refine (tensorFromTensorProto_matches_iff (fun _ ↦ true) (fun _ ↦ rfl) _).mpr ?_
  rintro ⟨dt, shape, header, hz, -⟩
  rw [header.shape_eq] at hz
  exact absurd hz (by decide)

/-- A tensor without elements is accepted together with a stray payload byte. -/
theorem tensorFromTensorProto_discards_raw :
    ¬ ((∃ t, tensorFromTensorProto (fun _ ↦ true)
          { dims := [0], dataType := 1, rawData := [7] } = .ok t) ↔
        ({ dims := [0], dataType := 1, rawData := [7] } : TensorProto).MatchesShape) := by
  intro hiff
  obtain ⟨dt, shape, header, hmatch⟩ := hiff.mp ⟨Tensor.fresh .kFloat32 ⟨[0]⟩, by decide⟩
  have hlength := hmatch.raw (by decide)
  have hz : shape.count = 0 := by
    rw [header.shape_eq]
    decide
  rw [hz, Nat.zero_mul] at hlength
  exact absurd hlength (by decide)

end Eduort
