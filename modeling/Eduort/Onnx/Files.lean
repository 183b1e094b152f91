import Eduort.Onnx.LoaderImage

/-!
# Loading from files and buffers

Models `src/file_utils.cpp`, `src/model_proto.cpp` and `LoadGraphFromFile`. What a file stream
finds at a path, which bytes protobuf parses and which sizes a buffer for a file can have are
parameters. The two limits of the source are compared with the size that the stream reports,
before anything is read.
-/

namespace Eduort

open Onnx

/-- An open `std::ifstream`: what `tellg` answers at the end, negative if it fails, and the bytes
that can be read from the start. -/
structure HostFile where
  endPos : Int64
  content : List UInt8
  deriving DecidableEq

/-- `in.read(buf, n)` from the start: all of the bytes, or the stream fails. -/
def HostFile.read (file : HostFile) (n : Nat) : Option (List UInt8) :=
  if n ≤ file.content.length then some (file.content.take n) else none

/-- `kDefaultMaxModelBytes`; `include/eduort/model_proto.h:24`. -/
def kDefaultMaxModelBytes : UInt64 := (64 : UInt64) <<< 20

/-- `std::numeric_limits<int>::max()`. -/
def intMax : UInt64 := 2147483647

/-- The status for a missing path; `src/file_utils.cpp:14`. -/
def emptyPathStatus : Status := Status.error .kInvalidArgument "path is empty"

/-- The status for a file that does not open; `src/file_utils.cpp:19`. -/
def unopenedStatus (path : String) : Status :=
  Status.error .kModelLoad ("failed to open file: " ++ path)

/-- The status for a file whose size is unknown; `src/file_utils.cpp:26`. -/
def unmeasuredStatus (path : String) : Status :=
  Status.error .kModelLoad ("failed to stat file: " ++ path)

/-- The status for a file above the limit; `src/file_utils.cpp:31`. -/
def fileTooLargeStatus (path : String) (fileSize maxBytes : UInt64) : Status :=
  Status.error .kInvalidArgument s!"file exceeds max_bytes ({fileSize} > {maxBytes}): {path}"

/-- The status for a file that ends early; `src/file_utils.cpp:42`. -/
def truncatedStatus (path : String) : Status :=
  Status.error .kModelLoad ("failed to read file: " ++ path)

/-- The status for a null buffer with a size; `src/model_proto.cpp:20`. -/
def nullBytesStatus : Status :=
  Status.error .kInvalidArgument "LoadModelProtoFromBytes: null data with size > 0"

/-- The status for a buffer that `ParseFromArray` cannot take; `src/model_proto.cpp:24`. -/
def bufferTooLargeStatus : Status :=
  Status.error .kInvalidArgument "model byte buffer too large for ParseFromArray"

/-- The status for bytes that are no model; `src/model_proto.cpp:34`. -/
def unparsedStatus : Status :=
  Status.error .kModelLoad "protobuf failed to parse bytes as onnx.ModelProto"

/-- The bytes that `ParseFromArray` looks at; of an empty array it looks at none. -/
def arrayBytes (data : Option Base.Block) (size : UInt64) : Except Base.Fault (List UInt8) :=
  if size = 0 then .ok [] else Base.load data 0 size.toNat

section Load

variable (files : String → Option HostFile) (parse : List UInt8 → Option ModelProto)
  (vectorNew hostNew : UInt64 → Bool)

/-- `ReadFileLimited`; `src/file_utils.cpp:11`. `vectorNew` says whether the `std::vector<char>`
for the file can be allocated; an empty one needs no storage. -/
def readFileLimited (path : String) (maxBytes : UInt64) : Outcome (List UInt8) :=
  if path = "" then .error (.status emptyPathStatus)
  else
    match files path with
    | none => .error (.status (unopenedStatus path))
    | some file =>
      if file.endPos < 0 then .error (.status (unmeasuredStatus path))
      else
        let fileSize := file.endPos.toUInt64
        if maxBytes < fileSize then .error (.status (fileTooLargeStatus path fileSize maxBytes))
        else if 0 < fileSize ∧ vectorNew fileSize = false then .error .badAlloc
        else if 0 < fileSize then
          match file.read fileSize.toNat with
          | none => .error (.status (truncatedStatus path))
          | some buf => .ok buf
        else .ok []

/-- `LoadModelProtoFromBytes`; `src/model_proto.cpp:15`. `parse` is `ParseFromArray` on a message
that is empty before. -/
def loadModelProtoFromBytes (data : Option Base.Block) (size : UInt64) : Outcome ModelProto :=
  if 0 < size ∧ data = none then .error (.status nullBytesStatus)
  else if intMax < size then .error (.status bufferTooLargeStatus)
  else do
    let bytes ← arrayBytes data size
    match parse bytes with
    | none => .error (.status unparsedStatus)
    | some model => .ok model

/-- `LoadModelProtoFromFile`; `src/model_proto.cpp:40`. -/
def loadModelProtoFromFile (path : String) (maxBytes : UInt64 := kDefaultMaxModelBytes) :
    Outcome ModelProto := do
  let bytes ← readFileLimited files vectorNew path maxBytes
  loadModelProtoFromBytes parse (some (Base.Block.ofBytes bytes)) (UInt64.ofNat bytes.length)

/-- `LoadGraphFromFile`; `src/ir/onnx_loader.cpp:348`. -/
def loadGraphFromFile (path : String) (maxBytes : UInt64 := kDefaultMaxModelBytes) :
    Outcome Graph := do
  let model ← loadModelProtoFromFile files parse vectorNew path maxBytes
  loadGraphFromModelProto hostNew model

end Load

/-! ### Reading -/

/-- The bytes at a path, if they can be read, their number is within the limit and there is room
for them. -/
structure ReadsBytes (files : String → Option HostFile) (vectorNew : UInt64 → Bool)
    (path : String) (maxBytes : UInt64) (bytes : List UInt8) : Prop where
  path_ne : path ≠ ""
  file : ∃ file, files path = some file ∧ 0 ≤ file.endPos ∧
    file.endPos.toUInt64.toNat = bytes.length ∧ bytes <+: file.content
  length_le : bytes.length ≤ maxBytes.toNat
  room : bytes ≠ [] → vectorNew (UInt64.ofNat bytes.length) = true

variable {files : String → Option HostFile} {parse : List UInt8 → Option ModelProto}
  {vectorNew hostNew : UInt64 → Bool}

private theorem HostFile.read_eq_some (file : HostFile) (n : Nat) (bytes : List UInt8) :
    file.read n = some bytes ↔ n = bytes.length ∧ bytes <+: file.content := by
  rw [HostFile.read]
  constructor
  · intro h
    split at h
    · next hn =>
      cases h
      exact ⟨(List.length_take_of_le hn).symm, List.take_prefix n file.content⟩
    · cases h
  · rintro ⟨rfl, hprefix⟩
    rw [if_pos hprefix.length_le, ← List.prefix_iff_eq_take.mp hprefix]

/-- Reading returns exactly the bytes of the file. -/
theorem readFileLimited_eq_ok (path : String) (maxBytes : UInt64) (bytes : List UInt8) :
    readFileLimited files vectorNew path maxBytes = .ok bytes ↔
      ReadsBytes files vectorNew path maxBytes bytes := by
  rw [readFileLimited, Base.check_eq_ok]
  constructor
  · rintro ⟨hpath, h⟩
    cases hfile : files path with
    | none =>
      rw [hfile] at h
      cases h
    | some file =>
      rw [hfile] at h
      simp only [Base.check_eq_ok] at h
      obtain ⟨hsign, hlimit, hroom, h⟩ := h
      have hsize : file.endPos.toUInt64.toNat = bytes.length ∧ bytes <+: file.content := by
        split at h
        · split at h
          · cases h
          · next buf hread =>
            cases h
            exact (file.read_eq_some _ bytes).mp hread
        · next hzero =>
          cases h
          rw [UInt64.lt_iff_toNat_lt] at hzero
          exact ⟨Nat.eq_zero_of_not_pos hzero, List.nil_prefix⟩
      refine ⟨hpath, ⟨file, hfile, Int64.not_lt.mp hsign, hsize⟩, ?_, fun hne ↦ ?_⟩
      · rw [← hsize.1]
        exact UInt64.le_iff_toNat_le.mp (UInt64.not_lt.mp hlimit)
      · rw [← Bool.not_eq_false, ← hsize.1, UInt64.ofNat_toNat]
        intro hfull
        refine hroom ⟨?_, hfull⟩
        rw [UInt64.lt_iff_toNat_lt, hsize.1]
        exact List.length_pos_of_ne_nil hne
  · rintro ⟨hpath, ⟨file, hfile, hsign, hsize, hprefix⟩, hlimit, hroom⟩
    rw [hfile]
    simp only [Base.check_eq_ok]
    refine ⟨hpath, Int64.not_lt.mpr hsign, ?_, ?_, ?_⟩
    · rw [UInt64.not_lt, UInt64.le_iff_toNat_le, hsize]
      exact hlimit
    · rintro ⟨hpos, hfull⟩
      rw [UInt64.lt_iff_toNat_lt, hsize] at hpos
      rw [← hsize, UInt64.ofNat_toNat, hfull] at hroom
      exact Bool.false_ne_true (hroom (List.ne_nil_of_length_pos hpos))
    · have hread := (file.read_eq_some _ bytes).mpr ⟨hsize, hprefix⟩
      split
      · rw [hread]
      · next hzero =>
        rw [UInt64.lt_iff_toNat_lt] at hzero
        have hnil : bytes = [] := by
          apply List.eq_nil_of_length_eq_zero
          rw [← hsize]
          exact Nat.eq_zero_of_not_pos hzero
        rw [hnil]

/-! ### Parsing and loading -/

private theorem arrayBytes_ofBytes (bytes : List UInt8) (h : bytes.length < 2 ^ 64) :
    arrayBytes (some (Base.Block.ofBytes bytes)) (UInt64.ofNat bytes.length) = .ok bytes := by
  have hn : (UInt64.ofNat bytes.length).toNat = bytes.length := UInt64.toNat_ofNat_of_lt' h
  rw [arrayBytes]
  split
  · next hzero =>
    have hnil : bytes = [] := by
      apply List.eq_nil_of_length_eq_zero
      rw [← hn, hzero]
      rfl
    rw [hnil]
  · rw [hn, Base.load_ofBytes bytes 0 bytes.length (by omega), List.drop_zero, List.take_length]

/-- On a buffer that holds its bytes only the second limit and the parser decide. -/
theorem loadModelProtoFromBytes_ofBytes (bytes : List UInt8) (h : bytes.length < 2 ^ 64) :
    loadModelProtoFromBytes parse (some (Base.Block.ofBytes bytes))
        (UInt64.ofNat bytes.length) =
      if bytes.length < 2 ^ 31 then
        match parse bytes with
        | none => .error (.status unparsedStatus)
        | some model => .ok model
      else .error (.status bufferTooLargeStatus) := by
  have hn : (UInt64.ofNat bytes.length).toNat = bytes.length := UInt64.toNat_ofNat_of_lt' h
  have hlimit : intMax < UInt64.ofNat bytes.length ↔ ¬ bytes.length < 2 ^ 31 := by
    rw [UInt64.lt_iff_toNat_lt, hn]
    show 2147483647 < bytes.length ↔ ¬ bytes.length < 2 ^ 31
    omega
  rw [loadModelProtoFromBytes, if_neg (fun hnull ↦ Option.some_ne_none _ hnull.2),
    arrayBytes_ofBytes bytes h]
  by_cases hsmall : bytes.length < 2 ^ 31
  · rw [if_neg (fun hlarge ↦ hlimit.mp hlarge hsmall), if_pos hsmall]
    rfl
  · rw [if_pos (hlimit.mpr hsmall), if_neg hsmall]

/-- What is read fits in a `size_t`. -/
theorem ReadsBytes.length_lt {path : String} {maxBytes : UInt64} {bytes : List UInt8}
    (h : ReadsBytes files vectorNew path maxBytes bytes) : bytes.length < 2 ^ 64 := by
  obtain ⟨file, -, -, hsize, -⟩ := h.file
  rw [← hsize]
  exact file.endPos.toUInt64.toNat_lt

/-- A file is loaded exactly when its bytes can be read, are within both limits and parse as a
model that is loaded. -/
theorem loadGraphFromFile_eq_ok (path : String) (maxBytes : UInt64) (g : Graph) :
    loadGraphFromFile files parse vectorNew hostNew path maxBytes = .ok g ↔
      ∃ bytes model, ReadsBytes files vectorNew path maxBytes bytes ∧ bytes.length < 2 ^ 31 ∧
        parse bytes = some model ∧ loadGraphFromModelProto hostNew model = .ok g := by
  simp only [loadGraphFromFile, loadModelProtoFromFile, Base.bind_eq_ok, readFileLimited_eq_ok]
  constructor
  · rintro ⟨model, ⟨bytes, hread, hmodel⟩, hload⟩
    rw [loadModelProtoFromBytes_ofBytes bytes hread.length_lt] at hmodel
    split at hmodel
    · next hsmall =>
      split at hmodel
      · cases hmodel
      · next parsed hparse =>
        cases hmodel
        exact ⟨bytes, _, hread, hsmall, hparse, hload⟩
    · cases hmodel
  · rintro ⟨bytes, model, hread, hsmall, hparse, hload⟩
    refine ⟨model, ⟨bytes, hread, ?_⟩, hload⟩
    rw [loadModelProtoFromBytes_ofBytes bytes hread.length_lt, if_pos hsmall, hparse]

/-- Once a file loads under some limit, any other limit gives the same graph or, if the file is
larger, the status that says so: the limit decides nothing else. -/
theorem loadGraphFromFile_limit (path : String) (maxBytes : UInt64) (g : Graph)
    (h : loadGraphFromFile files parse vectorNew hostNew path maxBytes = .ok g) :
    ∃ file, files path = some file ∧ ∀ limit,
      loadGraphFromFile files parse vectorNew hostNew path limit =
        if limit < file.endPos.toUInt64 then
          .error (.status (fileTooLargeStatus path file.endPos.toUInt64 limit))
        else .ok g := by
  obtain ⟨bytes, model, hread, hsmall, hparse, hload⟩ :=
    (loadGraphFromFile_eq_ok path maxBytes g).mp h
  obtain ⟨file, hfile, hsign, hsize, hprefix⟩ := hread.file
  refine ⟨file, hfile, fun limit ↦ ?_⟩
  split
  · next hlimit =>
    have hrefused : readFileLimited files vectorNew path limit =
        .error (.status (fileTooLargeStatus path file.endPos.toUInt64 limit)) := by
      rw [readFileLimited, if_neg hread.path_ne, hfile]
      dsimp only
      rw [if_neg (Int64.not_lt.mpr hsign), if_pos hlimit]
    rw [loadGraphFromFile, loadModelProtoFromFile, hrefused]
    rfl
  · next hlimit =>
    rw [loadGraphFromFile_eq_ok]
    refine ⟨bytes, model, ⟨hread.path_ne, ⟨file, hfile, hsign, hsize, hprefix⟩, ?_, hread.room⟩,
      hsmall, hparse, hload⟩
    rw [← hsize]
    exact UInt64.le_iff_toNat_le.mp (UInt64.not_lt.mp hlimit)

/-- A file of three bytes, and a parser that takes any bytes for one model. -/
theorem loadGraphFromFile_limit_add :
    loadGraphFromFile (fun _ ↦ some ⟨3, [1, 2, 3]⟩) (fun _ ↦ some addModel) (fun _ ↦ true)
        (fun _ ↦ true) "add.onnx" 2 =
      .error (.status (fileTooLargeStatus "add.onnx" 3 2)) := by
  have hread : ReadsBytes (fun _ ↦ some ⟨3, [1, 2, 3]⟩) (fun _ ↦ true) "add.onnx" 3 [1, 2, 3] :=
    ⟨by decide, ⟨_, rfl, by decide, by decide, List.prefix_refl _⟩, by decide, fun _ ↦ rfl⟩
  have hload : loadGraphFromFile (fun _ ↦ some ⟨3, [1, 2, 3]⟩) (fun _ ↦ some addModel)
      (fun _ ↦ true) (fun _ ↦ true) "add.onnx" 3 = .ok addGraph :=
    (loadGraphFromFile_eq_ok "add.onnx" 3 addGraph).mpr
      ⟨_, _, hread, by decide, rfl, addModel_loads⟩
  obtain ⟨file, hfile, hlimit⟩ := loadGraphFromFile_limit "add.onnx" 3 addGraph hload
  cases hfile
  rw [hlimit 2, if_pos (by decide)]
  rfl

end Eduort
