import Eduort.Onnx.Files
import Eduort.Onnx.LoaderDefects

/-!
# The defects of a file, in the order of the loader

The loader of files stops at the first thing that it does not accept: of the path and the stream,
of the bytes, of the model. It reports that, or returns the graph of the model.
-/

namespace Eduort

open Onnx

variable (files : String → Option HostFile) (parse : List UInt8 → Option ModelProto)
  (vectorNew hostNew : UInt64 → Bool)

/-- The bytes at a path, as many as the stream counts. -/
def fileBytes (path : String) : List UInt8 :=
  match files path with
  | none => []
  | some file => file.content.take file.endPos.toUInt64.toNat

/-- What `ReadFileLimited` has against a path and the stream there, in its order. -/
def fileDefects (path : String) (maxBytes : UInt64) : List Stop :=
  (if path = "" then [.status emptyPathStatus] else []) ++
  match files path with
  | none => [.status (unopenedStatus path)]
  | some file =>
    (if file.endPos < 0 then [.status (unmeasuredStatus path)] else []) ++
    ((if maxBytes < file.endPos.toUInt64 then
      [.status (fileTooLargeStatus path file.endPos.toUInt64 maxBytes)] else []) ++
    ((if 0 < file.endPos.toUInt64 ∧ vectorNew file.endPos.toUInt64 = false then [.badAlloc]
      else []) ++
    (if file.content.length < file.endPos.toUInt64.toNat then [.status (truncatedStatus path)]
      else [])))

/-- What `LoadModelProtoFromBytes` has against bytes. -/
def parseDefects (bytes : List UInt8) : List Status :=
  (if 2 ^ 31 ≤ bytes.length then [bufferTooLargeStatus] else []) ++
  match parse bytes with
  | none => [unparsedStatus]
  | some _ => []

/-- The model that bytes parse as, an empty one if they do not. -/
def parsedModel (bytes : List UInt8) : ModelProto := (parse bytes).getD {}

/-- Reading reports the first defect of the file, or returns its bytes. -/
theorem readFileLimited_reports (path : String) (maxBytes : UInt64) :
    Base.Reports (readFileLimited files vectorNew path maxBytes)
      (fileDefects files vectorNew path maxBytes) fun bytes ↦
        bytes = fileBytes files path ∧ bytes.length < 2 ^ 64 := by
  apply Base.Reports.check
  intro _
  rw [fileBytes]
  cases files path with
  | none => exact .error []
  | some file =>
    dsimp only
    apply Base.Reports.check
    intro _
    apply Base.Reports.check
    intro _
    apply Base.Reports.check
    intro _
    have hsize := file.endPos.toUInt64.toNat_lt
    generalize file.endPos.toUInt64 = size at hsize
    have hlength : (file.content.take size.toNat).length < 2 ^ 64 := by
      rw [List.length_take]
      omega
    have hpos : 0 < size ↔ 0 < size.toNat := UInt64.lt_iff_toNat_lt
    by_cases hread : file.content.length < size.toNat
    · have hshort : file.read size.toNat = none := if_neg (by omega)
      rw [if_pos hread, if_pos (hpos.mpr (by omega)), hshort]
      exact .error []
    · have hwhole : file.read size.toNat = some (file.content.take size.toNat) :=
        if_pos (by omega)
      rw [if_neg hread]
      by_cases hzero : 0 < size
      · rw [if_pos hzero, hwhole]
        exact .ok ⟨rfl, hlength⟩
      · rw [if_neg hzero]
        have hnil : file.content.take size.toNat = [] := by
          rw [Nat.eq_zero_of_not_pos (hpos.not.mp hzero), List.take_zero]
        rw [hnil]
        exact .ok ⟨rfl, by decide⟩

/-- Parsing the bytes of a buffer reports the first defect of the bytes. -/
theorem loadModelProtoFromBytes_reports (bytes : List UInt8) (h : bytes.length < 2 ^ 64) :
    Base.Reports (loadModelProtoFromBytes parse (some (Base.Block.ofBytes bytes))
      (UInt64.ofNat bytes.length)) ((parseDefects parse bytes).map Stop.status)
      (· = parsedModel parse bytes) := by
  rw [loadModelProtoFromBytes_ofBytes bytes h, parseDefects, parsedModel]
  by_cases hlarge : 2 ^ 31 ≤ bytes.length
  · rw [if_neg (by omega), if_pos hlarge]
    exact .error _
  · rw [if_pos (by omega), if_neg hlarge]
    cases parse bytes with
    | none => exact .error _
    | some model => exact .ok rfl

/-- The loader of files stops at the first defect, of the file or else of its bytes or else of the
model in them, with its text, and returns the graph of the model if there is none. -/
theorem loadGraphFromFile_report (path : String) (maxBytes : UInt64) :
    loadGraphFromFile files parse vectorNew hostNew path maxBytes =
      Base.report (fileDefects files vectorNew path maxBytes ++
        (parseDefects parse (fileBytes files path) ++
          (parsedModel parse (fileBytes files path)).defects hostNew).map Stop.status)
        (parsedModel parse (fileBytes files path)).loaded := by
  apply Base.Reports.eq_report
  rw [loadGraphFromFile, loadModelProtoFromFile, bind_assoc, List.map_append]
  apply (readFileLimited_reports files vectorNew path maxBytes).bind
  rintro bytes - ⟨rfl, hlength⟩
  apply (loadModelProtoFromBytes_reports parse _ hlength).bind
  rintro model - rfl
  exact loadGraphFromModelProto_reports hostNew _

end Eduort
