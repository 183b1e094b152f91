import Eduort.Onnx.LoaderImage
import Eduort.Onnx.LoaderPolicy

/-!
# Typed and untyped attributes

The loader reads an attribute by its type or, without one, by probing its fields. Where one
field is populated both ways read that field, so the type may be left out.
-/

namespace Eduort

open Onnx

/-- The kind under which attributes of a type are read, none for the types that are refused. -/
def Onnx.AttributeType.kind : AttributeType → Option AttributeKind
  | .FLOAT => some .kFloat
  | .INT => some .kInt
  | .STRING => some .kString
  | .TENSOR => some .kTensor
  | .INTS => some .kInts
  | _ => none

namespace Onnx.AttributeProto

variable (ap : AttributeProto)

/-- The content field that the type names is populated. -/
def Populated : AttributeType → Prop
  | .UNDEFINED => False
  | .FLOAT => ap.f.isSome
  | .INT => ap.i.isSome
  | .STRING => ap.s.isSome
  | .TENSOR => ap.t.isSome
  | .GRAPH => ap.g.isSome
  | .FLOATS => ap.floats ≠ []
  | .INTS => ap.ints ≠ []
  | .STRINGS => ap.strings ≠ []
  | .TENSORS => ap.tensors ≠ []
  | .GRAPHS => ap.graphs ≠ []
  | .SPARSE_TENSOR => ap.sparseTensor.isSome
  | .SPARSE_TENSORS => ap.sparseTensors ≠ []
  | .TYPE_PROTO => ap.tp.isSome
  | .TYPE_PROTOS => ap.typeProtos ≠ []

/-- Exactly one content field is populated, the one that the type names. -/
def OnlyPopulated (type : AttributeType) : Prop := ∀ other, ap.Populated other ↔ other = type

variable {ap} {type : AttributeType}

/-- Probing finds the kind of the one populated field. -/
theorem OnlyPopulated.readKind_untyped (h : ap.OnlyPopulated type) :
    readKind { ap with type := .UNDEFINED } = type.kind := by
  have ht : ap.t.isSome ↔ .TENSOR = type := h .TENSOR
  have hf : ap.f.isSome ↔ .FLOAT = type := h .FLOAT
  have hi : ap.i.isSome ↔ .INT = type := h .INT
  have hints : ap.ints ≠ [] ↔ .INTS = type := h .INTS
  have hs : ap.s.isSome ↔ .STRING = type := h .STRING
  simp only [readKind, ht, hf, hi, hints, hs]
  cases type <;> simp [AttributeType.kind]

/-- The type chooses its kind. -/
theorem OnlyPopulated.readKind_typed (h : ap.OnlyPopulated type) :
    readKind { ap with type := type } = type.kind := by
  cases type with
  | UNDEFINED => exact ((h .UNDEFINED).mpr rfl).elim
  | _ => rfl

end Onnx.AttributeProto

variable (hostNew : UInt64 → Bool)

/-- Reading as a given kind ignores the type. -/
theorem readAttribute_type (ap : AttributeProto) (type : AttributeType) (kind : AttributeKind) :
    readAttribute hostNew { ap with type := type } kind = readAttribute hostNew ap kind := by
  cases kind <;> rfl

/-- An attribute with one populated field is mapped alike with the type that names the field and
without a type: to the same attribute, which holds that field under the kind of the type, or to
an error of the same code. -/
theorem mapAttribute_untyped (ap : AttributeProto) (type : AttributeType)
    (h : ap.OnlyPopulated type) :
    (∃ a, mapAttribute hostNew { ap with type := .UNDEFINED } = .ok a ∧
        mapAttribute hostNew { ap with type := type } = .ok a ∧
        type.kind = some a.kind ∧ AttributeImage hostNew { ap with type := type } a) ∨
      ∃ code, FailsWith code (mapAttribute hostNew { ap with type := .UNDEFINED }) ∧
        FailsWith code (mapAttribute hostNew { ap with type := type }) := by
  have huntyped := mapAttribute_eq hostNew { ap with type := .UNDEFINED }
  have htyped := mapAttribute_eq hostNew { ap with type := type }
  rw [h.readKind_untyped] at huntyped
  rw [h.readKind_typed] at htyped
  cases hkind : type.kind with
  | none =>
    rw [hkind] at huntyped htyped
    right
    exact ⟨.kModelLoad, ⟨_, huntyped, unreadStatus_code _⟩, ⟨_, htyped, unreadStatus_code _⟩⟩
  | some kind =>
    rw [hkind] at huntyped htyped
    dsimp only at huntyped htyped
    rw [readAttribute_type] at huntyped htyped
    cases hread : readAttribute hostNew ap kind with
    | ok a =>
      left
      rw [hread] at huntyped htyped
      have himage := mapAttribute_image hostNew { ap with type := type } a htyped
      have hkinds := himage.kind_eq
      rw [h.readKind_typed, hkind] at hkinds
      exact ⟨a, huntyped, htyped, hkinds, himage⟩
    | error stop =>
      right
      rw [hread] at huntyped htyped
      obtain ⟨s, rfl⟩ := mapAttribute_eq_error hostNew _ stop htyped
      exact ⟨s.code, ⟨s, huntyped, rfl⟩, ⟨s, htyped, rfl⟩⟩

/-- An attribute that holds a scalar tensor and nothing else. -/
def scalarAttribute : AttributeProto where
  name := "value"
  t := some { dataType := 1, rawData := [0, 0, 128, 63] }

/-- It is read as the tensor, with or without its type. -/
theorem mapAttribute_untyped_scalar :
    ∃ a, mapAttribute (fun _ ↦ true) { scalarAttribute with type := .UNDEFINED } = .ok a ∧
      mapAttribute (fun _ ↦ true) { scalarAttribute with type := .TENSOR } = .ok a ∧
      a.kind = .kTensor := by
  have honly : scalarAttribute.OnlyPopulated .TENSOR := by
    intro other
    cases other <;> simp [AttributeProto.Populated, scalarAttribute]
  rcases mapAttribute_untyped (fun _ ↦ true) scalarAttribute .TENSOR honly with
    ⟨a, huntyped, htyped, hkind, -⟩ | ⟨code, -, s, hfails, -⟩
  · exact ⟨a, huntyped, htyped, (Option.some.inj hkind).symm⟩
  · have hok : ∃ a, mapAttribute (fun _ ↦ true) { scalarAttribute with type := .TENSOR } = .ok a :=
      ⟨_, rfl⟩
    obtain ⟨a, hok⟩ := hok
    rw [hok] at hfails
    cases hfails

end Eduort
