import Eduort.Onnx.LoaderImage

/-!
# Element counts of loaded shapes

A shape reaches a loaded graph through the shape table, an initializer or a tensor
attribute. The last two passed `Tensor::Create`; the table is filled by
`ShapeFromValueInfo`, which checks signs only.
-/

namespace Eduort

open Onnx

/-- The shapes that a graph carries. -/
inductive Graph.HasShape (g : Graph) : TensorShape → Prop
  | value (name : String) (sh : TensorShape) (h : g.valueShapes.lookup name = some sh) :
      g.HasShape sh
  | initializer (name : String) (t : Tensor) (h : g.initializers.lookup name = some t) :
      g.HasShape t.shape
  | nodeAttribute (node : Node) (hnode : node ∈ g.nodes) (a : Attribute)
      (ha : a ∈ node.attributes) (t : Tensor) (h : a.tensor = some t) : g.HasShape t.shape

/-- The element count fits, the checked count succeeds, and `NumElements` returns. -/
structure TensorShape.Countable (s : TensorShape) : Prop where
  count_lt : s.count < 2 ^ 64
  checked : ∃ n, s.numElementsChecked = .ok n
  returns : ∃ n, s.numElements = .ok n

/-- A shape can be counted exactly when its dims in front of the first zero fit. -/
theorem TensorShape.countable_iff (s : TensorShape) :
    s.Countable ↔ s.leadingCount < 2 ^ 64 := by
  constructor
  · intro h
    exact s.numElementsChecked_isOk.mp h.checked
  · intro h
    obtain ⟨n, hn⟩ := s.numElementsChecked_isOk.mpr h
    exact ⟨s.count_lt_of_leadingCount_lt h, ⟨n, hn⟩, n, (s.numElements_eq_ok n).mpr hn⟩

variable (hostNew : UInt64 → Bool)

/-- A decoded tensor passed the checked arithmetic. -/
theorem tensorFromTensorProto_countable (tp : TensorProto) (t : Tensor)
    (h : tensorFromTensorProto hostNew tp = .ok t) : t.shape.Countable := by
  obtain ⟨dt, shape, header, -, hcase⟩ := (tensorFromTensorProto_eq_ok hostNew tp t).mp h
  rw [TensorShape.countable_iff]
  rcases hcase with ⟨-, rfl⟩ | ⟨-, -, rfl⟩
  · exact header.leadingCount_lt
  · exact header.leadingCount_lt

/-- The tensor of a loaded attribute was decoded from some message. -/
theorem AttributeImage.tensor_decoded {ap : AttributeProto} {a : Attribute} {t : Tensor}
    (h : AttributeImage hostNew ap a) (ht : a.tensor = some t) :
    tensorFromTensorProto hostNew (ap.t.getD {}) = .ok t := by
  have hkind : a.kind = .kTensor := by
    by_contra hne
    rw [h.tensor_none hne] at ht
    cases ht
  have hcontent := h.content
  rw [hkind] at hcontent
  obtain ⟨t', ht', heq⟩ := hcontent
  rw [ht] at heq
  cases heq
  exact ht'

/-- Only the shape table can hold a shape that cannot be counted. -/
theorem GraphImage.countable_iff {gp : GraphProto} {g : Graph} (h : GraphImage hostNew gp g) :
    (∀ s, g.HasShape s → s.Countable) ↔
      ∀ name s, g.valueShapes.lookup name = some s → s.Countable := by
  constructor
  · intro hall name s hs
    exact hall s (.value name s hs)
  · intro hvalues s hs
    cases hs with
    | value name s hs => exact hvalues name s hs
    | initializer name t ht =>
      have hmem : name ∈ g.initializers := by
        rw [← AList.lookup_isSome, ht]
        rfl
      obtain ⟨tp, htp, rfl⟩ := (h.initializers.keys name).mp hmem
      obtain ⟨t', hdecode, hlookup⟩ := h.initializers.decoded tp htp
      rw [ht] at hlookup
      cases hlookup
      exact tensorFromTensorProto_countable hostNew tp t hdecode
    | nodeAttribute node hnode a ha t ht =>
      obtain ⟨np, -, himage⟩ := Base.exists_left_of_forall₂ h.nodes hnode
      obtain ⟨ap, -, hattribute⟩ := Base.exists_left_of_forall₂ himage.attributes ha
      exact tensorFromTensorProto_countable hostNew _ t (hattribute.tensor_decoded hostNew ht)

/-- The last shape declared under each name has dims in front of its first zero that fit. -/
def DeclaredShapesFit (model : ModelProto) : Prop :=
  ∀ gp, model.graph = some gp → ∀ name s,
    LastDeclared (gp.input ++ gp.output ++ gp.valueInfo) name s → s.leadingCount < 2 ^ 64

/-- No shape of a loaded graph makes `NumElements` abort exactly when the declared shapes of
the model fit; the loader itself does not check that. -/
theorem loadGraphFromModelProto_countable_iff (model : ModelProto) (g : Graph)
    (h : loadGraphFromModelProto hostNew model = .ok g) :
    (∀ s, g.HasShape s → s.Countable) ↔ DeclaredShapesFit model := by
  obtain ⟨gp, hgp, himage⟩ := loaded_graphImage hostNew model g h
  rw [himage.countable_iff hostNew]
  simp only [himage.valueShapes, TensorShape.countable_iff, DeclaredShapesFit, hgp,
    Option.some.injEq, forall_eq']

/-- The declared shape of `addModel` fits, so all shapes of its graph can be counted. -/
theorem loadGraphFromModelProto_countable_add :
    DeclaredShapesFit addModel ∧ ∀ s, addGraph.HasShape s → s.Countable := by
  have hfit : DeclaredShapesFit addModel := by
    rintro gp hgp name s hs
    cases hgp
    rw [← lookup_valueShapes] at hs
    change (AList.insert "X" ⟨[2]⟩ (∅ : NameMap TensorShape)).lookup name = some s at hs
    by_cases hname : name = "X"
    · rw [hname, AList.lookup_insert] at hs
      cases hs
      decide
    · rw [AList.lookup_insert_ne hname] at hs
      cases hs
  exact ⟨hfit,
    (loadGraphFromModelProto_countable_iff _ addModel addGraph addModel_loads).mpr hfit⟩

/-- An input whose declared dims multiply to `2 ^ 64`. -/
def overflowModel : ModelProto where
  opsetImport := [{ version := 13 }]
  graph := some {
    input := [{ name := "X"
                type := some ⟨some ⟨some ⟨[.dimValue 4611686018427387904, .dimValue 4]⟩⟩⟩ }] }

/-- The model loads although `NumElements` aborts on the shape of its input. -/
theorem loadGraphFromModelProto_overflow :
    ∃ g, loadGraphFromModelProto (fun _ ↦ true) overflowModel = .ok g ∧
      ∃ s, g.HasShape s ∧ ¬ s.Countable ∧ ∃ message, s.numElements = .error (.abort message) := by
  refine ⟨{ graphInputs := ["X"], opsetVersion := 13
            valueShapes := AList.insert "X" ⟨[4611686018427387904, 4]⟩ ∅ }, by decide,
    ⟨[4611686018427387904, 4]⟩, .value "X" _ (by decide), ?_, _, rfl⟩
  rw [TensorShape.countable_iff]
  decide

end Eduort
