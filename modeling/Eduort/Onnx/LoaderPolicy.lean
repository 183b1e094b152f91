import Eduort.Onnx.LoaderRules
import Mathlib.Data.List.Perm.Basic

/-!
# The acceptance policy of the loader

Which models load, stated over the messages alone. The policy looks at every entry of a
repeated field and never at its position, so the verdict survives any reordering.
-/

namespace Eduort

open Onnx

variable (hostNew : UInt64 → Bool)

/-- An attribute names a supported type, or has content of a supported kind; a tensor that
is read must be decodable. -/
def Onnx.AttributeProto.Accepted (ap : AttributeProto) : Prop :=
  match ap.type with
  | .FLOAT | .INT | .INTS | .STRING => True
  | .TENSOR => ∃ tp, ap.t = some tp ∧ tp.Decodable hostNew
  | .UNDEFINED =>
    match ap.t with
    | some tp => tp.Decodable hostNew
    | none => ap.f.isSome ∨ ap.i.isSome ∨ ap.ints ≠ [] ∨ ap.s.isSome
  | _ => False

/-- A node names an operator of the default domain and has accepted attributes. -/
structure Onnx.NodeProto.Accepted (np : NodeProto) : Prop where
  opType_ne : np.opType ≠ ""
  domain_default : np.domain = "" ∨ np.domain = "ai.onnx"
  attributes_accepted : ∀ ap ∈ np.attributes, ap.Accepted hostNew

/-- Initializers are decodable under distinct names, declared shapes are static, and nodes
are accepted. -/
structure Onnx.GraphProto.Accepted (gp : GraphProto) : Prop where
  initializers_named : ∀ tp ∈ gp.initializer, tp.name ≠ ""
  initializers_distinct : (gp.initializer.map TensorProto.name).Nodup
  initializers_decodable : ∀ tp ∈ gp.initializer, tp.Decodable hostNew
  shapes_static : ∀ vi ∈ gp.input ++ gp.output ++ gp.valueInfo,
    ∀ dims, vi.explicitDims = some dims → ∀ d ∈ dims, ∃ value, d = .dimValue value ∧ 0 ≤ value
  nodes_accepted : ∀ np ∈ gp.node, np.Accepted hostNew

/-- There is an accepted graph, and the imports agree on one supported default opset. -/
structure Onnx.ModelProto.Accepted (model : ModelProto) : Prop where
  graph_accepted : ∃ gp, model.graph = some gp ∧ gp.Accepted hostNew
  opset_resolved : model.opsetImport ≠ [] ∧
    ∃ v : Int64, (∀ id ∈ model.opsetImport,
      (id.domain = "" ∨ id.domain = "ai.onnx") ∧ id.version = v) ∧ 11 ≤ v ∧ v ≤ 17

/-- The same node with its attributes in another order. -/
structure Onnx.NodeProto.Reordered (np np' : NodeProto) : Prop where
  rest_eq : np' = { np with attributes := np'.attributes }
  attributes_perm : np.attributes.Perm np'.attributes

/-- The same graph with the entries of its repeated fields in another order. -/
structure Onnx.GraphProto.Reordered (gp gp' : GraphProto) : Prop where
  name_eq : gp'.name = gp.name
  initializer_perm : gp.initializer.Perm gp'.initializer
  input_perm : gp.input.Perm gp'.input
  output_perm : gp.output.Perm gp'.output
  valueInfo_perm : gp.valueInfo.Perm gp'.valueInfo
  node_perm : ∃ nodes, gp.node.Perm nodes ∧ List.Forall₂ NodeProto.Reordered nodes gp'.node

/-- The same model with the entries of its repeated fields in another order. -/
structure Onnx.ModelProto.Reordered (model model' : ModelProto) : Prop where
  irVersion_eq : model'.irVersion = model.irVersion
  opsetImport_perm : model.opsetImport.Perm model'.opsetImport
  graph_rel : Option.Rel GraphProto.Reordered model.graph model'.graph

/-- A missing tensor reads as the empty message, which has no supported type. -/
theorem Onnx.TensorProto.not_decodable_default : ¬ ({} : TensorProto).Decodable hostNew := by
  rintro ⟨t, ht⟩
  obtain ⟨dt, shape, header, -⟩ := (tensorFromTensorProto_eq_ok hostNew _ t).mp ht
  have hcode := header.dataType_eq
  cases dt <;> exact absurd hcode (by decide)

/-- A tensor attribute can be read exactly when it has a decodable tensor. -/
theorem readAttribute_kTensor_isOk (ap : AttributeProto) :
    (∃ a, readAttribute hostNew ap .kTensor = .ok a) ↔
      ∃ tp, ap.t = some tp ∧ tp.Decodable hostNew := by
  simp only [readAttribute, mapTensorAttribute_eq_ok]
  constructor
  · rintro ⟨-, t, ht, -⟩
    cases htp : ap.t with
    | none =>
      rw [htp] at ht
      exact absurd ⟨t, ht⟩ (TensorProto.not_decodable_default hostNew)
    | some tp =>
      rw [htp] at ht
      exact ⟨tp, rfl, t, ht⟩
  · rintro ⟨tp, htp, t, ht⟩
    exact ⟨_, t, by rw [htp]; exact ht, rfl⟩

/-- An attribute is mapped exactly when the policy accepts it. -/
theorem mapAttribute_isOk_iff (ap : AttributeProto) :
    (∃ a, mapAttribute hostNew ap = .ok a) ↔ ap.Accepted hostNew := by
  have hread : (∃ a, mapAttribute hostNew ap = .ok a) ↔
      ∃ kind, ap.readKind = some kind ∧ ∃ a, readAttribute hostNew ap kind = .ok a := by
    simp only [mapAttribute_eq_ok]
    exact ⟨fun ⟨a, kind, hkind, ha⟩ ↦ ⟨kind, hkind, a, ha⟩,
      fun ⟨kind, hkind, a, ha⟩ ↦ ⟨a, kind, hkind, ha⟩⟩
  rw [hread, AttributeProto.Accepted, AttributeProto.readKind]
  cases ap.type
  case UNDEFINED =>
    cases htp : ap.t with
    | some tp => simp [readAttribute_kTensor_isOk, htp]
    | none =>
      simp only [Option.isSome_none, Bool.false_eq_true, if_false]
      split_ifs with hf hi hints hs <;> simp [readAttribute, *]
  case TENSOR => simp [readAttribute_kTensor_isOk]
  all_goals simp [readAttribute]

/-- A node is mapped exactly when the policy accepts it. -/
theorem mapNode_isOk_iff (np : NodeProto) :
    (∃ node, mapNode hostNew np = .ok node) ↔ np.Accepted hostNew := by
  have hattributes := Base.foldlM_pushM_isOk (mapAttribute hostNew) [] np.attributes
  simp only [Base.foldlM_pushM, mapAttribute_isOk_iff, List.nil_append] at hattributes
  simp only [mapNode_eq_ok]
  constructor
  · rintro ⟨-, hop, hdomain, attributes, hall, -⟩
    exact ⟨hop, hdomain, hattributes.mp ⟨_, attributes, hall, rfl⟩⟩
  · rintro ⟨hop, hdomain, hall⟩
    obtain ⟨-, attributes, hmapped, -⟩ := hattributes.mpr hall
    exact ⟨_, hop, hdomain, attributes, hmapped, rfl⟩

/-- A model loads exactly when the policy accepts it. -/
theorem loadGraphFromModelProto_isOk_iff (model : ModelProto) :
    (∃ g, loadGraphFromModelProto hostNew model = .ok g) ↔ model.Accepted hostNew := by
  simp only [loadGraphFromModelProto_eq_ok, resolveOpset_eq_ok]
  constructor
  · rintro ⟨g, gp, hgp, v, ⟨hne, hids, hrange⟩, table, hload, hstatic, nodes, hnodes, -⟩
    obtain ⟨hinit, hdistinct⟩ :=
      (foldlM_loadInitializer_isOk hostNew (emptyGraph model gp v) rfl gp.initializer).mp
        ⟨_, hload⟩
    have hnodes := (Base.foldlM_pushM_isOk (mapNode hostNew) [] gp.node).mp ⟨nodes, hnodes⟩
    exact ⟨⟨gp, hgp, fun tp htp ↦ (hinit tp htp).1, hdistinct, fun tp htp ↦ (hinit tp htp).2,
      hstatic, fun np hnp ↦ (mapNode_isOk_iff hostNew np).mp (hnodes np hnp)⟩,
      hne, v, hids, hrange⟩
  · rintro ⟨⟨gp, hgp, accepted⟩, hne, v, hids, hrange⟩
    obtain ⟨g₁, hload⟩ :=
      (foldlM_loadInitializer_isOk hostNew (emptyGraph model gp v) rfl gp.initializer).mpr
        ⟨fun tp htp ↦ ⟨accepted.initializers_named tp htp,
          accepted.initializers_decodable tp htp⟩, accepted.initializers_distinct⟩
    obtain ⟨table, -, rfl⟩ := foldlM_loadInitializer hostNew _ _ rfl _ hload
    obtain ⟨nodes, hnodes⟩ := (Base.foldlM_pushM_isOk (mapNode hostNew) [] gp.node).mpr
      fun np hnp ↦ (mapNode_isOk_iff hostNew np).mpr (accepted.nodes_accepted np hnp)
    exact ⟨_, gp, hgp, v, ⟨hne, hids, hrange⟩, table, hload, accepted.shapes_static, nodes,
      hnodes, rfl⟩

/-! ### Failures -/

private theorem mapTensorAttribute_eq_error (name : String) (tp : TensorProto) (stop : Stop)
    (h : mapTensorAttribute hostNew name tp = .error stop) : ∃ s, stop = .status s := by
  rcases Base.bind_eq_error.mp h with hdecode | ⟨t, -, hret⟩
  · exact tensorFromTensorProto_eq_error hostNew tp stop hdecode
  · cases hret

theorem mapAttribute_eq_error (ap : AttributeProto) (stop : Stop)
    (h : mapAttribute hostNew ap = .error stop) : ∃ s, stop = .status s := by
  rw [mapAttribute_eq] at h
  cases hkind : ap.readKind with
  | none =>
    rw [hkind] at h
    exact ⟨_, (Except.error.inj h).symm⟩
  | some kind =>
    rw [hkind] at h
    cases kind with
    | kTensor => exact mapTensorAttribute_eq_error hostNew _ _ stop h
    | kFloat | kInt | kInts | kString => cases h

/-! ### Reordering -/

private theorem Onnx.NodeProto.Reordered.symm {np np' : NodeProto} (h : np.Reordered np') :
    np'.Reordered np where
  rest_eq := by rw [h.rest_eq]
  attributes_perm := h.attributes_perm.symm

private theorem Onnx.GraphProto.Reordered.symm {gp gp' : GraphProto} (h : gp.Reordered gp') :
    gp'.Reordered gp where
  name_eq := h.name_eq.symm
  initializer_perm := h.initializer_perm.symm
  input_perm := h.input_perm.symm
  output_perm := h.output_perm.symm
  valueInfo_perm := h.valueInfo_perm.symm
  node_perm := by
    obtain ⟨nodes, hperm, hnodes⟩ := h.node_perm
    have hback : List.Forall₂ NodeProto.Reordered gp'.node nodes :=
      (hnodes.imp fun _ _ h ↦ h.symm).flip
    have hcomp : Relation.Comp (List.Forall₂ NodeProto.Reordered) List.Perm gp'.node gp.node :=
      ⟨nodes, hback, hperm.symm⟩
    rw [List.forall₂_comp_perm_eq_perm_comp_forall₂] at hcomp
    exact hcomp

theorem Onnx.ModelProto.Reordered.symm {model model' : ModelProto}
    (h : model.Reordered model') : model'.Reordered model where
  irVersion_eq := h.irVersion_eq.symm
  opsetImport_perm := h.opsetImport_perm.symm
  graph_rel := by
    have hgraph := h.graph_rel
    generalize model.graph = graph, model'.graph = graph' at hgraph
    cases hgraph with
    | some hgp => exact .some hgp.symm
    | none => exact .none

/-- The policy for a node does not see the order of its attributes. -/
theorem Onnx.NodeProto.Reordered.accepted {np np' : NodeProto} (h : np.Reordered np')
    (accepted : np.Accepted hostNew) : np'.Accepted hostNew where
  opType_ne := by
    rw [h.rest_eq]
    exact accepted.opType_ne
  domain_default := by
    rw [h.rest_eq]
    exact accepted.domain_default
  attributes_accepted ap hap :=
    accepted.attributes_accepted ap (h.attributes_perm.mem_iff.mpr hap)

/-- The policy for a graph does not see the order of its repeated fields. -/
theorem Onnx.GraphProto.Reordered.accepted {gp gp' : GraphProto} (h : gp.Reordered gp')
    (accepted : gp.Accepted hostNew) : gp'.Accepted hostNew where
  initializers_named tp htp :=
    accepted.initializers_named tp (h.initializer_perm.mem_iff.mpr htp)
  initializers_distinct :=
    (h.initializer_perm.map TensorProto.name).nodup_iff.mp accepted.initializers_distinct
  initializers_decodable tp htp :=
    accepted.initializers_decodable tp (h.initializer_perm.mem_iff.mpr htp)
  shapes_static vi hvi :=
    accepted.shapes_static vi
      (((h.input_perm.append h.output_perm).append h.valueInfo_perm).mem_iff.mpr hvi)
  nodes_accepted np' hnp' := by
    obtain ⟨nodes, hperm, hnodes⟩ := h.node_perm
    obtain ⟨np, hnp, hrel⟩ := Base.exists_left_of_forall₂ hnodes hnp'
    exact hrel.accepted hostNew (accepted.nodes_accepted np (hperm.mem_iff.mpr hnp))

/-- The policy for a model does not see the order of its repeated fields. -/
theorem Onnx.ModelProto.Reordered.accepted {model model' : ModelProto}
    (h : model.Reordered model') (accepted : model.Accepted hostNew) :
    model'.Accepted hostNew where
  graph_accepted := by
    obtain ⟨gp, hgp, hacc⟩ := accepted.graph_accepted
    have hgraph := h.graph_rel
    rw [hgp] at hgraph
    generalize model'.graph = graph' at hgraph
    cases hgraph with
    | some hrel => exact ⟨_, rfl, hrel.accepted hostNew hacc⟩
  opset_resolved := by
    obtain ⟨hne, v, hids, hrange⟩ := accepted.opset_resolved
    refine ⟨fun hempty ↦ hne ?_, v, fun id hid ↦ ?_, hrange⟩
    · exact (hempty ▸ h.opsetImport_perm).eq_nil
    · exact hids id (h.opsetImport_perm.mem_iff.mpr hid)

/-- The loader accepts exactly the models of its policy, and so gives one verdict for all
orders of the repeated fields. -/
theorem loadGraphFromModelProto_accepts_iff (model : ModelProto) :
    ((∃ g, loadGraphFromModelProto hostNew model = .ok g) ↔ model.Accepted hostNew) ∧
      ∀ model', model.Reordered model' →
        ((∃ g, loadGraphFromModelProto hostNew model = .ok g) ↔
          ∃ g, loadGraphFromModelProto hostNew model' = .ok g) := by
  refine ⟨loadGraphFromModelProto_isOk_iff hostNew model, fun model' hrel ↦ ?_⟩
  rw [loadGraphFromModelProto_isOk_iff, loadGraphFromModelProto_isOk_iff]
  exact ⟨hrel.accepted hostNew, hrel.symm.accepted hostNew⟩

end Eduort
