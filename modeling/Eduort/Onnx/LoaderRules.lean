import Eduort.Base.Fold
import Eduort.Onnx.Loader

/-!
# What each loader function accepts and returns

One rule for each function of the loader: when it returns a value, and which one. The
conditions speak about the messages only, so that later results never unfold a loop.
-/

namespace Eduort

open Onnx

/-! ### Value shapes -/

/-- The dimension carries a number and it is not negative. -/
def Onnx.Dimension.Static (d : Dimension) : Prop := ∃ value, d = .dimValue value ∧ 0 ≤ value

/-- The entry of a shape that a dimension stands for. -/
def Onnx.Dimension.size : Dimension → UInt64
  | .dimValue value => value.toUInt64
  | _ => 0

/-- Every dimension of the explicit shape, if there is one, is a non-negative number. -/
def Onnx.ValueInfoProto.Static (vi : ValueInfoProto) : Prop :=
  ∀ dims, vi.explicitDims = some dims → ∀ d ∈ dims, d.Static

/-- The shape that a value declares. -/
def Onnx.ValueInfoProto.explicitShape (vi : ValueInfoProto) : Option TensorShape :=
  vi.explicitDims.map fun dims ↦ ⟨dims.map Dimension.size⟩

private theorem pushDimension_eq_ok (vi : ValueInfoProto) (values values' : List Int64)
    (d : Dimension) : pushDimension vi values d = .ok values' ↔
      ∃ value, d = .dimValue value ∧ values' = values ++ [value] := by
  cases d with
  | unset => simp [pushDimension]
  | dimValue value => simp [pushDimension, eq_comm]
  | dimParam param =>
    simp only [pushDimension]
    split <;> simp

/-- The dimension loop collects the numbers, and every dimension must have one. -/
theorem foldlM_pushDimension (vi : ValueInfoProto) (dims : List Dimension)
    (values : List Int64) :
    dims.foldlM (pushDimension vi) [] = .ok values ↔ dims = values.map .dimValue := by
  apply Base.foldlM_eq_ok_iff
    fun (dims : List Dimension) (values : List Int64) ↦ dims = values.map Dimension.dimValue
  · intro values
    rw [eq_comm, List.map_eq_nil_iff, eq_comm]
  · intro dims d values'
    simp only [pushDimension_eq_ok]
    constructor
    · intro h
      obtain ⟨values, last, rfl, hdims, hlast⟩ := List.map_eq_append_iff.mp h.symm
      obtain ⟨value, rfl, hvalue⟩ := List.map_eq_singleton_iff.mp hlast
      exact ⟨values, hdims.symm, value, hvalue.symm, rfl⟩
    · rintro ⟨values, rfl, value, rfl, rfl⟩
      rw [List.map_append, List.map_singleton]

/-- A shape is read exactly when all its dimensions are non-negative numbers. -/
theorem shapeFromValueInfo_eq_ok (vi : ValueInfoProto) (sh : TensorShape) :
    shapeFromValueInfo vi = .ok sh ↔ vi.Static ∧ sh = vi.explicitShape.getD ⟨[]⟩ := by
  unfold shapeFromValueInfo ValueInfoProto.Static ValueInfoProto.explicitShape
  cases vi.explicitDims with
  | none => simp [eq_comm]
  | some dims =>
    simp only [Base.bind_eq_ok, foldlM_pushDimension, TensorShape.fromSignedDims_eq_ok,
      Option.some.injEq, Option.map_some, Option.getD_some, forall_eq']
    constructor
    · rintro ⟨values, rfl, hnonneg, rfl⟩
      refine ⟨?_, by simp [Function.comp_def, Dimension.size]⟩
      rintro d hd
      obtain ⟨value, hvalue, rfl⟩ := List.mem_map.mp hd
      exact ⟨value, rfl, hnonneg value hvalue⟩
    · rintro ⟨hstatic, rfl⟩
      obtain ⟨values, rfl⟩ : ∃ values : List Int64, dims = values.map .dimValue := by
        clear vi
        induction dims with
        | nil => exact ⟨[], rfl⟩
        | cons d dims ih =>
          obtain ⟨hd, hdims⟩ := List.forall_mem_cons.mp hstatic
          obtain ⟨value, rfl, -⟩ := hd
          obtain ⟨values, rfl⟩ := ih hdims
          exact ⟨value :: values, rfl⟩
      refine ⟨values, rfl, fun value hvalue ↦ ?_, by simp [Function.comp_def, Dimension.size]⟩
      obtain ⟨value', heq, hnonneg⟩ := hstatic _ (List.mem_map_of_mem hvalue)
      cases heq
      exact hnonneg

/-- Record the declared shape of a value; one without a shape leaves the table as it is. -/
def recordIn (shapes : NameMap TensorShape) (vi : ValueInfoProto) : NameMap TensorShape :=
  match vi.explicitShape with
  | some sh => shapes.insert vi.name sh
  | none => shapes

private theorem recordShape_eq_ok (g g' : Graph) (vi : ValueInfoProto) :
    recordShape g vi = .ok g' ↔
      vi.Static ∧ g' = { g with valueShapes := recordIn g.valueShapes vi } := by
  simp only [recordShape, Base.bind_eq_ok, shapeFromValueInfo_eq_ok, recordIn]
  cases hdims : vi.explicitDims with
  | none =>
    simp only [ValueInfoProto.explicitShape, hdims, Option.map_none, Option.isSome_none]
    constructor
    · rintro ⟨_, ⟨hstatic, -⟩, hret⟩
      exact ⟨hstatic, Base.ok_eq_ok.mp hret⟩
    · rintro ⟨hstatic, rfl⟩
      exact ⟨_, ⟨hstatic, rfl⟩, rfl⟩
  | some dims =>
    simp only [ValueInfoProto.explicitShape, hdims, Option.map_some, Option.isSome_some,
      Option.getD_some, if_true]
    constructor
    · rintro ⟨_, ⟨hstatic, rfl⟩, hret⟩
      exact ⟨hstatic, Base.ok_eq_ok.mp hret⟩
    · rintro ⟨hstatic, rfl⟩
      exact ⟨_, ⟨hstatic, rfl⟩, rfl⟩

/-- A loop over values that changes the graph outside its shape table and records the declared
shapes does both independently. -/
theorem foldlM_recordShape (add : Graph → ValueInfoProto → Graph)
    (hframe : ∀ g vi shapes,
      add { g with valueShapes := shapes } vi = { add g vi with valueShapes := shapes })
    (vis : List ValueInfoProto) (g g' : Graph) :
    vis.foldlM (fun g vi ↦ recordShape (add g vi) vi) g = .ok g' ↔
      (∀ vi ∈ vis, vi.Static) ∧
        g' = { vis.foldl add g with valueShapes := vis.foldl recordIn g.valueShapes } := by
  have hfold : vis.foldl
      (fun g vi ↦ { add g vi with valueShapes := recordIn (add g vi).valueShapes vi }) g =
      { vis.foldl add g with valueShapes := vis.foldl recordIn g.valueShapes } := by
    induction vis using List.reverseRecOn with
    | nil => rfl
    | append_singleton vis vi ih =>
      rw [List.foldl_append, List.foldl_append, List.foldl_append, ih, List.foldl_cons,
        List.foldl_cons, List.foldl_cons, List.foldl_nil, List.foldl_nil, List.foldl_nil, hframe]
  rw [← hfold]
  exact Base.foldlM_guarded _ _ (fun g vi g' ↦ recordShape_eq_ok (add g vi) g' vi) g g' vis

/-- The input loop lists the names in order and records the declared shapes. -/
theorem foldlM_loadInput (vis : List ValueInfoProto) (g g' : Graph) :
    vis.foldlM loadInput g = .ok g' ↔
      (∀ vi ∈ vis, vi.Static) ∧
        g' = { g with
          graphInputs := g.graphInputs ++ vis.map ValueInfoProto.name
          valueShapes := vis.foldl recordIn g.valueShapes } := by
  have hnames : vis.foldl (fun g vi ↦ { g with graphInputs := g.graphInputs ++ [vi.name] }) g =
      { g with graphInputs := g.graphInputs ++ vis.map ValueInfoProto.name } := by
    induction vis generalizing g with
    | nil => simp
    | cons vi vis ih => simp [ih]
  have hloop := foldlM_recordShape
    (fun g vi ↦ { g with graphInputs := g.graphInputs ++ [vi.name] }) (fun _ _ _ ↦ rfl) vis g g'
  rwa [hnames] at hloop

/-- The output loop lists the names in order and records the declared shapes. -/
theorem foldlM_loadOutput (vis : List ValueInfoProto) (g g' : Graph) :
    vis.foldlM loadOutput g = .ok g' ↔
      (∀ vi ∈ vis, vi.Static) ∧
        g' = { g with
          graphOutputs := g.graphOutputs ++ vis.map ValueInfoProto.name
          valueShapes := vis.foldl recordIn g.valueShapes } := by
  have hnames : vis.foldl (fun g vi ↦ { g with graphOutputs := g.graphOutputs ++ [vi.name] }) g =
      { g with graphOutputs := g.graphOutputs ++ vis.map ValueInfoProto.name } := by
    induction vis generalizing g with
    | nil => simp
    | cons vi vis ih => simp [ih]
  have hloop := foldlM_recordShape
    (fun g vi ↦ { g with graphOutputs := g.graphOutputs ++ [vi.name] }) (fun _ _ _ ↦ rfl) vis g g'
  rwa [hnames] at hloop

/-- The loop over inner values only records the declared shapes. -/
theorem foldlM_loadValueInfo (vis : List ValueInfoProto) (g g' : Graph) :
    vis.foldlM loadValueInfo g = .ok g' ↔
      (∀ vi ∈ vis, vi.Static) ∧
        g' = { g with valueShapes := vis.foldl recordIn g.valueShapes } := by
  have hnames : vis.foldl (fun g (_ : ValueInfoProto) ↦ g) g = g := by
    induction vis with
    | nil => rfl
    | cons vi vis ih => exact ih
  have hloop := foldlM_recordShape (fun g _ ↦ g) (fun _ _ _ ↦ rfl) vis g g'
  rwa [hnames] at hloop

/-- The shape of the last entry that declares one under the name. -/
def lastShape (name : String) (vis : List ValueInfoProto) : Option TensorShape :=
  vis.reverse.findSome? fun vi ↦ if vi.name = name then vi.explicitShape else none

/-- Later declarations overwrite earlier ones. -/
theorem lookup_foldl_recordIn (vis : List ValueInfoProto) (name : String) :
    (vis.foldl recordIn ∅).lookup name = lastShape name vis := by
  induction vis using List.reverseRecOn with
  | nil => simp [lastShape]
  | append_singleton vis vi ih =>
    rw [List.foldl_append, List.foldl_cons, List.foldl_nil, recordIn, lastShape,
      List.reverse_append, List.reverse_singleton, List.singleton_append, List.findSome?_cons,
      ← lastShape]
    by_cases hname : vi.name = name
    · subst hname
      rw [if_pos rfl]
      cases vi.explicitShape with
      | none => exact ih
      | some sh => exact AList.lookup_insert _
    · rw [if_neg hname]
      cases vi.explicitShape with
      | none => exact ih
      | some sh => rw [AList.lookup_insert_ne (Ne.symm hname), ih]

/-! ### Operator sets -/

/-- What the scan knows about the entries it has passed. -/
inductive OpsetsSeen (ids : List OperatorSetIdProto) (st : OpsetScan) : Prop where
  | nothing (empty : ids = []) (initial : st = {})
  | agreed (nonempty : ids ≠ []) (sawDefault : st.sawDefault = true)
      (all : ∀ id ∈ ids, (id.domain = "" ∨ id.domain = "ai.onnx") ∧ id.version = st.found)

private theorem scanOpset_eq_ok (st st' : OpsetScan) (id : OperatorSetIdProto) :
    scanOpset st id = .ok st' ↔
      (id.domain = "" ∨ id.domain = "ai.onnx") ∧ (st.sawDefault → st.found = id.version) ∧
        st' = { found := id.version, sawDefault := true } := by
  rw [← canonicalizeDomain_eq_empty, scanOpset, Base.check_eq_ok, Base.check_eq_ok,
    Base.ok_eq_ok, not_not, not_and_not_right]

/-- The scan passes exactly over default-domain entries that agree on the version. -/
theorem foldlM_scanOpset (ids : List OperatorSetIdProto) (st : OpsetScan) :
    ids.foldlM scanOpset {} = .ok st ↔ OpsetsSeen ids st := by
  apply Base.foldlM_eq_ok_iff OpsetsSeen
  · intro st
    exact ⟨fun | .nothing _ h => h.symm | .agreed h _ _ => absurd rfl h,
      fun h ↦ .nothing rfl h.symm⟩
  · intro ids id st'
    simp only [scanOpset_eq_ok]
    constructor
    · rintro (⟨hempty, -⟩ | ⟨-, hsaw, hall⟩)
      · simp at hempty
      obtain ⟨hids, hid⟩ := List.forall_mem_append.mp hall
      obtain ⟨hdomain, hversion⟩ := hid id (List.mem_singleton.mpr rfl)
      have hst : st' = { found := id.version, sawDefault := true } := by
        rw [hversion, ← hsaw]
      by_cases hempty : ids = []
      · exact ⟨{}, .nothing hempty rfl, hdomain, nofun, hst⟩
      · exact ⟨st', .agreed hempty hsaw hids, hdomain, fun _ ↦ hversion.symm, hst⟩
    · rintro ⟨st, hseen, hdomain, hagree, rfl⟩
      refine .agreed (by simp) rfl (List.forall_mem_append.mpr ⟨?_, by simp [hdomain]⟩)
      cases hseen with
      | nothing hempty _ => simp [hempty]
      | agreed _ hsaw hall =>
        rw [← hagree hsaw]
        exact hall

/-- The imports resolve exactly when all entries name the default domain and one version
that is in the supported range. -/
theorem resolveOpset_eq_ok (model : ModelProto) (v : Int64) :
    resolveOpset model = .ok v ↔
      model.opsetImport ≠ [] ∧
        (∀ id ∈ model.opsetImport,
          (id.domain = "" ∨ id.domain = "ai.onnx") ∧ id.version = v) ∧
        kMinOpset ≤ v ∧ v ≤ kMaxOpset := by
  simp only [resolveOpset, Base.bind_eq_ok, foldlM_scanOpset]
  constructor
  · rintro ⟨st, hseen, hret⟩
    rw [Base.check_eq_ok, not_not, Base.check_eq_ok, not_or, Int64.not_lt, Int64.not_lt,
      Base.ok_eq_ok] at hret
    obtain ⟨hsaw, hrange, rfl⟩ := hret
    cases hseen with
    | nothing _ hinitial =>
      rw [hinitial] at hsaw
      cases hsaw
    | agreed hne _ hall => exact ⟨hne, hall, hrange⟩
  · rintro ⟨hne, hall, hrange⟩
    refine ⟨{ found := v, sawDefault := true }, .agreed hne rfl hall, ?_⟩
    rw [Base.check_eq_ok, not_not, Base.check_eq_ok, not_or, Int64.not_lt, Int64.not_lt]
    exact ⟨rfl, hrange, rfl⟩

/-! ### Nodes -/

/-- The kind under which an attribute is read: its type or, without one, the first of `t`,
`f`, `i`, `ints` and `s` that is populated. -/
def Onnx.AttributeProto.readKind (ap : AttributeProto) : Option AttributeKind :=
  match ap.type with
  | .FLOAT => some .kFloat
  | .INT => some .kInt
  | .INTS => some .kInts
  | .STRING => some .kString
  | .TENSOR => some .kTensor
  | .UNDEFINED =>
    if ap.t.isSome then some .kTensor
    else if ap.f.isSome then some .kFloat
    else if ap.i.isSome then some .kInt
    else if ap.ints ≠ [] then some .kInts
    else if ap.s.isSome then some .kString
    else none
  | _ => none

variable (hostNew : UInt64 → Bool)

/-- Read the content of an attribute as the given kind. -/
def readAttribute (ap : AttributeProto) : AttributeKind → Outcome Attribute
  | .kFloat => .ok { name := ap.name, kind := .kFloat, f := ap.f.getD 0 }
  | .kInt => .ok { name := ap.name, kind := .kInt, i := ap.i.getD 0 }
  | .kInts => .ok { name := ap.name, kind := .kInts, ints := ap.ints }
  | .kString => .ok { name := ap.name, kind := .kString, s := ap.s.getD [] }
  | .kTensor => mapTensorAttribute hostNew ap.name (ap.t.getD {})

theorem unreadStatus_code (ap : AttributeProto) : (unreadStatus ap).code = .kModelLoad := by
  unfold unreadStatus
  split <;> rfl

/-- Both dispatches of `MapAttribute` choose a kind and then read that kind. -/
theorem mapAttribute_eq (ap : AttributeProto) :
    mapAttribute hostNew ap =
      match ap.readKind with
      | some kind => readAttribute hostNew ap kind
      | none => .error (.status (unreadStatus ap)) := by
  unfold mapAttribute AttributeProto.readKind unreadStatus
  cases ap.type
  case UNDEFINED =>
    dsimp only
    split_ifs <;> rfl
  all_goals rfl

theorem mapAttribute_eq_ok (ap : AttributeProto) (a : Attribute) :
    mapAttribute hostNew ap = .ok a ↔
      ∃ kind, ap.readKind = some kind ∧ readAttribute hostNew ap kind = .ok a := by
  rw [mapAttribute_eq]
  cases ap.readKind <;> simp

theorem mapTensorAttribute_eq_ok (name : String) (tp : TensorProto) (a : Attribute) :
    mapTensorAttribute hostNew name tp = .ok a ↔
      ∃ t, tensorFromTensorProto hostNew tp = .ok t ∧
        a = { name, kind := .kTensor, tensor := some t } := by
  rw [mapTensorAttribute, Base.bind_eq_ok]
  exact exists_congr fun t ↦ and_congr_right fun _ ↦ Base.ok_eq_ok

/-- A node is mapped exactly when it names an operator of the default domain and all its
attributes are; the lists keep their order. -/
theorem mapNode_eq_ok (np : NodeProto) (node : Node) :
    mapNode hostNew np = .ok node ↔
      np.opType ≠ "" ∧ (np.domain = "" ∨ np.domain = "ai.onnx") ∧
        ∃ attributes,
          List.Forall₂ (fun ap a ↦ mapAttribute hostNew ap = .ok a) np.attributes attributes ∧
          node = { name := np.name, opType := np.opType, domain := "", inputs := np.input,
                   outputs := np.output, attributes } := by
  rw [← canonicalizeDomain_eq_empty, mapNode, Base.check_eq_ok, Base.check_eq_ok, not_not,
    Base.bind_eq_ok]
  simp only [Base.foldlM_pushM, List.nil_append]
  constructor
  · rintro ⟨hop, hdomain, attributes, ⟨_, hattributes, rfl⟩, hret⟩
    rw [hdomain] at hret
    exact ⟨hop, hdomain, attributes, hattributes, Base.ok_eq_ok.mp hret⟩
  · rintro ⟨hop, hdomain, attributes, hattributes, rfl⟩
    refine ⟨hop, hdomain, _, ⟨attributes, hattributes, rfl⟩, ?_⟩
    rw [hdomain]
    rfl

/-! ### Initializers -/

/-- The decoder returns a tensor. -/
def Onnx.TensorProto.Decodable (tp : TensorProto) : Prop :=
  ∃ t, tensorFromTensorProto hostNew tp = .ok t

/-- The table maps exactly the names of the protos, each to the decode of its proto. -/
structure InitializersOf (tps : List TensorProto) (table : NameMap Tensor) : Prop where
  keys : ∀ name, name ∈ table ↔ ∃ tp ∈ tps, tp.name = name
  decoded : ∀ tp ∈ tps,
    ∃ t, tensorFromTensorProto hostNew tp = .ok t ∧ table.lookup tp.name = some t

theorem loadInitializer_eq_ok (g g' : Graph) (tp : TensorProto) :
    loadInitializer hostNew g tp = .ok g' ↔
      tp.name ≠ "" ∧ tp.name ∉ g.initializers ∧
        ∃ t, tensorFromTensorProto hostNew tp = .ok t ∧
          g' = { g with initializers := g.initializers.insert tp.name t } := by
  rw [loadInitializer, Base.check_eq_ok, Base.bind_eq_ok]
  simp only [Base.check_eq_ok]
  constructor
  · rintro ⟨hname, t, ht, hfresh, hret⟩
    exact ⟨hname, hfresh, t, ht, Base.ok_eq_ok.mp hret⟩
  · rintro ⟨hname, hfresh, t, ht, rfl⟩
    exact ⟨hname, t, ht, hfresh, rfl⟩

/-- Inserting the decode of one more proto with a fresh name. -/
theorem InitializersOf.insert {tps : List TensorProto} {table : NameMap Tensor}
    {tp : TensorProto} {t : Tensor} (h : InitializersOf hostNew tps table)
    (hfresh : tp.name ∉ table) (ht : tensorFromTensorProto hostNew tp = .ok t) :
    InitializersOf hostNew (tps ++ [tp]) (table.insert tp.name t) where
  keys name := by
    simp only [AList.mem_insert, h.keys, List.mem_append, List.mem_singleton, or_and_right,
      exists_or, exists_eq_left, or_comm, eq_comm (a := name)]
  decoded tp' htp' := by
    rcases List.mem_append.mp htp' with hold | hnew
    · obtain ⟨t', ht', hlookup⟩ := h.decoded tp' hold
      have hne : tp'.name ≠ tp.name := fun he ↦ hfresh ((h.keys _).mpr ⟨tp', hold, he⟩)
      exact ⟨t', ht', by rw [AList.lookup_insert_ne hne, hlookup]⟩
    · rw [List.mem_singleton.mp hnew]
      exact ⟨t, ht, AList.lookup_insert _⟩

/-- What the initializer loop knows about the protos it has passed. -/
def InitializersLoaded (g₀ : Graph) (tps : List TensorProto) (g : Graph) : Prop :=
  ∃ table, InitializersOf hostNew tps table ∧ g = { g₀ with initializers := table }

private theorem initializersLoaded_nil (g₀ : Graph) (hempty : g₀.initializers = ∅) :
    InitializersLoaded hostNew g₀ [] g₀ :=
  ⟨∅, ⟨by simp, by simp⟩, by rw [← hempty]⟩

private theorem initializersLoaded_step (g₀ : Graph) (tps : List TensorProto) (tp : TensorProto)
    (g g' : Graph) (h : InitializersLoaded hostNew g₀ tps g)
    (hstep : loadInitializer hostNew g tp = .ok g') :
    InitializersLoaded hostNew g₀ (tps ++ [tp]) g' := by
  obtain ⟨table, htable, rfl⟩ := h
  obtain ⟨-, hfresh, t, ht, rfl⟩ := (loadInitializer_eq_ok hostNew _ g' tp).mp hstep
  exact ⟨_, htable.insert hostNew hfresh ht, rfl⟩

/-- The initializer loop leaves the table of all its protos and nothing else changed. -/
theorem foldlM_loadInitializer (g₀ g : Graph) (hempty : g₀.initializers = ∅)
    (tps : List TensorProto) (run : tps.foldlM (loadInitializer hostNew) g₀ = .ok g) :
    InitializersLoaded hostNew g₀ tps g :=
  Base.foldlM_invariant (InitializersLoaded hostNew g₀) (initializersLoaded_nil hostNew g₀ hempty)
    (initializersLoaded_step hostNew g₀) tps run

/-- The initializer loop accepts exactly decodable protos with distinct non-empty names. -/
theorem foldlM_loadInitializer_isOk (g₀ : Graph) (hempty : g₀.initializers = ∅)
    (tps : List TensorProto) :
    (∃ g, tps.foldlM (loadInitializer hostNew) g₀ = .ok g) ↔
      (∀ tp ∈ tps, tp.name ≠ "" ∧ tp.Decodable hostNew) ∧ (tps.map TensorProto.name).Nodup := by
  have hnodup : (tps.map TensorProto.name).Nodup ↔ tps.Pairwise fun tp tp' ↦ tp.name ≠ tp'.name :=
    List.pairwise_map
  rw [hnodup]
  apply Base.foldlM_isOk_iff_pairwise (InitializersLoaded hostNew g₀)
  · exact initializersLoaded_nil hostNew g₀ hempty
  · exact initializersLoaded_step hostNew g₀
  · rintro front tp g ⟨table, htable, rfl⟩
    simp only [loadInitializer_eq_ok, htable.keys]
    constructor
    · rintro ⟨g', hname, hfresh, t, ht, -⟩
      exact ⟨⟨hname, t, ht⟩, fun tp' htp' he ↦ hfresh ⟨tp', htp', he⟩⟩
    · rintro ⟨⟨hname, t, ht⟩, hdistinct⟩
      exact ⟨_, hname, fun ⟨tp', htp', he⟩ ↦ hdistinct tp' htp' he, t, ht, rfl⟩

/-! ### Whole models -/

/-- The graph before the initializer loop. -/
def emptyGraph (model : ModelProto) (gp : GraphProto) (opsetVersion : Int64) : Graph :=
  { name := gp.name, irVersion := model.irVersion, opsetVersion }

/-- The parts of a run that can fail, and the graph of one in which none does. -/
theorem loadGraphFromModelProto_eq_ok (model : ModelProto) (g : Graph) :
    loadGraphFromModelProto hostNew model = .ok g ↔
      ∃ gp, model.graph = some gp ∧ ∃ v, resolveOpset model = .ok v ∧
        ∃ table, gp.initializer.foldlM (loadInitializer hostNew) (emptyGraph model gp v) =
            .ok { emptyGraph model gp v with initializers := table } ∧
        (∀ vi ∈ gp.input ++ gp.output ++ gp.valueInfo, vi.Static) ∧
        ∃ nodes, gp.node.foldlM (Base.pushM (mapNode hostNew)) [] = .ok nodes ∧
          g = { emptyGraph model gp v with
            nodes
            initializers := table
            graphInputs := gp.input.map ValueInfoProto.name
            graphOutputs := gp.output.map ValueInfoProto.name
            valueShapes := (gp.input ++ gp.output ++ gp.valueInfo).foldl recordIn ∅ } := by
  unfold loadGraphFromModelProto
  cases model.graph with
  | none => simp
  | some gp =>
    simp only [Base.bind_eq_ok, monadLift_eq_ok, foldlM_loadInput, foldlM_loadOutput,
      foldlM_loadValueInfo, Option.some.injEq, exists_eq_left', List.forall_mem_append,
      List.foldl_append]
    constructor
    · rintro ⟨v, hv, g₁, hload, _, ⟨hin, rfl⟩, _, ⟨hout, rfl⟩, _, ⟨hinner, rfl⟩, nodes, hnodes, hg⟩
      obtain ⟨table, -, rfl⟩ := foldlM_loadInitializer hostNew _ _ rfl _ hload
      exact ⟨v, hv, table, hload, ⟨⟨hin, hout⟩, hinner⟩, nodes, hnodes,
        Base.ok_eq_ok.mp hg⟩
    · rintro ⟨v, hv, table, hload, ⟨⟨hin, hout⟩, hinner⟩, nodes, hnodes, rfl⟩
      exact ⟨v, hv, _, hload, _, ⟨hin, rfl⟩, _, ⟨hout, rfl⟩, _, ⟨hinner, rfl⟩, nodes, hnodes, rfl⟩

end Eduort
