import Eduort.Ir.SharedGraph
import Eduort.Onnx.Files
import Eduort.Onnx.SharedDecode

/-!
# Loading a graph into shared memory

`LoadGraphFromModelProto` and `LoadGraphFromFile` as they run on storage with owners. The graph
under construction holds the tensors that have been decoded; if the load fails they give their
storage back. The graph that is returned reads as the graph of the loader on values.
-/

namespace Eduort

open Onnx

variable (alloc : HostAllocator)

/-! ### Nodes -/

namespace SharedAttribute

/-- The tensor case of `MapAttribute`. -/
def mapTensorAttribute (name : String) (t : TensorProto) : Base.Call Stop SharedAttribute := do
  let tv ← SharedTensor.fromTensorProto alloc t
  return { name, kind := .kTensor, tensor := some tv }

/-- `MapAttribute`; `src/ir/onnx_loader.cpp:103`. -/
def mapAttribute (ap : AttributeProto) : Base.Call Stop SharedAttribute :=
  match ap.type with
  | .FLOAT => return { name := ap.name, kind := .kFloat, f := ap.f.getD 0 }
  | .INT => return { name := ap.name, kind := .kInt, i := ap.i.getD 0 }
  | .INTS => return { name := ap.name, kind := .kInts, ints := ap.ints }
  | .STRING => return { name := ap.name, kind := .kString, s := ap.s.getD [] }
  | .TENSOR => mapTensorAttribute alloc ap.name (ap.t.getD {})
  | .UNDEFINED =>
    if ap.t.isSome then mapTensorAttribute alloc ap.name (ap.t.getD {})
    else if ap.f.isSome then return { name := ap.name, kind := .kFloat, f := ap.f.getD 0 }
    else if ap.i.isSome then return { name := ap.name, kind := .kInt, i := ap.i.getD 0 }
    else if ap.ints ≠ [] then return { name := ap.name, kind := .kInts, ints := ap.ints }
    else if ap.s.isSome then return { name := ap.name, kind := .kString, s := ap.s.getD [] }
    else .exit [] (.status (unreadStatus ap))
  | _ => .exit [] (.status (unreadStatus ap))

end SharedAttribute

namespace SharedNode

/-- One attribute of `MapNode`; `src/ir/onnx_loader.cpp:192–195`. -/
def pushAttribute (n : SharedNode) (ap : AttributeProto) : Base.Call Stop SharedNode := do
  let attr ← Base.Call.holding n.buffers (SharedAttribute.mapAttribute alloc ap)
  return { n with attributes := n.attributes ++ [attr] }

/-- `MapNode`; `src/ir/onnx_loader.cpp:171`. -/
def mapNode (np : NodeProto) : Base.Call Stop SharedNode :=
  if np.opType = "" then .exit [] (.status missingOpStatus)
  else
    let domain := canonicalizeDomain np.domain
    if domain ≠ "" then .exit [] (.status (nodeDomainStatus np))
    else
      np.attributes.foldlM (pushAttribute alloc)
        { name := np.name, opType := np.opType, domain, inputs := np.input, outputs := np.output }

end SharedNode

/-! ### Graphs -/

namespace SharedGraph

/-- One initializer; `src/ir/onnx_loader.cpp:289–299`. -/
def loadInitializer (g : SharedGraph) (tp : TensorProto) : Base.Call Stop SharedGraph :=
  if tp.name = "" then .exit g.buffers (.status unnamedInitializerStatus)
  else do
    let tensor ← Base.Call.holding g.buffers (SharedTensor.fromTensorProto alloc tp)
    if tp.name ∈ g.initializers then
      .exit (tensor.buffer :: g.buffers) (.status (duplicateInitializerStatus tp.name))
    else
      return { g with initializers := g.initializers.insert tp.name tensor }

/-- The part the loops over values share. -/
def recordShape (g : SharedGraph) (vi : ValueInfoProto) : StatusOr SharedGraph := do
  let sh ← shapeFromValueInfo vi
  if vi.explicitDims.isSome then
    return { g with valueShapes := g.valueShapes.insert vi.name sh }
  else
    return g

/-- One graph input; `src/ir/onnx_loader.cpp:303–315`. -/
def loadInput (g : SharedGraph) (vi : ValueInfoProto) : StatusOr SharedGraph :=
  recordShape { g with graphInputs := g.graphInputs ++ [vi.name] } vi

/-- One graph output; `src/ir/onnx_loader.cpp:316–326`. -/
def loadOutput (g : SharedGraph) (vi : ValueInfoProto) : StatusOr SharedGraph :=
  recordShape { g with graphOutputs := g.graphOutputs ++ [vi.name] } vi

/-- One inner value; `src/ir/onnx_loader.cpp:327–336`. -/
def loadValueInfo (g : SharedGraph) (vi : ValueInfoProto) : StatusOr SharedGraph :=
  recordShape g vi

/-- One node; `src/ir/onnx_loader.cpp:340–343`. -/
def pushNode (g : SharedGraph) (np : NodeProto) : Base.Call Stop SharedGraph := do
  let node ← Base.Call.holding g.buffers (SharedNode.mapNode alloc np)
  return { g with nodes := g.nodes ++ [node] }

/-- `LoadGraphFromModelProto`; `src/ir/onnx_loader.cpp:266`. -/
def fromModelProto (model : ModelProto) : Base.Call Stop SharedGraph :=
  match model.graph with
  | none => .exit [] (.status missingGraphStatus)
  | some gp => do
    let opsetVersion ← ofStatusOr (resolveOpset model)
    let g : SharedGraph := { name := gp.name, irVersion := model.irVersion, opsetVersion }
    let g ← gp.initializer.foldlM (loadInitializer alloc) g
    let g ← Base.Call.holding g.buffers (ofStatusOr (gp.input.foldlM loadInput g))
    let g ← Base.Call.holding g.buffers (ofStatusOr (gp.output.foldlM loadOutput g))
    let g ← Base.Call.holding g.buffers (ofStatusOr (gp.valueInfo.foldlM loadValueInfo g))
    gp.node.foldlM (pushNode alloc) g

/-- `LoadGraphFromFile`; `src/ir/onnx_loader.cpp:348`. -/
def fromFile (files : String → Option HostFile) (parse : List UInt8 → Option ModelProto)
    (vectorNew : UInt64 → Bool) (path : String) (maxBytes : UInt64 := kDefaultMaxModelBytes) :
    Base.Call Stop SharedGraph := do
  let model ← Base.Call.ofExcept (loadModelProtoFromFile files parse vectorNew path maxBytes)
  fromModelProto alloc model

end SharedGraph

/-! ### Steps on values -/

/-- A node with one more attribute, as a value. -/
theorem SharedNode.view_concat (m : Base.Memory) (n : SharedNode) (attr : SharedAttribute) :
    SharedNode.view m { n with attributes := n.attributes ++ [attr] } =
      { n.view m with attributes := (n.view m).attributes ++ [attr.view m] } := by
  rw [view, NodeOf.view, List.map_append]
  rfl

namespace SharedGraph

/-- A graph with one more node, as a value. -/
theorem view_concat (m : Base.Memory) (g : SharedGraph) (n : SharedNode) :
    view m { g with nodes := g.nodes ++ [n] } =
      { g.view m with nodes := (g.view m).nodes ++ [n.view m] } := by
  rw [view, GraphOf.view, List.map_append]
  rfl

/-- A graph with one more initializer, as a value. -/
theorem view_insert (m : Base.Memory) (g : SharedGraph) (x : String) (t : SharedTensor)
    (hx : x ∉ g.initializers) :
    view m { g with initializers := g.initializers.insert x t } =
      { g.view m with initializers := (g.view m).initializers.insert x (t.view m) } := by
  rw [view, GraphOf.view, NameMap.mapValues_insert _ _ _ _ hx]
  rfl

/-- The buffers of a graph with one more initializer. -/
theorem buffers_insert (g : SharedGraph) (x : String) (t : SharedTensor)
    (hx : x ∉ g.initializers) :
    buffers { g with initializers := g.initializers.insert x t } = t.buffer :: g.buffers := by
  rw [buffers, GraphOf.tensors, NameMap.values_insert,
    NameMap.erase_of_lookup_none (AList.lookup_eq_none.mpr hx)]
  rfl

/-- A step that works on the tables of a graph does the same to its value, and holds on to the
same tensors. -/
structure OnTables (f : SharedGraph → ValueInfoProto → StatusOr SharedGraph)
    (f' : Graph → ValueInfoProto → StatusOr Graph) : Prop where
  view : ∀ m g vi, f' (g.view m) vi = (f g vi).map (SharedGraph.view m)
  buffers : ∀ g vi g', f g vi = .ok g' → g'.buffers = g.buffers

private theorem onTables_recordShape : OnTables recordShape Eduort.recordShape where
  view m g vi := by
    rw [recordShape, Eduort.recordShape]
    cases shapeFromValueInfo vi with
    | error s => rfl
    | ok sh =>
      simp only [bind, Except.bind]
      split
      · rfl
      · rfl
  buffers g vi g' hstep := by
    rw [recordShape, Base.bind_eq_ok] at hstep
    obtain ⟨sh, -, hstep⟩ := hstep
    split at hstep
    · cases hstep
      rfl
    · cases hstep
      rfl

private theorem onTables_loadInput : OnTables loadInput Eduort.loadInput where
  view m g vi :=
    onTables_recordShape.view m { g with graphInputs := g.graphInputs ++ [vi.name] } vi
  buffers g vi g' hstep :=
    onTables_recordShape.buffers { g with graphInputs := g.graphInputs ++ [vi.name] } vi g' hstep

private theorem onTables_loadOutput : OnTables loadOutput Eduort.loadOutput where
  view m g vi :=
    onTables_recordShape.view m { g with graphOutputs := g.graphOutputs ++ [vi.name] } vi
  buffers g vi g' hstep :=
    onTables_recordShape.buffers { g with graphOutputs := g.graphOutputs ++ [vi.name] } vi g' hstep

private theorem onTables_loadValueInfo : OnTables loadValueInfo Eduort.loadValueInfo where
  view m g vi := onTables_recordShape.view m g vi
  buffers g vi g' hstep := onTables_recordShape.buffers g vi g' hstep

/-- A loop of steps that concern the tables concerns the tables. -/
theorem OnTables.foldlM {f : SharedGraph → ValueInfoProto → StatusOr SharedGraph}
    {f' : Graph → ValueInfoProto → StatusOr Graph} (h : OnTables f f') (vis : List ValueInfoProto)
    (g : SharedGraph) :
    (∀ m, vis.foldlM f' (g.view m) = (vis.foldlM f g).map (SharedGraph.view m)) ∧
      ∀ g', vis.foldlM f g = .ok g' → g'.buffers = g.buffers := by
  induction vis generalizing g with
  | nil =>
    refine ⟨fun m ↦ rfl, fun g' hg' ↦ ?_⟩
    cases hg'
    rfl
  | cons vi vis ih =>
    simp only [List.foldlM_cons, h.view]
    cases hstep : f g vi with
    | error s =>
      refine ⟨fun m ↦ rfl, fun g' hg' ↦ ?_⟩
      cases hg'
    | ok g₁ =>
      obtain ⟨hview, hbuffers⟩ := ih g₁
      refine ⟨hview, fun g' hg' ↦ ?_⟩
      exact (hbuffers g' hg').trans (h.buffers g vi g₁ hstep)

end SharedGraph

/-! ### Calls that end like the loader on values -/

/-- What the tensors of the initializers and attributes ask for. -/
def Onnx.ModelProto.Requests (model : ModelProto) (n : Nat) : Prop :=
  ∃ gp, model.graph = some gp ∧ ((∃ tp ∈ gp.initializer, tp.Requests n) ∨
    ∃ np ∈ gp.node, ∃ ap ∈ np.attributes, (ap.t.getD {}).Requests n)

section Realizes

variable {alloc} (h : alloc.Fresh) {requests : Nat → Prop}
include h

namespace SharedAttribute

/-- The tensor case ends like that on values, or the allocator refuses. -/
theorem mapTensorAttribute_realizes (name : String) (t : TensorProto)
    (hrequests : ∀ n, t.Requests n → requests n) :
    Base.Realizes (alloc.Refuses requests) (mapTensorAttribute alloc name t) reading
      (Eduort.mapTensorAttribute (fun _ ↦ true) name t) := by
  intro m owners hcounted
  apply (SharedTensor.fromTensorProto_realizes h t hrequests m owners hcounted).bind
  intro tv v m' _ htv
  apply Base.Ends.pure
  refine htv.map (List.Perm.refl [tv.buffer]) ?_
  rw [← htv.view_eq]
  rfl

omit h in
/-- An attribute without a tensor owns nothing. -/
theorem joined_of_none {m : Base.Memory} {owners : List BufferPtr} {a : SharedAttribute}
    (hcounted : Base.RefCounted m owners) (hnone : a.tensor = none) :
    reading.Joined m owners m a (a.view m) := by
  apply Base.Reading.Joined.start hcounted
  show a.buffers = []
  rw [buffers, AttributeOf.tensors, hnone]
  rfl

/-- `MapAttribute` ends like that on values, or the allocator refuses. -/
theorem mapAttribute_realizes (ap : AttributeProto)
    (hrequests : ∀ n, (ap.t.getD {}).Requests n → requests n) :
    Base.Realizes (alloc.Refuses requests) (mapAttribute alloc ap) reading
      (Eduort.mapAttribute (fun _ ↦ true) ap) := by
  intro m owners hcounted
  unfold mapAttribute Eduort.mapAttribute
  cases ap.type with
  | FLOAT => exact .pure (joined_of_none hcounted rfl)
  | INT => exact .pure (joined_of_none hcounted rfl)
  | INTS => exact .pure (joined_of_none hcounted rfl)
  | STRING => exact .pure (joined_of_none hcounted rfl)
  | TENSOR => exact mapTensorAttribute_realizes h ap.name _ hrequests m owners hcounted
  | UNDEFINED =>
    dsimp only
    split
    · exact mapTensorAttribute_realizes h ap.name _ hrequests m owners hcounted
    split
    · exact .pure (joined_of_none hcounted rfl)
    split
    · exact .pure (joined_of_none hcounted rfl)
    split
    · exact .pure (joined_of_none hcounted rfl)
    split
    · exact .pure (joined_of_none hcounted rfl)
    · exact .exitNil hcounted
  | _ => exact .exitNil hcounted

end SharedAttribute

namespace SharedNode

/-- `MapNode` ends like that on values, or the allocator refuses. -/
theorem mapNode_realizes (np : NodeProto)
    (hrequests : ∀ ap ∈ np.attributes, ∀ n, (ap.t.getD {}).Requests n → requests n) :
    Base.Realizes (alloc.Refuses requests) (mapNode alloc np) reading
      (Eduort.mapNode (fun _ ↦ true) np) := by
  intro m owners hcounted
  unfold mapNode Eduort.mapNode
  split
  · exact .exitNil hcounted
  dsimp only
  split
  · exact .exitNil hcounted
  apply Base.Ends.image
  apply Base.Ends.foldlM fun m' n attributes ↦ reading.Joined m owners m' n
    { name := np.name, opType := np.opType, domain := canonicalizeDomain np.domain,
      inputs := np.input, outputs := np.output, attributes }
  · intro ap hap m' n attributes hn
    have hattribute := SharedAttribute.mapAttribute_realizes h ap (hrequests ap hap)
    apply (Base.Ends.holding hcounted hattribute hn).bind
    intro attr a m'' _ hattr
    apply Base.Ends.pure
    obtain ⟨ha, hn⟩ := Prod.mk.inj hattr.view_eq
    apply hattr.map
    · show (buffers { n with attributes := n.attributes ++ [attr] }).Perm
        (attr.buffers ++ n.buffers)
      rw [buffers, NodeOf.tensors, List.flatMap_append, List.flatMap_singleton, List.map_append]
      exact List.perm_append_comm
    · refine (view_concat m'' n attr).trans ?_
      rw [show n.view m'' = _ from hn, show attr.view m'' = a from ha]
  · exact .start hcounted rfl

end SharedNode

namespace SharedGraph

variable {m m' : Base.Memory} {owners : List BufferPtr} (hcounted : Base.RefCounted m owners)
include hcounted

/-- One initializer. -/
theorem loadInitializer_ends {g : SharedGraph} {v : Graph} (hg : reading.Joined m owners m' g v)
    (tp : TensorProto) (hrequests : ∀ n, tp.Requests n → requests n) :
    Base.Ends (alloc.Refuses requests) m owners (Eduort.loadInitializer (fun _ ↦ true) v tp)
      (reading.Joined m owners) ((loadInitializer alloc g tp).execute m') := by
  unfold loadInitializer Eduort.loadInitializer
  split
  · exact .exit hcounted hg
  have htensor := SharedTensor.fromTensorProto_realizes h tp hrequests
  apply (Base.Ends.holding hcounted htensor hg).bind
  intro t w m'' _ ht
  obtain ⟨hw, hv⟩ := Prod.mk.inj ht.view_eq
  change t.view m'' = w at hw
  change g.view m'' = v at hv
  have hmem : tp.name ∈ v.initializers ↔ tp.name ∈ g.initializers := by
    rw [← hv]
    exact NameMap.mem_mapValues _ _ _
  by_cases hx : tp.name ∈ g.initializers
  · rw [if_pos hx, if_pos (hmem.mpr hx)]
    exact .exit hcounted ht
  · rw [if_neg hx, if_neg (fun h ↦ hx (hmem.mp h))]
    apply Base.Ends.pure
    apply ht.map
    · show (buffers { g with initializers := g.initializers.insert tp.name t }).Perm _
      rw [buffers_insert g tp.name t hx]
      exact List.Perm.refl _
    · refine (view_insert m'' g tp.name t hx).trans ?_
      rw [hv, hw]

omit h in
/-- A loop over values. -/
theorem values_ends {f : SharedGraph → ValueInfoProto → StatusOr SharedGraph}
    {f' : Graph → ValueInfoProto → StatusOr Graph} (hf : OnTables f f')
    {g : SharedGraph} {v : Graph} (hg : reading.Joined m owners m' g v)
    (vis : List ValueInfoProto) :
    Base.Ends (alloc.Refuses requests) m owners ((vis.foldlM f' v).mapError Stop.status)
      (reading.Joined m owners)
      ((Base.Call.holding g.buffers (ofStatusOr (vis.foldlM f g))).execute m') := by
  obtain ⟨hview, hbuffers⟩ := hf.foldlM vis g
  have hanswer : (vis.foldlM f' v).mapError Stop.status =
      ((vis.foldlM f g).mapError Stop.status).map (view m') := by
    rw [← hg.view_eq]
    refine (congrArg _ (hview m')).trans ?_
    cases vis.foldlM f g with
    | error s => rfl
    | ok g' => rfl
  rw [hanswer]
  apply Base.Ends.update hcounted hg
  intro g' hg'
  exact hbuffers g' (Base.mapError_eq_ok.mp hg')

/-- One node. -/
theorem pushNode_ends {g : SharedGraph} {v : Graph} {nodes : List Node}
    (hg : reading.Joined m owners m' g { v with nodes }) (np : NodeProto)
    (hrequests : ∀ ap ∈ np.attributes, ∀ n, (ap.t.getD {}).Requests n → requests n) :
    Base.Ends (alloc.Refuses requests) m owners (Base.pushM (Eduort.mapNode fun _ ↦ true) nodes np)
      (fun m' g nodes ↦ reading.Joined m owners m' g { v with nodes })
      ((pushNode alloc g np).execute m') := by
  apply (Base.Ends.holding hcounted (SharedNode.mapNode_realizes h np hrequests) hg).bind
  intro n w m'' _ hn
  obtain ⟨hw, hv⟩ := Prod.mk.inj hn.view_eq
  apply Base.Ends.pure
  apply hn.map
  · show (buffers { g with nodes := g.nodes ++ [n] }).Perm (n.buffers ++ g.buffers)
    rw [buffers, GraphOf.tensors, List.flatMap_append, List.flatMap_singleton, ← List.append_assoc,
      List.map_append]
    exact List.perm_append_comm
  · refine (view_concat m'' g n).trans ?_
    rw [show g.view m'' = _ from hv, show n.view m'' = w from hw]

omit hcounted in
/-- The loader ends like the loader on values, or the allocator refuses. -/
theorem fromModelProto_realizes (model : ModelProto)
    (hrequests : ∀ n, model.Requests n → requests n) :
    Base.Realizes (alloc.Refuses requests) (fromModelProto alloc model) reading
      (loadGraphFromModelProto (fun _ ↦ true) model) := by
  intro m owners hcounted
  unfold fromModelProto loadGraphFromModelProto
  cases hgraph : model.graph with
  | none => exact .exitNil hcounted
  | some gp =>
    apply Base.Ends.ofExcept hcounted
    intro version _
    refine Base.Ends.bind (Base.Ends.foldlM (reading.Joined m owners) gp.initializer ?_ ?_) ?_
    · intro tp htp m' g v hg
      apply loadInitializer_ends h hcounted hg tp
      intro n hn
      exact hrequests n ⟨gp, hgraph, Or.inl ⟨tp, htp, hn⟩⟩
    · exact .start hcounted rfl
    intro g v m₁ _ hg
    apply (values_ends hcounted onTables_loadInput hg gp.input).bind
    intro g v m₂ _ hg
    apply (values_ends hcounted onTables_loadOutput hg gp.output).bind
    intro g v m₃ _ hg
    apply (values_ends hcounted onTables_loadValueInfo hg gp.valueInfo).bind
    intro g v m₄ _ hg
    apply Base.Ends.image
    apply Base.Ends.foldlM fun m' g nodes ↦ reading.Joined m owners m' g { v with nodes }
    · intro np hnp m' g nodes hg
      apply pushNode_ends h hcounted hg np
      intro ap hap n hn
      exact hrequests n ⟨gp, hgraph, Or.inr ⟨np, hnp, ap, hap, hn⟩⟩
    · exact hg

omit hcounted in
/-- The loader of files ends like the one on values, or a request is refused. -/
theorem fromFile_realizes (files : String → Option HostFile)
    (parse : List UInt8 → Option ModelProto) (vectorNew : UInt64 → Bool) (path : String)
    (maxBytes : UInt64) (hrequests : ∀ model,
      loadModelProtoFromFile files parse vectorNew path maxBytes = .ok model →
        ∀ n, model.Requests n → requests n) :
    Base.Realizes (alloc.Refuses requests)
      (fromFile alloc files parse vectorNew path maxBytes) reading
      (loadGraphFromFile files parse vectorNew (fun _ ↦ true) path maxBytes) := by
  intro m owners hcounted
  apply Base.Ends.ofExcept hcounted
  intro model hmodel
  exact fromModelProto_realizes h model (hrequests model hmodel) m owners hcounted

end SharedGraph

end Realizes

end Eduort
