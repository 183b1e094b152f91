import Eduort.Ir.NodeOrder
import Eduort.Onnx.Files
import Eduort.Onnx.LoaderImage
import Eduort.Onnx.LoaderPolicy

/-!
# From a model to a prepared graph

The loader and the preparation together, as a policy over the messages: names are present and
defined by somebody, node outputs are distinct and are no graph inputs or initializers, and no value
depends on itself. A graph input may be listed twice, and may name an initializer. Nothing in the
policy looks at a position, so it gives one verdict for all orders of the repeated fields.
-/

namespace Eduort

open Onnx

/-! ### Values that depend on values -/

namespace Graph

variable (g : Graph)

/-- Some node reads `a` and writes `b`. -/
def Feeds (a b : String) : Prop := a ≠ "" ∧ ∃ node ∈ g.nodes, a ∈ node.inputs ∧ b ∈ node.outputs

/-- Nodes depend on each other in a circle exactly when values do. -/
theorem acyclic_edge_iff : Base.Acyclic g.Edge ↔ Base.Acyclic g.Feeds := by
  have hedge : g.Edge = Relation.Comp (fun u name ↦ name ∈ g.outputsAt u)
      (fun name v ↦ name ≠ "" ∧ name ∈ g.inputsAt v) := by
    ext u v
    constructor
    · rintro ⟨name, hin, hname, hout⟩
      exact ⟨name, hout, hname, hin⟩
    · rintro ⟨name, hout, hname, hin⟩
      exact ⟨name, hin, hname, hout⟩
  have hfeeds : g.Feeds = Relation.Comp (fun name v ↦ name ≠ "" ∧ name ∈ g.inputsAt v)
      (fun u name ↦ name ∈ g.outputsAt u) := by
    ext a b
    constructor
    · rintro ⟨hname, node, hnode, hin, hout⟩
      obtain ⟨v, hv⟩ := List.getElem?_of_mem hnode
      exact ⟨v, ⟨hname, (g.mem_inputsAt a v).mpr ⟨node, hv, hin⟩⟩,
        (g.mem_outputsAt b v).mpr ⟨node, hv, hout⟩⟩
    · rintro ⟨v, ⟨hname, hin⟩, hout⟩
      obtain ⟨node, hnode, hin⟩ := (g.mem_inputsAt a v).mp hin
      obtain ⟨node', hnode', hout⟩ := (g.mem_outputsAt b v).mp hout
      rw [hnode] at hnode'
      cases hnode'
      exact ⟨hname, node, List.mem_of_getElem? hnode, hin, hout⟩
  rw [hedge, hfeeds]
  exact Base.acyclic_comp_comm

end Graph

/-! ### The policy -/

namespace Onnx.GraphProto

variable (gp : GraphProto)

/-- The name of a graph input or of an initializer. -/
def IsSeed (name : String) : Prop :=
  (∃ vi ∈ gp.input, vi.name = name) ∨ ∃ tp ∈ gp.initializer, tp.name = name

/-- Some entry defines the name. -/
def Defines (name : String) : Prop := gp.IsSeed name ∨ ∃ np ∈ gp.node, name ∈ np.output

/-- Some node reads `a` and writes `b`. -/
def Feeds (a b : String) : Prop := a ≠ "" ∧ ∃ np ∈ gp.node, a ∈ np.input ∧ b ∈ np.output

/-- The names of a graph message fit together. What nodes write is distinct and no seed; a graph
input may be listed again and may name an initializer. -/
structure Wired : Prop where
  inputs_named : ∀ vi ∈ gp.input, vi.name ≠ ""
  nodeOutputs_fresh : ∀ np ∈ gp.node, ∀ name ∈ np.output, name ≠ "" ∧ ¬ gp.IsSeed name
  nodeOutputs_distinct : (gp.node.flatMap NodeProto.output).Nodup
  nodeInputs_defined : ∀ np ∈ gp.node, ∀ name ∈ np.input, name ≠ "" → gp.Defines name
  outputs_defined : ∀ vi ∈ gp.output, vi.name ≠ "" ∧ gp.Defines vi.name
  acyclic : ∀ name, ¬ Relation.TransGen gp.Feeds name name

end Onnx.GraphProto

variable {hostNew : UInt64 → Bool}

namespace GraphImage

variable {gp : GraphProto} {g : Graph} (h : GraphImage hostNew gp g)
include h

/-- Nodes and node messages have the same wires. -/
theorem map_nodes : g.nodes.map (fun node ↦ (node.opType, node.inputs, node.outputs)) =
    gp.node.map fun np ↦ (np.opType, np.input, np.output) := by
  have hnodes : List.Forall₂ (fun node np ↦ (node.opType, node.inputs, node.outputs) =
      (np.opType, np.input, np.output)) g.nodes gp.node := by
    refine (h.nodes.imp fun np node hnode ↦ ?_).flip
    show (node.opType, node.inputs, node.outputs) = (np.opType, np.input, np.output)
    rw [hnode.opType_eq, hnode.inputs_eq, hnode.outputs_eq]
  rw [← List.forall₂_map_right_iff, ← List.forall₂_map_left_iff, List.forall₂_eq_eq_eq] at hnodes
  exact hnodes

/-- What holds of the wires of some node holds of the wires of some message. -/
theorem exists_node_iff (P : String × List String × List String → Prop) :
    (∃ node ∈ g.nodes, P (node.opType, node.inputs, node.outputs)) ↔
      ∃ np ∈ gp.node, P (np.opType, np.input, np.output) := by
  have hmem (x) : x ∈ g.nodes.map (fun node ↦ (node.opType, node.inputs, node.outputs)) ↔
      x ∈ gp.node.map fun np ↦ (np.opType, np.input, np.output) := by rw [h.map_nodes]
  simp only [List.mem_map] at hmem
  constructor
  · rintro ⟨node, hnode, hP⟩
    obtain ⟨np, hnp, heq⟩ := (hmem _).mp ⟨node, hnode, rfl⟩
    exact ⟨np, hnp, heq ▸ hP⟩
  · rintro ⟨np, hnp, hP⟩
    obtain ⟨node, hnode, heq⟩ := (hmem _).mpr ⟨np, hnp, rfl⟩
    exact ⟨node, hnode, heq ▸ hP⟩

private theorem allOutputs_eq : g.allOutputs = gp.node.flatMap NodeProto.output := by
  have hwires := congrArg (List.flatMap fun x : String × List String × List String ↦ x.2.2)
    h.map_nodes
  rw [List.flatMap_map, List.flatMap_map] at hwires
  exact hwires

private theorem isSeed_iff (name : String) : g.IsSeed name ↔ gp.IsSeed name := by
  rw [Graph.IsSeed, h.graphInputs_eq, h.initializers.keys, List.mem_map, GraphProto.IsSeed]

private theorem defines_iff (name : String) : g.Defines name ↔ gp.Defines name := by
  rw [Graph.Defines, h.isSeed_iff, h.allOutputs_eq, List.mem_flatMap, GraphProto.Defines]

private theorem feeds_eq : g.Feeds = gp.Feeds := by
  ext a b
  exact and_congr_right fun _ ↦ h.exists_node_iff fun x ↦ a ∈ x.2.1 ∧ b ∈ x.2.2

/-- The nodes pass a check of their wires when the messages do. -/
theorem forall_node_iff (P : String × List String × List String → Prop) :
    (∀ node ∈ g.nodes, P (node.opType, node.inputs, node.outputs)) ↔
      ∀ np ∈ gp.node, P (np.opType, np.input, np.output) := by
  have hnot := h.exists_node_iff fun x ↦ ¬ P x
  rw [← not_iff_not]
  push Not
  exact hnot

/-- A graph that has been loaded is well-formed without a cycle exactly when its message is
wired: what validation asks of initializers and operators, the loader has asked before. -/
theorem wired_iff (hinitializers : ∀ tp ∈ gp.initializer, tp.name ≠ "")
    (hopTypes : ∀ np ∈ gp.node, np.opType ≠ "") :
    g.WellFormed ∧ Base.Acyclic g.Edge ↔ gp.Wired := by
  have houts (P : String → Prop) : (∀ name ∈ g.allOutputs, P name) ↔
      ∀ np ∈ gp.node, ∀ name ∈ np.output, P name := by
    rw [h.allOutputs_eq, List.forall_mem_flatMap]
  rw [g.acyclic_edge_iff, h.feeds_eq]
  constructor
  · rintro ⟨hwf, hacyclic⟩
    constructor
    · have hinputs := hwf.inputs_named
      rw [h.graphInputs_eq, List.forall_mem_map] at hinputs
      exact hinputs
    · rw [← houts]
      intro name hname
      rw [← h.isSeed_iff]
      exact ⟨hwf.nodeOutputs_named name hname, hwf.nodeOutputs_fresh name hname⟩
    · rw [← h.allOutputs_eq]
      exact hwf.nodeOutputs_distinct
    · have hdefined := (h.forall_node_iff fun x ↦ ∀ name ∈ x.2.1, name ≠ "" → g.Defines name).mp
        hwf.nodeInputs_defined
      simp only [h.defines_iff] at hdefined
      exact hdefined
    · intro vi hvi
      have hmem : vi.name ∈ g.graphOutputs := by
        rw [h.graphOutputs_eq]
        exact List.mem_map_of_mem hvi
      rw [← h.defines_iff]
      exact ⟨hwf.graphOutputs_named _ hmem, hwf.graphOutputs_defined _ hmem⟩
    · exact hacyclic
  · intro hwired
    refine ⟨?_, hwired.acyclic⟩
    have hfresh := (houts _).mpr hwired.nodeOutputs_fresh
    have hresults (name : String) (hname : name ∈ g.graphOutputs) :
        name ≠ "" ∧ g.Defines name := by
      rw [h.graphOutputs_eq, List.mem_map] at hname
      obtain ⟨vi, hvi, rfl⟩ := hname
      rw [h.defines_iff]
      exact hwired.outputs_defined vi hvi
    constructor
    · rw [h.graphInputs_eq, List.forall_mem_map]
      exact hwired.inputs_named
    · intro name hname
      obtain ⟨tp, htp, rfl⟩ := (h.initializers.keys name).mp hname
      exact hinitializers tp htp
    · exact (h.forall_node_iff fun x ↦ x.1 ≠ "").mpr hopTypes
    · exact fun name hname ↦ (hfresh name hname).1
    · intro name hname
      rw [h.isSeed_iff]
      exact (hfresh name hname).2
    · rw [h.allOutputs_eq]
      exact hwired.nodeOutputs_distinct
    · apply (h.forall_node_iff fun x ↦ ∀ name ∈ x.2.1, name ≠ "" → g.Defines name).mpr
      simp only [h.defines_iff]
      exact hwired.nodeInputs_defined
    · exact fun name hname ↦ (hresults name hname).1
    · exact fun name hname ↦ (hresults name hname).2

end GraphImage

/-! ### Verdicts -/

/-- The policy of the loader and the preparation. -/
def Onnx.ModelProto.Prepares (hostNew : UInt64 → Bool) (model : ModelProto) : Prop :=
  model.Accepted hostNew ∧ ∃ gp, model.graph = some gp ∧ gp.Wired

/-- A model leads to a prepared graph exactly when it satisfies the policy. -/
theorem prepares_iff (model : ModelProto) :
    (∃ g, loadGraphFromModelProto hostNew model = .ok g ∧ (prepareGraphStructure g).1 = .ok ()) ↔
      model.Prepares hostNew := by
  have hwired (g : Graph) (hload : loadGraphFromModelProto hostNew model = .ok g)
      (haccepted : model.Accepted hostNew) : (prepareGraphStructure g).1 = .ok () ↔
        ∃ gp, model.graph = some gp ∧ gp.Wired := by
    obtain ⟨gp, hgp, himage⟩ := loaded_graphImage hostNew model g hload
    obtain ⟨gp', hgp', hgraph⟩ := haccepted.graph_accepted
    rw [hgp] at hgp'
    cases hgp'
    rw [prepareGraphStructure_isOk, himage.wired_iff hgraph.initializers_named
      fun np hnp ↦ (hgraph.nodes_accepted np hnp).opType_ne, hgp]
    simp
  constructor
  · rintro ⟨g, hload, hprepare⟩
    have haccepted := (loadGraphFromModelProto_isOk_iff hostNew model).mp ⟨g, hload⟩
    exact ⟨haccepted, (hwired g hload haccepted).mp hprepare⟩
  · rintro ⟨haccepted, hgraph⟩
    obtain ⟨g, hload⟩ := (loadGraphFromModelProto_isOk_iff hostNew model).mpr haccepted
    exact ⟨g, hload, (hwired g hload haccepted).mpr hgraph⟩

/-- A file leads to a prepared graph exactly when its bytes can be read within both limits and
parse as a model that satisfies the policy. -/
theorem loadGraphFromFile_prepares_iff (files : String → Option HostFile)
    (parse : List UInt8 → Option ModelProto) (vectorNew : UInt64 → Bool) (path : String)
    (maxBytes : UInt64) :
    (∃ g, loadGraphFromFile files parse vectorNew hostNew path maxBytes = .ok g ∧
        (prepareGraphStructure g).1 = .ok ()) ↔
      ∃ bytes model, ReadsBytes files vectorNew path maxBytes bytes ∧ bytes.length < 2 ^ 31 ∧
        parse bytes = some model ∧ model.Prepares hostNew := by
  simp only [loadGraphFromFile_eq_ok, ← prepares_iff]
  constructor
  · rintro ⟨g, ⟨bytes, model, hread, hsmall, hparse, hload⟩, hprepare⟩
    exact ⟨bytes, model, hread, hsmall, hparse, g, hload, hprepare⟩
  · rintro ⟨bytes, model, hread, hsmall, hparse, g, hload, hprepare⟩
    exact ⟨g, ⟨bytes, model, hread, hsmall, hparse, hload⟩, hprepare⟩

/-! ### Reordering -/

namespace Onnx.GraphProto.Reordered

variable {gp gp' : GraphProto} (h : gp.Reordered gp')
include h

/-- The wires of the nodes in another order. -/
theorem perm_wires : (gp.node.map fun np ↦ (np.input, np.output)).Perm
    (gp'.node.map fun np ↦ (np.input, np.output)) := by
  obtain ⟨nodes, hperm, hnodes⟩ := h.node_perm
  have hsame : List.Forall₂ (fun np np' ↦ (np.input, np.output) = (np'.input, np'.output))
      nodes gp'.node := by
    refine hnodes.imp fun np np' hnode ↦ ?_
    rw [hnode.rest_eq]
  rw [← List.forall₂_map_right_iff, ← List.forall₂_map_left_iff, List.forall₂_eq_eq_eq] at hsame
  rw [← hsame]
  exact hperm.map _

private theorem exists_wires_iff (P : List String × List String → Prop) :
    (∃ np ∈ gp.node, P (np.input, np.output)) ↔ ∃ np ∈ gp'.node, P (np.input, np.output) := by
  have hmem (x) := h.perm_wires.mem_iff (a := x)
  simp only [List.mem_map] at hmem
  constructor
  · rintro ⟨np, hnp, hP⟩
    obtain ⟨np', hnp', heq⟩ := (hmem _).mp ⟨np, hnp, rfl⟩
    exact ⟨np', hnp', heq ▸ hP⟩
  · rintro ⟨np', hnp', hP⟩
    obtain ⟨np, hnp, heq⟩ := (hmem _).mpr ⟨np', hnp', rfl⟩
    exact ⟨np, hnp, heq ▸ hP⟩

private theorem isSeed_iff (name : String) : gp.IsSeed name ↔ gp'.IsSeed name := by
  simp only [GraphProto.IsSeed, h.input_perm.mem_iff, h.initializer_perm.mem_iff]

private theorem defines_iff (name : String) : gp.Defines name ↔ gp'.Defines name :=
  or_congr (h.isSeed_iff name) (h.exists_wires_iff fun x ↦ name ∈ x.2)

private theorem feeds_eq : gp.Feeds = gp'.Feeds := by
  ext a b
  exact and_congr_right fun _ ↦ h.exists_wires_iff fun x ↦ a ∈ x.1 ∧ b ∈ x.2

/-- The policy for the names of a graph does not see the order of its repeated fields. -/
theorem wired (hwired : gp.Wired) : gp'.Wired := by
  have hforall (P : List String × List String → Prop)
      (hP : ∀ np ∈ gp.node, P (np.input, np.output)) (np' : NodeProto) (hnp' : np' ∈ gp'.node) :
      P (np'.input, np'.output) := by
    by_contra hnot
    obtain ⟨np, hnp, hnot⟩ := (h.exists_wires_iff fun x ↦ ¬ P x).mpr ⟨np', hnp', hnot⟩
    exact hnot (hP np hnp)
  constructor
  · intro vi hvi
    exact hwired.inputs_named vi (h.input_perm.mem_iff.mpr hvi)
  · apply hforall fun x ↦ ∀ name ∈ x.2, name ≠ "" ∧ ¬ gp'.IsSeed name
    intro np hnp name hname
    rw [← h.isSeed_iff]
    exact hwired.nodeOutputs_fresh np hnp name hname
  · have houts := h.perm_wires.flatMap_right Prod.snd
    rw [List.flatMap_map, List.flatMap_map] at houts
    exact houts.nodup_iff.mp hwired.nodeOutputs_distinct
  · apply hforall fun x ↦ ∀ name ∈ x.1, name ≠ "" → gp'.Defines name
    intro np hnp name hname hne
    rw [← h.defines_iff]
    exact hwired.nodeInputs_defined np hnp name hname hne
  · intro vi hvi
    rw [← h.defines_iff]
    exact hwired.outputs_defined vi (h.output_perm.mem_iff.mpr hvi)
  · rw [← h.feeds_eq]
    exact hwired.acyclic

end Onnx.GraphProto.Reordered

/-- The policy does not see the order of any repeated field. -/
theorem Onnx.ModelProto.Reordered.prepares {model model' : ModelProto}
    (h : model.Reordered model') (hprepares : model.Prepares hostNew) :
    model'.Prepares hostNew := by
  obtain ⟨haccepted, gp, hgp, hwired⟩ := hprepares
  refine ⟨h.accepted hostNew haccepted, ?_⟩
  have hgraph := h.graph_rel
  rw [hgp] at hgraph
  generalize model'.graph = graph' at hgraph
  cases hgraph with
  | some hrel => exact ⟨_, rfl, hrel.wired hwired⟩

/-- Models that differ in the order of their repeated fields only, nodes included, lead to a
prepared graph together or not at all. -/
theorem prepares_reordered {model model' : ModelProto} (h : model.Reordered model') :
    (∃ g, loadGraphFromModelProto hostNew model = .ok g ∧ (prepareGraphStructure g).1 = .ok ()) ↔
      ∃ g, loadGraphFromModelProto hostNew model' = .ok g ∧
        (prepareGraphStructure g).1 = .ok () := by
  rw [prepares_iff, prepares_iff]
  exact ⟨h.prepares, h.symm.prepares⟩

/-- Two nodes in one of their orders. -/
def addNodes (swap : Bool) : List NodeProto :=
  let add : NodeProto := { input := ["X", "Z"], output := ["W"], opType := "Add" }
  let relu : NodeProto := { input := ["W"], output := ["Y"], opType := "Relu" }
  if swap then [relu, add] else [add, relu]

/-- Two models that differ in the order of the nodes, the inputs and the operator sets. -/
def addModels (swap : Bool) : ModelProto where
  opsetImport := [{ domain := if swap then "" else "ai.onnx", version := 13 },
    { domain := if swap then "ai.onnx" else "", version := 13 }]
  graph := some {
    node := addNodes swap
    input := [{ name := if swap then "Z" else "X" }, { name := if swap then "X" else "Z" }]
    output := [{ name := "Y" }] }

/-- The model whose nodes are listed against the flow is accepted like the other one. -/
theorem prepares_reordered_add :
    ∃ g, loadGraphFromModelProto (fun _ ↦ true) (addModels true) = .ok g ∧
      (prepareGraphStructure g).1 = .ok () := by
  have hreordered : (addModels false).Reordered (addModels true) := by
    refine ⟨rfl, List.Perm.swap _ _ _, .some ⟨rfl, .nil, List.Perm.swap _ _ _, .refl _, .nil, ?_⟩⟩
    refine ⟨addNodes true, List.Perm.swap _ _ _, ?_⟩
    exact .cons ⟨rfl, .refl _⟩ (.cons ⟨rfl, .refl _⟩ .nil)
  apply (prepares_reordered hreordered).mp
  exact ⟨_, rfl, by decide⟩

end Eduort
