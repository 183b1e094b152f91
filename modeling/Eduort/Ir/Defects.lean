import Eduort.Base.Report
import Eduort.Ir.TopoCorrect

/-!
# The defects of a graph, in the order of the checks

Validation and sorting stop at the first defect, and what they have recorded by then decides
their message. Here all defects of a graph are listed without that state: each place is compared
with the whole graph and with the output positions in front of it. Both functions report the
head of their list.
-/

namespace Eduort

namespace Graph

variable (g : Graph)

/-- The output positions of some nodes. -/
def positionsOf (nodes : List (Node × Nat)) : List (String × Nat) :=
  nodes.flatMap fun (node, ni) ↦ node.outputs.map fun out ↦ (out, ni)

/-- The second of two output positions that hold one name, with the first one. -/
def collision (before : List (String × Nat)) (out : String) (ni : Nat) : List Status :=
  match before.lookup out with
  | some first => [secondProducerStatus out first ni]
  | none => []

/-- What validation has against an output, given the output positions in front of it. -/
def outputDefects (before : List (String × Nat)) (node : Node) (ni : Nat) (out : String) :
    List Status :=
  (if out = "" then [emptyOutputStatus node] else []) ++
    ((if g.IsSeed out then [redefinedSeedStatus out] else []) ++ collision before out ni)

/-- What validation has against a node, given the nodes in front of it. -/
def nodeDefects (front : List (Node × Nat)) : Node × Nat → List Status
  | (node, ni) =>
    (if node.opType = "" then [emptyOpStatus ni] else []) ++
    Base.along (fun outs out ↦
      g.outputDefects (positionsOf front ++ outs.map fun out ↦ (out, ni)) node ni out)
      [] node.outputs

/-- What validation has against a node input. -/
def inputDefects (node : Node) (name : String) : List Status :=
  if name = "" ∨ g.Defines name then [] else [undefinedInputStatus node name]

/-- What validation has against a graph output. -/
def resultDefects (out : String) : List Status :=
  if out = "" then [emptyResultStatus]
  else if g.Defines out then [] else [unproducedStatus out]

/-- What validation has against the graph, in the order of `ValidateStructure`. -/
def defects : List Status :=
  (if "" ∈ g.graphInputs then [emptyInputStatus] else []) ++
  ((if "" ∈ g.initializers then [emptyInitializerStatus] else []) ++
  (Base.along g.nodeDefects [] g.nodes.zipIdx ++
  ((g.nodes.flatMap fun node ↦ node.inputs.flatMap (g.inputDefects node)) ++
  g.graphOutputs.flatMap g.resultDefects)))

/-- What the sort has against a node input. -/
def edgeDefects (node : Node) (name : String) : List Status :=
  if name = "" then []
  else if name ∈ node.outputs then [selfLoopStatus node name]
  else if g.Defines name then [] else [undefinedStatus name]

/-- What the sort has against the graph, in the order of `ComputeTopoOrder`. -/
noncomputable def sortDefects : List Status :=
  Base.along (fun before (out, ni) ↦ if out = "" then [] else collision before out ni)
    [] g.outputPositions ++
  ((g.nodes.flatMap fun node ↦ node.inputs.flatMap (g.edgeDefects node)) ++
  if g.cycleFreeNodes.card = g.nodes.length then []
  else [cycleStatus g.nodes.length g.cycleFreeNodes.card])

end Graph

/-! ### Validation -/

/-- The scope in which these output positions have been recorded. -/
structure Graph.ScopeAt (g : Graph) (before : List (String × Nat)) (st : Scope) : Prop where
  mem_seeds : ∀ name, name ∈ st.seeds ↔ g.IsSeed name
  mem_defined : ∀ name, name ∈ st.defined ↔ g.IsSeed name ∨ name ∈ before.map Prod.fst
  lookup_producer : ∀ name, st.producer.lookup name = before.lookup name

/-- A seed loop reports its status if a name is missing. -/
theorem seedLoop_reports (status : Status) (names : List String) (st : Scope) :
    Base.Reports (names.foldlM (seedName status) st) (if "" ∈ names then [status] else [])
      (· = names.foldl Scope.addSeed st) := by
  induction names generalizing st with
  | nil => exact .ok rfl
  | cons name names ih =>
    rw [List.foldlM_cons, seedName]
    by_cases hname : name = ""
    · rw [if_pos hname, if_pos (hname ▸ List.mem_cons_self)]
      exact .error []
    · have hmem : "" ∈ name :: names ↔ "" ∈ names := by
        rw [List.mem_cons, or_iff_right (Ne.symm hname)]
      rw [if_neg hname]
      simp only [hmem]
      exact ih (st.addSeed name)

/-- Recording the output positions of a node in front of it. -/
theorem defineOutput_reports (g : Graph) (before : List (String × Nat)) (node : Node) (ni : Nat)
    (st : Scope) (out : String) (h : g.ScopeAt before st) :
    Base.Reports (defineOutput ni node st out) (g.outputDefects before node ni out)
      (g.ScopeAt (before ++ [(out, ni)])) := by
  rw [defineOutput, Graph.outputDefects]
  apply Base.Reports.check
  intro _
  simp only [h.mem_seeds]
  apply Base.Reports.check
  intro _
  rw [emplaceProducer, Graph.collision, h.lookup_producer]
  cases hlookup : before.lookup out with
  | some first => exact .error []
  | none =>
    refine .ok ⟨h.mem_seeds, fun name ↦ ?_, fun name ↦ ?_⟩
    · rw [Finset.mem_insert, h.mem_defined, List.map_append, List.mem_append, List.map_singleton,
        List.mem_singleton]
      tauto
    · rw [List.lookup_append]
      by_cases hname : name = out
      · subst hname
        rw [AList.lookup_insert, hlookup]
        simp
      · have hbeq : (name == out) = false := beq_eq_false_iff_ne.mpr hname
        rw [AList.lookup_insert_ne hname, h.lookup_producer, List.lookup_cons, hbeq]
        simp

/-- The outputs of a node behind some nodes. -/
theorem defineNode_reports (g : Graph) (front : List (Node × Nat)) (st : Scope) (x : Node × Nat)
    (h : g.ScopeAt (Graph.positionsOf front) st) :
    Base.Reports (defineNode st x) (g.nodeDefects front x)
      (g.ScopeAt (Graph.positionsOf (front ++ [x]))) := by
  obtain ⟨node, ni⟩ := x
  rw [defineNode, Graph.nodeDefects]
  apply Base.Reports.check
  intro _
  have hstart : g.ScopeAt (Graph.positionsOf front ++ [].map fun out ↦ (out, ni)) st := by
    rw [List.map_nil, List.append_nil]
    exact h
  have hloop := Base.Reports.foldlM
    (fun outs ↦ g.ScopeAt (Graph.positionsOf front ++ outs.map fun out ↦ (out, ni)))
    (fun outs out ↦
      g.outputDefects (Graph.positionsOf front ++ outs.map fun out ↦ (out, ni)) node ni out)
    node.outputs [] hstart <| by
      intro outs out _ s hs
      rw [List.map_append, ← List.append_assoc]
      exact defineOutput_reports g _ node ni s out hs
  apply hloop.mono
  intro st' _ hst'
  rw [Graph.positionsOf, List.flatMap_append, List.flatMap_singleton]
  exact hst'

/-- Before the node loop nothing is recorded. -/
theorem Graph.scopeAt_seedScope (g : Graph) : g.ScopeAt [] (seedScope g) where
  mem_seeds := mem_seedScope g
  mem_defined name := by
    have hsame : (seedScope g).defined = (seedScope g).seeds := rfl
    rw [hsame, mem_seedScope]
    simp
  lookup_producer name := by
    simp [seedScope]

/-- Behind the node loop the seeds and the node outputs are defined. -/
theorem Graph.ScopeAt.mem_defined_iff {g : Graph} {st : Scope}
    (h : g.ScopeAt (Graph.positionsOf g.nodes.zipIdx) st) (name : String) :
    name ∈ st.defined ↔ g.Defines name := by
  have houts : (Graph.positionsOf g.nodes.zipIdx).map Prod.fst = g.allOutputs :=
    g.map_fst_outputPositions
  rw [h.mem_defined, houts, Graph.Defines]

private theorem checkInput_reports (g : Graph) {defined : Finset String}
    (h : ∀ name, name ∈ defined ↔ g.Defines name) (node : Node) (name : String) :
    Base.Reports (checkInput defined node name) (g.inputDefects node name) fun _ ↦ True := by
  unfold checkInput Graph.inputDefects
  by_cases hname : name = ""
  · rw [if_pos hname, if_pos (Or.inl hname)]
    exact .ok trivial
  · rw [if_neg hname]
    by_cases hdefined : g.Defines name
    · rw [if_neg (not_not.mpr ((h name).mpr hdefined)), if_pos (Or.inr hdefined)]
      exact .ok trivial
    · rw [if_pos (fun hmem ↦ hdefined ((h name).mp hmem)), if_neg (not_or.mpr ⟨hname, hdefined⟩)]
      exact .error []

private theorem checkOutput_reports (g : Graph) {defined : Finset String}
    (h : ∀ name, name ∈ defined ↔ g.Defines name) (out : String) :
    Base.Reports (checkOutput defined out) (g.resultDefects out) fun _ ↦ True := by
  unfold checkOutput Graph.resultDefects
  by_cases hname : out = ""
  · rw [if_pos hname, if_pos hname]
    exact .error []
  · rw [if_neg hname, if_neg hname]
    by_cases hdefined : g.Defines out
    · rw [if_neg (not_not.mpr ((h out).mpr hdefined)), if_pos hdefined]
      exact .ok trivial
    · rw [if_pos (fun hmem ↦ hdefined ((h out).mp hmem)), if_neg hdefined]
      exact .error []

/-- Validation finds the defects of the graph in their order. -/
theorem validateStructure_reports (g : Graph) :
    Base.Reports (validateStructure g) g.defects (· = ()) := by
  rw [validateStructure, Graph.defects]
  apply (seedLoop_reports _ g.graphInputs {}).bind
  intro st₁ hloop₁ _
  have hinitializers := seedLoop_reports emptyInitializerStatus g.initializers.keys st₁
  simp only [← AList.mem_keys] at hinitializers
  apply hinitializers.bind
  intro st₂ hloop₂ _
  obtain ⟨-, rfl⟩ := (seedLoops_eq_ok g st₂).mp ⟨st₁, hloop₁, hloop₂⟩
  have hnodes := Base.Reports.foldlM (fun front ↦ g.ScopeAt (Graph.positionsOf front))
    g.nodeDefects g.nodes.zipIdx [] g.scopeAt_seedScope
    fun front x _ s hs ↦ defineNode_reports g front s x hs
  apply hnodes.bind
  intro st _ hst
  have hdefined (name : String) := hst.mem_defined_iff name
  apply (Base.Reports.forM g.nodes fun node _ ↦
    Base.Reports.forM node.inputs fun name _ ↦ checkInput_reports g hdefined node name).bind
  intro _ _ _
  apply (Base.Reports.forM g.graphOutputs fun out _ ↦ checkOutput_reports g hdefined out).mono
  intro _ _ _
  rfl

/-- Validation reports the first defect of the graph, with its text, and accepts the graph if
there is none. -/
theorem validateStructure_report (g : Graph) :
    validateStructure g = Base.report g.defects () :=
  (validateStructure_reports g).eq_report

/-! ### Sorting -/

/-- The map in which these output positions have been recorded. -/
def RecordsPositions (before : List (String × Nat)) (producer : NameMap Nat) : Prop :=
  ∀ name, producer.lookup name = if name = "" then none else before.lookup name

private theorem recordProducer_reports (before : List (String × Nat)) (producer : NameMap Nat)
    (out : String) (ni : Nat) (h : RecordsPositions before producer) :
    Base.Reports (recordProducer ni producer out)
      (if out = "" then [] else Graph.collision before out ni)
      (RecordsPositions (before ++ [(out, ni)])) := by
  unfold recordProducer
  by_cases hout : out = ""
  · rw [if_pos hout, if_pos hout]
    refine .ok fun name ↦ ?_
    rw [h name]
    by_cases hname : name = ""
    · rw [if_pos hname, if_pos hname]
    · have hbeq : (name == out) = false := beq_eq_false_iff_ne.mpr (hout ▸ hname)
      rw [if_neg hname, if_neg hname, List.lookup_append, List.lookup_cons, hbeq]
      simp
  · rw [if_neg hout, if_neg hout, emplaceProducer, Graph.collision, h out, if_neg hout]
    cases hlookup : before.lookup out with
    | some first => exact .error []
    | none =>
      refine .ok fun name ↦ ?_
      by_cases hname : name = out
      · subst hname
        rw [AList.lookup_insert, if_neg hout, List.lookup_append, hlookup]
        simp
      · have hbeq : (name == out) = false := beq_eq_false_iff_ne.mpr hname
        rw [AList.lookup_insert_ne hname, h name, List.lookup_append, List.lookup_cons, hbeq]
        simp

/-- The producer map is built unless two output positions collide. -/
theorem buildProducerMap_reports (g : Graph) :
    Base.Reports (buildProducerMap g)
      (Base.along (fun before (out, ni) ↦ if out = "" then [] else Graph.collision before out ni)
        [] g.outputPositions)
      fun _ ↦ True := by
  rw [buildProducerMap_eq]
  have hstart : RecordsPositions [] ∅ := by
    intro name
    simp
  have hloop := Base.Reports.foldlM RecordsPositions
    (fun before (out, ni) ↦ if out = "" then [] else Graph.collision before out ni)
    g.outputPositions [] hstart
    fun before x _ producer h ↦ recordProducer_reports before producer x.1 x.2 h
  apply hloop.mono
  intro _ _ _
  trivial

section EdgeLoop

variable {g : Graph} {producer : NameMap Nat}
  (hproducer : ∀ name u, producer.lookup name = some u ↔ name ≠ "" ∧ name ∈ g.outputsAt u)
include hproducer

/-- One input of the node at an index, whatever has been wired before. -/
theorem addInputEdge_reports (ni : Nat) (node : Node) (hnode : g.nodes[ni]? = some node)
    (st : Wiring × Finset Nat) (name : String) :
    Base.Reports (addInputEdge g producer ni node st name) (g.edgeDefects node name)
      fun _ ↦ True := by
  have houts : g.outputsAt ni = node.outputs := g.outputsAt_of_getElem? hnode
  unfold addInputEdge Graph.edgeDefects
  by_cases hname : name = ""
  · rw [if_pos hname, if_pos hname]
    exact .ok trivial
  rw [if_neg hname, if_neg hname]
  cases hlookup : producer.lookup name with
  | none =>
    have hnot : name ∉ node.outputs := by
      intro hmem
      rw [(hproducer name ni).mpr ⟨hname, houts ▸ hmem⟩] at hlookup
      cases hlookup
    have hdefines : g.Defines name ↔ isSeedValue g name = true := by
      rw [g.isSeedValue_iff, ← inputOk_of_lookup_none hproducer ni name hname hlookup]
      constructor
      · intro hdefines _
        exact ⟨hdefines, houts ▸ hnot⟩
      · intro hok
        exact (hok hname).1
    rw [if_neg hnot]
    dsimp only
    by_cases hseed : isSeedValue g name = true
    · rw [if_neg (not_not.mpr hseed), if_pos (hdefines.mpr hseed)]
      exact .ok trivial
    · rw [if_pos hseed, if_neg (fun h ↦ hseed (hdefines.mp h))]
      exact .error []
  | some pred =>
    have hok := inputOk_of_lookup hproducer ni name pred hlookup
    obtain ⟨-, hpred⟩ := (hproducer name pred).mp hlookup
    have hdefines : g.Defines name := Or.inr ((g.mem_allOutputs name).mpr ⟨pred, hpred⟩)
    dsimp only
    by_cases hself : pred = ni
    · subst hself
      rw [if_pos rfl, if_pos (houts ▸ hpred)]
      exact .error []
    · have hnot : name ∉ node.outputs := houts ▸ (hok.mpr hself hname).2
      rw [if_neg hself, if_neg hnot, if_pos hdefines]
      split
      · exact .ok trivial
      · exact .ok trivial

/-- The edge loop reports the first bad input. -/
theorem edgeLoop_reports (w : Wiring) :
    Base.Reports (g.nodes.zipIdx.foldlM (addNodeEdges g producer) w)
      (g.nodes.flatMap fun node ↦ node.inputs.flatMap (g.edgeDefects node)) fun _ ↦ True := by
  have hlist := List.flatMap_map Prod.fst
    (fun node : Node ↦ node.inputs.flatMap (g.edgeDefects node)) g.nodes.zipIdx
  rw [List.zipIdx_map_fst] at hlist
  rw [hlist, ← Base.along_const _ []]
  apply (Base.Reports.foldlM (fun _ _ ↦ True) _ g.nodes.zipIdx [] trivial _).mono
  · intro _ _ _
    trivial
  · rintro front ⟨node, ni⟩ hmem w' -
    have hnode : g.nodes[ni]? = some node := List.mem_zipIdx_iff_getElem?.mp hmem
    have hinputs := Base.Reports.foldlM (f := addInputEdge g producer ni node)
      (fun _ _ ↦ True) (fun _ ↦ g.edgeDefects node) node.inputs [] (s := (w', ∅)) trivial
      fun _ name _ st _ ↦ addInputEdge_reports hproducer ni node hnode st name
    rw [Base.along_const] at hinputs
    rw [addNodeEdges, ← List.append_nil (node.inputs.flatMap _)]
    apply hinputs.bind
    intro st _ _
    exact .ok trivial

end EdgeLoop

/-- The sort finds its defects in their order. -/
theorem computeTopoOrder_reports (g : Graph) :
    Base.Reports (computeTopoOrder g) (g.sortDefects.map Stop.status) (· = g.kahnOrder) := by
  by_cases hn : g.nodes.length = 0
  · obtain ⟨hrun, -, horder⟩ := computeTopoOrder_of_no_nodes g hn
    have hnodes : g.nodes = [] := List.eq_nil_of_length_eq_zero hn
    have hfree : g.cycleFreeNodes.card = g.nodes.length := by
      rw [← g.length_kahnOrder, horder, hn, List.length_nil]
    have hnone : g.sortDefects = [] := by
      rw [Graph.sortDefects, if_pos hfree, Graph.outputPositions, hnodes]
      rfl
    rw [hrun, hnone, horder]
    exact .ok rfl
  · rw [computeTopoOrder, Graph.sortDefects, List.map_append, List.map_append]
    simp only [if_neg hn]
    apply ((buildProducerMap_reports g).mapError Stop.status).bind
    intro producer hmap _
    have hok : buildProducerMap g = .ok producer := Base.mapError_eq_ok.mp hmap
    have hproducer := buildProducerMap_lookup g producer hok
    apply ((edgeLoop_reports hproducer _).mapError Stop.status).bind
    intro w hloop _
    have hw := Base.mapError_eq_ok.mp hloop
    obtain ⟨-, rfl⟩ := (edgeLoop_eq_ok hproducer w).mp hw
    have hlength : (Eduort.kahnOrder g.Edge g.nodes.length).length = g.cycleFreeNodes.card :=
      g.length_kahnOrder
    rw [kahnLoop_eq g.edge_lt_left, ← hlength]
    change Base.Reports (if (Eduort.kahnOrder g.Edge g.nodes.length).length ≠ g.nodes.length
      then _ else _) _ _
    by_cases hcomplete : (Eduort.kahnOrder g.Edge g.nodes.length).length = g.nodes.length
    · rw [if_pos hcomplete, if_neg (not_not.mpr hcomplete)]
      exact .ok rfl
    · rw [if_neg hcomplete, if_pos hcomplete]
      exact .error []

/-- The sort reports the first defect of the graph, with its text, and returns the abstract order
if there is none. -/
theorem computeTopoOrder_report (g : Graph) :
    computeTopoOrder g = Base.report (g.sortDefects.map Stop.status) g.kahnOrder :=
  (computeTopoOrder_reports g).eq_report

/-! ### Preparation -/

/-- Preparation reports the first defect, of the validation or else of the sort, and clears the
stored order then; without a defect it stores the abstract order. -/
theorem prepareGraphStructure_report (g : Graph) :
    prepareGraphStructure g = match g.defects ++ g.sortDefects with
      | [] => (.ok (), { g with topoOrder := g.kahnOrder })
      | s :: _ => (.error (.status s), { g with topoOrder := [] }) := by
  have hvalid : validateStructure { g with topoOrder := [] } = Base.report g.defects () :=
    (validateStructure_reports { g with topoOrder := [] }).eq_report
  have hsort : computeTopoOrder { g with topoOrder := [] } =
      Base.report (g.sortDefects.map Stop.status) g.kahnOrder :=
    (computeTopoOrder_reports { g with topoOrder := [] }).eq_report
  rw [prepareGraphStructure]
  dsimp only
  rw [hvalid, hsort]
  cases g.defects with
  | cons s rest => rfl
  | nil =>
    cases g.sortDefects with
    | cons s rest => rfl
    | nil => rfl

end Eduort
