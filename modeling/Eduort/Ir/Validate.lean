import Eduort.Ir.Producer
import Mathlib.Data.Finset.Dedup
import Mathlib.Data.Finset.Lattice.Lemmas
import Mathlib.Data.List.Nodup

/-!
# Structural validation

Models `src/ir/validate.cpp`. Validation accepts exactly the graphs whose names are present,
defined and, up to repeated graph inputs, defined once.
-/

namespace Eduort

/-- The sets and the map that `ValidateStructure` fills; `src/ir/validate.cpp:24–48`. -/
structure Scope where
  seeds : Finset String := ∅
  defined : Finset String := ∅
  producer : NameMap Nat := ∅

/-- Both insertions of a seed. -/
def Scope.addSeed (st : Scope) (name : String) : Scope :=
  { st with seeds := insert name st.seeds, defined := insert name st.defined }

/-- The status for a graph input without a name; `src/ir/validate.cpp:32`. -/
def emptyInputStatus : Status := Status.error .kModelLoad "graph has an empty input name"

/-- The status for an initializer without a name; `src/ir/validate.cpp:40`. -/
def emptyInitializerStatus : Status := Status.error .kModelLoad "initializer with empty name"

/-- One graph input or initializer key, with the status for an empty name;
`src/ir/validate.cpp:29–44`. -/
def seedName (status : Status) (st : Scope) (name : String) : StatusOr Scope :=
  if name = "" then .error status else .ok (st.addSeed name)

/-- The status for an output without a name; `src/ir/validate.cpp:63`. -/
def emptyOutputStatus (node : Node) : Status :=
  Status.error .kModelLoad s!"node '{node.name}' ({node.opType}) has an empty output name"

/-- The status for an output that is a seed; `src/ir/validate.cpp:69`. -/
def redefinedSeedStatus (out : String) : Status :=
  Status.error .kModelLoad
    s!"node output '{out}' redefines a graph input or initializer (single-assignment)"

/-- One output of the node at index `ni`; `src/ir/validate.cpp:57–83`. -/
def defineOutput (ni : Nat) (node : Node) (st : Scope) (out : String) : StatusOr Scope :=
  if out = "" then .error (emptyOutputStatus node)
  else if out ∈ st.seeds then .error (redefinedSeedStatus out)
  else do
    let producer ← emplaceProducer st.producer out ni
    return { st with producer, defined := insert out st.defined }

/-- The status for a node without an operator; `src/ir/validate.cpp:53`. -/
def emptyOpStatus (ni : Nat) : Status :=
  Status.error .kModelLoad s!"node at index {ni} has empty op_type"

/-- One node with its index; `src/ir/validate.cpp:49–84`. -/
def defineNode (st : Scope) : Node × Nat → StatusOr Scope
  | (node, ni) =>
    if node.opType = "" then .error (emptyOpStatus ni)
    else node.outputs.foldlM (defineOutput ni node) st

/-- The status for a node input that nothing defines; `src/ir/validate.cpp:94`. -/
def undefinedInputStatus (node : Node) (name : String) : Status :=
  Status.error .kModelLoad
    (s!"node '{node.name}' ({node.opType}) references undefined value '{name}' " ++
      "(not a graph input, initializer, or node output)")

/-- One input of a node; `src/ir/validate.cpp:88–100`. -/
def checkInput (defined : Finset String) (node : Node) (name : String) : StatusOr Unit :=
  if name = "" then .ok ()
  else if name ∉ defined then .error (undefinedInputStatus node name)
  else .ok ()

/-- The status for a graph output without a name; `src/ir/validate.cpp:106`. -/
def emptyResultStatus : Status := Status.error .kModelLoad "graph has an empty output name"

/-- The status for a graph output that nothing defines; `src/ir/validate.cpp:110`. -/
def unproducedStatus (out : String) : Status :=
  Status.error .kModelLoad
    s!"graph output '{out}' is not produced by any node, input, or initializer"

/-- One graph output; `src/ir/validate.cpp:104–115`. -/
def checkOutput (defined : Finset String) (out : String) : StatusOr Unit :=
  if out = "" then .error emptyResultStatus
  else if out ∉ defined then .error (unproducedStatus out)
  else .ok ()

/-- `ValidateStructure`; `src/ir/validate.cpp:20`. -/
def validateStructure (graph : Graph) : StatusOr Unit := do
  let st ← graph.graphInputs.foldlM (seedName emptyInputStatus) {}
  let st ← graph.initializers.keys.foldlM (seedName emptyInitializerStatus) st
  let st ← graph.nodes.zipIdx.foldlM defineNode st
  forM graph.nodes fun node ↦ forM node.inputs (checkInput st.defined node)
  forM graph.graphOutputs (checkOutput st.defined)

/-! ### What the passes record -/

/-- The scope after some node outputs have been added. -/
structure Scope.Adds (st : Scope) (outs : List String) (st' : Scope) : Prop where
  seeds_eq : st'.seeds = st.seeds
  mem_defined : ∀ name, name ∈ st'.defined ↔ name ∈ st.defined ∨ name ∈ outs
  mem_producer : ∀ name, name ∈ st'.producer ↔ name ∈ st.producer ∨ name ∈ outs

private theorem Scope.Adds.refl (st : Scope) : st.Adds [] st :=
  ⟨rfl, by simp, by simp⟩

private theorem Scope.Adds.trans {st st' st'' : Scope} {outs outs' : List String}
    (h : st.Adds outs st') (h' : st'.Adds outs' st'') : st.Adds (outs ++ outs') st'' where
  seeds_eq := h'.seeds_eq.trans h.seeds_eq
  mem_defined name := by
    rw [h'.mem_defined, h.mem_defined, List.mem_append, or_assoc]
  mem_producer name := by
    rw [h'.mem_producer, h.mem_producer, List.mem_append, or_assoc]

private theorem seedName_eq_ok (status : Status) (st : Scope) (name : String) (st' : Scope) :
    seedName status st name = .ok st' ↔ name ≠ "" ∧ st' = st.addSeed name := by
  rw [seedName, Base.check_eq_ok, Base.ok_eq_ok]

private theorem defineOutput_eq_ok (ni : Nat) (node : Node) (st st' : Scope) (out : String) :
    defineOutput ni node st out = .ok st' ↔
      (out ≠ "" ∧ out ∉ st.seeds ∧ out ∉ st.producer) ∧
        st' = { st with
          producer := st.producer.insert out ni, defined := insert out st.defined } := by
  rw [defineOutput, Base.check_eq_ok, Base.check_eq_ok, Base.bind_eq_ok]
  simp only [emplaceProducer_eq_ok]
  constructor
  · rintro ⟨hname, hseed, _, ⟨hfresh, rfl⟩, hret⟩
    exact ⟨⟨hname, hseed, hfresh⟩, Base.ok_eq_ok.mp hret⟩
  · rintro ⟨⟨hname, hseed, hfresh⟩, rfl⟩
    exact ⟨hname, hseed, _, ⟨hfresh, rfl⟩, rfl⟩

private theorem defineOutput_adds (ni : Nat) (node : Node) (st st' : Scope) (out : String)
    (h : defineOutput ni node st out = .ok st') : st.Adds [out] st' := by
  obtain ⟨-, rfl⟩ := (defineOutput_eq_ok ni node st st' out).mp h
  refine ⟨rfl, fun name ↦ ?_, fun name ↦ ?_⟩
  · rw [Finset.mem_insert, List.mem_singleton, or_comm]
  · rw [AList.mem_insert, List.mem_singleton, or_comm]

private theorem foldlM_defineOutput_adds (ni : Nat) (node : Node) (st st' : Scope)
    (outs : List String) (h : outs.foldlM (defineOutput ni node) st = .ok st') : st.Adds outs st' :=
  Base.foldlM_invariant (st.Adds · ·) (.refl st)
    (fun _ out s s' hs hstep ↦ hs.trans (defineOutput_adds ni node s s' out hstep)) outs h

/-- The outputs of one node pass when they are present, fresh and distinct. -/
theorem foldlM_defineOutput_isOk (ni : Nat) (node : Node) (st : Scope) (outs : List String) :
    (∃ st', outs.foldlM (defineOutput ni node) st = .ok st') ↔
      (∀ out ∈ outs, out ≠ "" ∧ out ∉ st.seeds ∧ out ∉ st.producer) ∧ outs.Nodup := by
  apply Base.foldlM_isOk_iff_pairwise (st.Adds · ·) _ _ (.refl st)
  · intro xs out s s' hs hstep
    exact hs.trans (defineOutput_adds ni node s s' out hstep)
  · intro xs out s hs
    simp only [defineOutput_eq_ok, hs.seeds_eq, hs.mem_producer, not_or]
    constructor
    · rintro ⟨-, ⟨hname, hseed, hfresh, hnew⟩, -⟩
      exact ⟨⟨hname, hseed, hfresh⟩, fun y hy heq ↦ hnew (heq ▸ hy)⟩
    · rintro ⟨⟨hname, hseed, hfresh⟩, hnew⟩
      exact ⟨_, ⟨hname, hseed, hfresh, fun hmem ↦ hnew out hmem rfl⟩, rfl⟩

private theorem defineNode_eq_ok (st st' : Scope) (x : Node × Nat) :
    defineNode st x = .ok st' ↔
      x.1.opType ≠ "" ∧ x.1.outputs.foldlM (defineOutput x.2 x.1) st = .ok st' := by
  obtain ⟨node, ni⟩ := x
  rw [defineNode, Base.check_eq_ok]

private theorem defineNode_adds (st st' : Scope) (x : Node × Nat) (h : defineNode st x = .ok st') :
    st.Adds x.1.outputs st' :=
  foldlM_defineOutput_adds x.2 x.1 st st' _ ((defineNode_eq_ok st st' x).mp h).2

/-- The node loop adds the outputs of all nodes. -/
theorem foldlM_defineNode_adds (st st' : Scope) (xs : List (Node × Nat))
    (h : xs.foldlM defineNode st = .ok st') : st.Adds (xs.flatMap fun x ↦ x.1.outputs) st' := by
  apply Base.foldlM_invariant (fun xs st' ↦ st.Adds (xs.flatMap fun x ↦ x.1.outputs) st')
      (.refl st) _ xs h
  intro xs x s s' hs hstep
  rw [List.flatMap_append, List.flatMap_singleton]
  exact hs.trans (defineNode_adds s s' x hstep)

/-- The node loop passes when every node names an operator and no output is missing, a seed,
or defined before. -/
theorem foldlM_defineNode_isOk (st : Scope) (hproducer : ∀ name, name ∉ st.producer)
    (xs : List (Node × Nat)) :
    (∃ st', xs.foldlM defineNode st = .ok st') ↔
      (∀ x ∈ xs, x.1.opType ≠ "" ∧
        (∀ out ∈ x.1.outputs, out ≠ "" ∧ out ∉ st.seeds) ∧ x.1.outputs.Nodup) ∧
        xs.Pairwise fun x y ↦ List.Disjoint x.1.outputs y.1.outputs := by
  apply Base.foldlM_isOk_iff_pairwise
    fun xs st' ↦ st.Adds (xs.flatMap fun x ↦ x.1.outputs) st'
  · exact .refl st
  · intro xs x s s' hs hstep
    rw [List.flatMap_append, List.flatMap_singleton]
    exact hs.trans (defineNode_adds s s' x hstep)
  · intro xs x s (hs : st.Adds (xs.flatMap fun x ↦ x.1.outputs) s)
    have hiff : (∃ s', defineNode s x = .ok s') ↔
        x.1.opType ≠ "" ∧ ∃ s', x.1.outputs.foldlM (defineOutput x.2 x.1) s = .ok s' := by
      simp only [defineNode_eq_ok, exists_and_left]
    rw [hiff, foldlM_defineOutput_isOk]
    simp only [hs.seeds_eq, hs.mem_producer, hproducer, false_or, List.mem_flatMap, not_exists,
      not_and]
    constructor
    · rintro ⟨hop, houts, hnodup⟩
      refine ⟨⟨hop, fun out hout ↦ ?_, hnodup⟩, fun y hy out hyout hout ↦ ?_⟩
      · exact ⟨(houts out hout).1, (houts out hout).2.1⟩
      · exact (houts out hout).2.2 y hy hyout
    · rintro ⟨⟨hop, houts, hnodup⟩, hdisjoint⟩
      refine ⟨hop, fun out hout ↦ ?_, hnodup⟩
      exact ⟨(houts out hout).1, (houts out hout).2, fun y hy hyout ↦ hdisjoint y hy hyout hout⟩

private theorem foldl_addSeed (names : List String) (st : Scope) :
    names.foldl Scope.addSeed st =
      { st with seeds := names.toFinset ∪ st.seeds, defined := names.toFinset ∪ st.defined } := by
  induction names generalizing st with
  | nil => simp
  | cons name names ih =>
    rw [List.foldl_cons, ih, Scope.addSeed]
    simp only [List.toFinset_cons, Finset.insert_union, Finset.union_insert]

/-- The scope after both seed loops. -/
def seedScope (g : Graph) : Scope :=
  { seeds := g.initializers.keys.toFinset ∪ g.graphInputs.toFinset
    defined := g.initializers.keys.toFinset ∪ g.graphInputs.toFinset }

/-- The seed loops pass when every seed has a name. -/
theorem seedLoops_eq_ok (g : Graph) (st : Scope) :
    (∃ st₁, g.graphInputs.foldlM (seedName emptyInputStatus) {} = .ok st₁ ∧
      g.initializers.keys.foldlM (seedName emptyInitializerStatus) st₁ = .ok st) ↔
      ((∀ name ∈ g.graphInputs, name ≠ "") ∧ ∀ name ∈ g.initializers, name ≠ "") ∧
        st = seedScope g := by
  have hloop (status : Status) (names : List String) (st st' : Scope) :=
    Base.foldlM_guarded (· ≠ "") Scope.addSeed (seedName_eq_ok status) st st' names
  simp only [hloop, foldl_addSeed, seedScope, AList.mem_keys]
  constructor
  · rintro ⟨_, ⟨hinputs, rfl⟩, hinit, rfl⟩
    exact ⟨⟨hinputs, hinit⟩, by simp⟩
  · rintro ⟨⟨hinputs, hinit⟩, rfl⟩
    exact ⟨_, ⟨hinputs, rfl⟩, hinit, by simp⟩

theorem mem_seedScope (g : Graph) (name : String) : name ∈ (seedScope g).seeds ↔ g.IsSeed name := by
  rw [seedScope, Finset.mem_union, List.mem_toFinset, List.mem_toFinset, ← AList.mem_keys, or_comm,
    Graph.IsSeed]

/-! ### Accepted graphs -/

/-- The name is a seed or a node output. -/
def Graph.Defines (g : Graph) (name : String) : Prop := g.IsSeed name ∨ name ∈ g.allOutputs

instance (g : Graph) (name : String) : Decidable (g.Defines name) :=
  inferInstanceAs (Decidable (_ ∨ _))

/-- What validation guarantees. -/
structure Graph.WellFormed (g : Graph) : Prop where
  inputs_named : ∀ name ∈ g.graphInputs, name ≠ ""
  initializers_named : ∀ name ∈ g.initializers, name ≠ ""
  opTypes_named : ∀ node ∈ g.nodes, node.opType ≠ ""
  nodeOutputs_named : ∀ name ∈ g.allOutputs, name ≠ ""
  nodeOutputs_fresh : ∀ name ∈ g.allOutputs, ¬ g.IsSeed name
  nodeOutputs_distinct : g.allOutputs.Nodup
  nodeInputs_defined : ∀ node ∈ g.nodes, ∀ name ∈ node.inputs, name ≠ "" → g.Defines name
  graphOutputs_named : ∀ name ∈ g.graphOutputs, name ≠ ""
  graphOutputs_defined : ∀ name ∈ g.graphOutputs, g.Defines name

private theorem checkInput_eq_ok (defined : Finset String) (node : Node) (name : String) :
    checkInput defined node name = .ok () ↔ (name ≠ "" → name ∈ defined) := by
  unfold checkInput
  split_ifs with hname hdefined <;> simp [*]

private theorem checkOutput_eq_ok (defined : Finset String) (out : String) :
    checkOutput defined out = .ok () ↔ out ≠ "" ∧ out ∈ defined := by
  rw [checkOutput, Base.check_eq_ok, Base.check_eq_ok, not_not, and_iff_left rfl]

/-- The node loop over a graph passes when the output rules hold. -/
theorem nodeLoop_isOk (g : Graph) :
    (∃ st, g.nodes.zipIdx.foldlM defineNode (seedScope g) = .ok st) ↔
      (∀ node ∈ g.nodes, node.opType ≠ "") ∧
        (∀ name ∈ g.allOutputs, name ≠ "" ∧ ¬ g.IsSeed name) ∧ g.allOutputs.Nodup := by
  have hnodes : g.nodes.zipIdx.map Prod.fst = g.nodes := List.zipIdx_map_fst 0 g.nodes
  have hall (P : Node → Prop) : (∀ x ∈ g.nodes.zipIdx, P x.1) ↔ ∀ node ∈ g.nodes, P node := by
    rw [← List.forall_mem_map, hnodes]
  have hpairs : (g.nodes.zipIdx.Pairwise fun x y ↦ List.Disjoint x.1.outputs y.1.outputs) ↔
      g.nodes.Pairwise fun x y ↦ List.Disjoint x.outputs y.outputs := by
    conv_rhs => rw [← hnodes, List.pairwise_map]
  rw [foldlM_defineNode_isOk _ (fun name ↦ AList.notMem_empty name),
    hall fun node ↦ node.opType ≠ "" ∧ (∀ out ∈ node.outputs, out ≠ "" ∧
      out ∉ (seedScope g).seeds) ∧ node.outputs.Nodup, hpairs]
  simp only [mem_seedScope]
  rw [Graph.allOutputs, List.nodup_flatMap, List.forall_mem_flatMap]
  constructor
  · rintro ⟨hnode, hdisjoint⟩
    exact ⟨fun node h ↦ (hnode node h).1, fun node h ↦ (hnode node h).2.1,
      fun node h ↦ (hnode node h).2.2, hdisjoint⟩
  · rintro ⟨hop, houts, hnodup, hdisjoint⟩
    exact ⟨fun node h ↦ ⟨hop node h, houts node h, hnodup node h⟩, hdisjoint⟩

/-- After the node loop exactly the seeds and the node outputs are defined. -/
theorem nodeLoop_defined (g : Graph) (st : Scope)
    (h : g.nodes.zipIdx.foldlM defineNode (seedScope g) = .ok st) (name : String) :
    name ∈ st.defined ↔ g.Defines name := by
  have houts : (g.nodes.zipIdx.flatMap fun x ↦ x.1.outputs) = g.allOutputs := by
    rw [Graph.allOutputs, ← List.flatMap_map Prod.fst, List.zipIdx_map_fst]
  have hadds := foldlM_defineNode_adds _ _ _ h
  rw [houts] at hadds
  have hseeds : (seedScope g).defined = (seedScope g).seeds := rfl
  rw [hadds.mem_defined, hseeds, mem_seedScope, Graph.Defines]

/-- The last two loops pass when every name that is read is defined. -/
theorem useLoops_eq_ok (g : Graph) (st : Scope)
    (hdefined : ∀ name, name ∈ st.defined ↔ g.Defines name) :
    (forM g.nodes (fun node ↦ forM node.inputs (checkInput st.defined node)) = .ok () ∧
      forM g.graphOutputs (checkOutput st.defined) = .ok ()) ↔
      (∀ node ∈ g.nodes, ∀ name ∈ node.inputs, name ≠ "" → g.Defines name) ∧
        ∀ name ∈ g.graphOutputs, name ≠ "" ∧ g.Defines name := by
  simp only [Base.forM_eq_ok_iff, checkInput_eq_ok, checkOutput_eq_ok, hdefined]

/-- Validation accepts exactly the well-formed graphs. -/
theorem validateStructure_eq_ok (g : Graph) : validateStructure g = .ok () ↔ g.WellFormed := by
  simp only [validateStructure, Base.bind_eq_ok]
  constructor
  · rintro ⟨st₁, hloop₁, st₂, hloop₂, st, hnodes, ⟨⟩, hnodeInputs, hgraphOutputs⟩
    obtain ⟨⟨hinputs, hinit⟩, rfl⟩ := (seedLoops_eq_ok g st₂).mp ⟨st₁, hloop₁, hloop₂⟩
    obtain ⟨hops, houts, hnodup⟩ := (nodeLoop_isOk g).mp ⟨st, hnodes⟩
    obtain ⟨hreads, hresults⟩ := (useLoops_eq_ok g st (nodeLoop_defined g st hnodes)).mp
      ⟨hnodeInputs, hgraphOutputs⟩
    exact ⟨hinputs, hinit, hops, fun name h ↦ (houts name h).1, fun name h ↦ (houts name h).2,
      hnodup, hreads, fun name h ↦ (hresults name h).1, fun name h ↦ (hresults name h).2⟩
  · intro h
    obtain ⟨st₁, hinputs, hinit⟩ := (seedLoops_eq_ok g (seedScope g)).mpr
      ⟨⟨h.inputs_named, h.initializers_named⟩, rfl⟩
    obtain ⟨st, hnodes⟩ := (nodeLoop_isOk g).mpr ⟨h.opTypes_named,
      fun name hname ↦ ⟨h.nodeOutputs_named name hname, h.nodeOutputs_fresh name hname⟩,
      h.nodeOutputs_distinct⟩
    obtain ⟨hreads, hresults⟩ := (useLoops_eq_ok g st (nodeLoop_defined g st hnodes)).mpr
      ⟨h.nodeInputs_defined,
        fun name hname ↦ ⟨h.graphOutputs_named name hname, h.graphOutputs_defined name hname⟩⟩
    exact ⟨st₁, hinputs, seedScope g, hinit, st, hnodes, ⟨⟩, hreads, hresults⟩

private theorem seedName_eq_error (status : Status) (hstatus : status.code = .kModelLoad)
    (st : Scope) (name : String) (s : Status) (h : seedName status st name = .error s) :
    s.code = .kModelLoad := by
  rw [seedName, Base.check_eq_error] at h
  rcases h with ⟨-, rfl⟩ | ⟨-, hret⟩
  · exact hstatus
  · cases hret

private theorem defineOutput_eq_error (ni : Nat) (node : Node) (st : Scope) (out : String)
    (s : Status) (h : defineOutput ni node st out = .error s) : s.code = .kModelLoad := by
  rw [defineOutput, Base.check_eq_error, Base.check_eq_error, Base.bind_eq_error] at h
  rcases h with ⟨-, rfl⟩ | ⟨-, ⟨-, rfl⟩ | ⟨-, hemplace | ⟨producer, -, hret⟩⟩⟩
  · rfl
  · rfl
  · exact emplaceProducer_eq_error _ _ _ _ hemplace
  · cases hret

private theorem defineNode_eq_error (st : Scope) (x : Node × Nat) (s : Status)
    (h : defineNode st x = .error s) : s.code = .kModelLoad := by
  obtain ⟨node, ni⟩ := x
  rw [defineNode, Base.check_eq_error] at h
  rcases h with ⟨-, rfl⟩ | ⟨-, houts⟩
  · rfl
  · exact Base.foldlM_eq_error (fun s : Status ↦ s.code = .kModelLoad)
      (defineOutput_eq_error ni node) _ houts

private theorem checkInput_eq_error (defined : Finset String) (node : Node) (name : String)
    (s : Status) (h : checkInput defined node name = .error s) : s.code = .kModelLoad := by
  unfold checkInput at h
  split_ifs at h
  cases h
  rfl

private theorem checkOutput_eq_error (defined : Finset String) (out : String) (s : Status)
    (h : checkOutput defined out = .error s) : s.code = .kModelLoad := by
  rw [checkOutput, Base.check_eq_error, Base.check_eq_error] at h
  rcases h with ⟨-, rfl⟩ | ⟨-, ⟨-, rfl⟩ | ⟨-, hret⟩⟩
  · rfl
  · rfl
  · cases hret

/-- Validation fails only with `kModelLoad`. -/
theorem validateStructure_eq_error (g : Graph) (s : Status)
    (h : validateStructure g = .error s) : s.code = .kModelLoad := by
  have hfold {α : Type} (f : Scope → α → StatusOr Scope)
      (hf : ∀ st x s, f st x = .error s → s.code = .kModelLoad) {st : Scope} {xs : List α}
      (hrun : xs.foldlM f st = .error s) : s.code = .kModelLoad :=
    Base.foldlM_eq_error (fun s : Status ↦ s.code = .kModelLoad) hf xs hrun
  simp only [validateStructure, Base.bind_eq_error] at h
  rcases h with hinputs | ⟨st, -, hinit | ⟨st, -, hnodes | ⟨st, -, hreads | ⟨-, -, houts⟩⟩⟩⟩
  · exact hfold _ (seedName_eq_error _ rfl) hinputs
  · exact hfold _ (seedName_eq_error _ rfl) hinit
  · exact hfold _ defineNode_eq_error hnodes
  · exact Base.forM_eq_error (fun s : Status ↦ s.code = .kModelLoad)
      (fun node s hnode ↦ Base.forM_eq_error (fun s : Status ↦ s.code = .kModelLoad)
        (checkInput_eq_error st.defined node) _ hnode) _ hreads
  · exact Base.forM_eq_error (fun s : Status ↦ s.code = .kModelLoad)
      (checkOutput_eq_error st.defined) _ houts

end Eduort
