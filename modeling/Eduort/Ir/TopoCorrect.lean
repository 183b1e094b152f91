import Eduort.Ir.Kahn

/-!
# Correctness of the topological sort

A graph is sorted exactly when its non-empty outputs are distinct, its inputs are defined and
its edges have no cycle. The result lists every node once and respects every edge.
-/

namespace Eduort

namespace Graph

variable (g : Graph)

/-- What a graph needs for a topological order. -/
structure Sortable : Prop where
  single : (g.allOutputs.filter (· ≠ "")).Nodup
  defined : ∀ v, ∀ name ∈ g.inputsAt v, name ≠ "" → g.IsSeed name ∨ name ∈ g.allOutputs
  acyclic : Base.Acyclic g.Edge

theorem Edge.lt {g : Graph} {u v : Nat} (h : g.Edge u v) :
    u < g.nodes.length ∧ v < g.nodes.length := by
  obtain ⟨name, hin, -, hout⟩ := h
  exact ⟨g.lt_of_mem_outputsAt hout, g.lt_of_mem_inputsAt hin⟩

theorem edge_lt_left (u v : Nat) (h : g.Edge u v) : u < g.nodes.length := h.lt.1

/-- All inputs are good exactly when they are defined and no node feeds itself. -/
theorem inputsOk_iff :
    (∀ v < g.nodes.length, ∀ name ∈ g.inputsAt v, g.InputOk v name) ↔
      (∀ v, ∀ name ∈ g.inputsAt v, name ≠ "" → g.IsSeed name ∨ name ∈ g.allOutputs) ∧
        ∀ v, ¬ g.Edge v v := by
  constructor
  · intro hok
    constructor
    · intro v name hin hname
      exact (hok v (g.lt_of_mem_inputsAt hin) name hin hname).1
    · rintro v ⟨name, hin, hname, hout⟩
      exact (hok v (g.lt_of_mem_inputsAt hin) name hin hname).2 hout
  · rintro ⟨hdefined, hself⟩ v - name hin hname
    exact ⟨hdefined v name hin hname, fun hout ↦ hself v ⟨name, hin, hname, hout⟩⟩

/-- The abstract order of the graph. -/
def kahnOrder : List Nat := Eduort.kahnOrder g.Edge g.nodes.length

private theorem kahnOrder_inv : KahnInv g.Edge g.nodes.length g.kahnOrder [] :=
  Eduort.kahnOrder_inv g.edge_lt_left

/-- The abstract order lists all nodes exactly when the edges have no cycle. -/
theorem length_kahnOrder_eq_iff :
    g.kahnOrder.length = g.nodes.length ↔ Base.Acyclic g.Edge :=
  g.kahnOrder_inv.length_eq_iff fun _ _ h ↦ h.lt.2

open Classical in
/-- The nodes that neither stand on a cycle nor are reached from one. -/
noncomputable def cycleFreeNodes : Finset Nat :=
  (Finset.range g.nodes.length).filter (Base.CycleFree g.Edge)

private theorem mem_cycleFreeNodes (v : Nat) :
    v ∈ g.cycleFreeNodes ↔ v < g.nodes.length ∧ Base.CycleFree g.Edge v := by
  simp only [cycleFreeNodes, Finset.mem_filter, Finset.mem_range]

/-- The abstract order lists exactly those nodes. -/
theorem length_kahnOrder : g.kahnOrder.length = g.cycleFreeNodes.card := by
  have heq : g.kahnOrder.toFinset = g.cycleFreeNodes := by
    ext v
    rw [List.mem_toFinset, mem_cycleFreeNodes, g.kahnOrder_inv.mem_order_iff]
  rw [← heq, List.toFinset_card_of_nodup g.kahnOrder_inv.nodup_order]

end Graph

/-- What an error of the sort says about the graph. -/
inductive Graph.Diagnosis (g : Graph) : Status → Prop
  | secondProducer (out : String) (first ni : Nat) (hsingle : ¬ g.SingleProducers)
      (hout : out ≠ "") (hfirst : out ∈ g.outputsAt first) (hni : out ∈ g.outputsAt ni) :
      g.Diagnosis (secondProducerStatus out first ni)
  | undefinedValue (v : Nat) (name : String) (hin : name ∈ g.inputsAt v) (hname : name ≠ "")
      (hundefined : ¬ g.Defines name) : g.Diagnosis (undefinedStatus name)
  | selfLoop (v : Nat) (node : Node) (name : String) (hnode : g.nodes[v]? = some node)
      (hin : name ∈ node.inputs) (hname : name ≠ "") (hout : name ∈ node.outputs) :
      g.Diagnosis (selfLoopStatus node name)
  | cycle (hself : ∀ v, ¬ g.Edge v v) (hcycle : ¬ Base.Acyclic g.Edge) :
      g.Diagnosis (cycleStatus g.nodes.length g.cycleFreeNodes.card)

theorem Graph.Diagnosis.code {g : Graph} {s : Status} (h : g.Diagnosis s) :
    s.code = .kModelLoad := by
  cases h <;> rfl

/-- Without nodes there is nothing to check, and nothing to emit. -/
theorem computeTopoOrder_of_no_nodes (g : Graph) (hn : g.nodes.length = 0) :
    computeTopoOrder g = .ok [] ∧ g.SingleProducers ∧ g.kahnOrder = [] := by
  have hnodes : g.nodes = [] := List.eq_nil_of_length_eq_zero hn
  refine ⟨by rw [computeTopoOrder, if_pos hn]; rfl, ?_, ?_⟩
  · rw [Graph.SingleProducers, Graph.allOutputs, hnodes]
    exact List.nodup_nil
  · have hle := g.kahnOrder_inv.length_le
    exact List.eq_nil_of_length_eq_zero (by omega)

/-- The sort succeeds exactly when both passes in front of the queue loop do and the abstract
order is complete, and then it returns that order. -/
theorem computeTopoOrder_eq_ok (g : Graph) (order : List Nat) :
    computeTopoOrder g = .ok order ↔
      g.SingleProducers ∧ (∀ v < g.nodes.length, ∀ name ∈ g.inputsAt v, g.InputOk v name) ∧
        g.kahnOrder.length = g.nodes.length ∧ order = g.kahnOrder := by
  by_cases hn : g.nodes.length = 0
  · obtain ⟨hrun, hsingle, horder⟩ := computeTopoOrder_of_no_nodes g hn
    rw [hrun, horder]
    constructor
    · intro h
      exact ⟨hsingle, fun v hv ↦ by omega, hn.symm, Base.ok_eq_ok.mp h⟩
    · rintro ⟨-, -, -, rfl⟩
      rfl
  simp only [computeTopoOrder, if_neg hn, Base.bind_eq_ok, monadLift_eq_ok,
    ← buildProducerMap_isOk]
  constructor
  · rintro ⟨producer, hproducer, w, hw, st, hst, hret⟩
    obtain ⟨hok, rfl⟩ := (edgeLoop_eq_ok (buildProducerMap_lookup g producer hproducer) w).mp hw
    rw [kahnLoop_eq g.edge_lt_left] at hst
    cases hst
    rw [Base.check_eq_ok, not_not] at hret
    exact ⟨⟨producer, hproducer⟩, hok, hret.1, Base.ok_eq_ok.mp hret.2⟩
  · rintro ⟨⟨producer, hproducer⟩, hok, hlength, rfl⟩
    refine ⟨producer, hproducer, _,
      (edgeLoop_eq_ok (buildProducerMap_lookup g producer hproducer) _).mpr ⟨hok, rfl⟩, _,
      kahnLoop_eq g.edge_lt_left, ?_⟩
    exact if_neg (not_not.mpr hlength)

/-- The sort fails only with a diagnosis; in particular the queue loop always ends. -/
theorem computeTopoOrder_eq_error (g : Graph) (stop : Stop)
    (h : computeTopoOrder g = .error stop) : ∃ s, stop = .status s ∧ g.Diagnosis s := by
  by_cases hn : g.nodes.length = 0
  · rw [computeTopoOrder, if_pos hn] at h
    cases h
  simp only [computeTopoOrder, if_neg hn, Base.bind_eq_error, monadLift_eq_ok,
    monadLift_eq_error] at h
  rcases h with ⟨s, hs, rfl⟩ | ⟨producer, hproducer, ⟨s, hs, rfl⟩ | ⟨w, hw, hloop | hret⟩⟩
  · obtain ⟨out, first, ni, rfl, hout, hfirst, hni⟩ := buildProducerMap_eq_error g s hs
    have hsingle : ¬ g.SingleProducers := by
      rw [← buildProducerMap_isOk, hs]
      rintro ⟨producer, hok⟩
      cases hok
    exact ⟨_, rfl, .secondProducer out first ni hsingle hout hfirst hni⟩
  · obtain ⟨v, node, name, hnode, hin, hname, hcase⟩ :=
      edgeLoop_eq_error (buildProducerMap_lookup g producer hproducer) _ s hs
    rcases hcase with ⟨hundefined, rfl⟩ | ⟨hout, rfl⟩
    · have hread : name ∈ g.inputsAt v := (g.mem_inputsAt name v).mpr ⟨node, hnode, hin⟩
      exact ⟨_, rfl, .undefinedValue v name hread hname hundefined⟩
    · exact ⟨_, rfl, .selfLoop v node name hnode hin hname hout⟩
  · obtain ⟨-, rfl⟩ := (edgeLoop_eq_ok (buildProducerMap_lookup g producer hproducer) w).mp hw
    rw [kahnLoop_eq g.edge_lt_left] at hloop
    cases hloop
  · obtain ⟨st, hst, hret⟩ := hret
    obtain ⟨hok, rfl⟩ := (edgeLoop_eq_ok (buildProducerMap_lookup g producer hproducer) w).mp hw
    rw [kahnLoop_eq g.edge_lt_left] at hst
    cases hst
    rw [Base.check_eq_error] at hret
    rcases hret with ⟨hlength, rfl⟩ | ⟨-, hret⟩
    · have hcycle : ¬ g.kahnOrder.length = g.nodes.length := hlength
      rw [g.length_kahnOrder_eq_iff] at hcycle
      refine ⟨cycleStatus g.nodes.length g.kahnOrder.length, rfl, ?_⟩
      rw [g.length_kahnOrder]
      exact .cycle (g.inputsOk_iff.mp hok).2 hcycle
    · cases hret

/-- A sort that does not succeed returns `kModelLoad`. -/
theorem computeTopoOrder_failsWith (g : Graph)
    (h : ¬ ∃ order, computeTopoOrder g = .ok order) :
    FailsWith .kModelLoad (computeTopoOrder g) := by
  cases hrun : computeTopoOrder g with
  | ok order => exact absurd ⟨order, hrun⟩ h
  | error stop =>
    obtain ⟨s, rfl, hdiagnosis⟩ := computeTopoOrder_eq_error g stop hrun
    exact ⟨s, rfl, hdiagnosis.code⟩

/-- Exactly the sortable graphs are sorted. -/
theorem computeTopoOrder_isOk (g : Graph) :
    (∃ order, computeTopoOrder g = .ok order) ↔ g.Sortable := by
  simp only [computeTopoOrder_eq_ok, g.inputsOk_iff, g.length_kahnOrder_eq_iff]
  constructor
  · rintro ⟨-, hsingle, ⟨hdefined, -⟩, hacyclic, -⟩
    exact ⟨hsingle, hdefined, hacyclic⟩
  · intro h
    have hself : ∀ v, ¬ g.Edge v v := fun v hv ↦ h.acyclic v (.single hv)
    exact ⟨_, h.single, ⟨h.defined, hself⟩, h.acyclic, rfl⟩

/-- A returned order lists every node once and puts producers in front. -/
theorem computeTopoOrder_sound (g : Graph) (order : List Nat)
    (h : computeTopoOrder g = .ok order) :
    order.Perm (List.range g.nodes.length) ∧ Base.PredsFirst g.Edge order := by
  obtain ⟨-, -, hlength, rfl⟩ := (computeTopoOrder_eq_ok g order).mp h
  exact ⟨g.kahnOrder_inv.perm_of_length hlength, g.kahnOrder_inv.predsFirst⟩

/-- The sort is sound and complete: it succeeds exactly on the sortable graphs, its result
lists every node once with producers before consumers, and every failure is `kModelLoad`. -/
theorem computeTopoOrder_correct (g : Graph) :
    ((∃ order, computeTopoOrder g = .ok order) ↔ g.Sortable) ∧
      (∀ order, computeTopoOrder g = .ok order →
        order.Perm (List.range g.nodes.length) ∧
          ∀ u v, g.Edge u v → order.idxOf u < order.idxOf v) ∧
      ((¬ ∃ order, computeTopoOrder g = .ok order) →
        FailsWith .kModelLoad (computeTopoOrder g)) := by
  refine ⟨computeTopoOrder_isOk g, fun order horder ↦ ?_, computeTopoOrder_failsWith g⟩
  obtain ⟨hperm, hfirst⟩ := computeTopoOrder_sound g order horder
  refine ⟨hperm, fun u v huv ↦ (hfirst.idxOf_lt huv ?_).2⟩
  rw [hperm.mem_iff, List.mem_range]
  exact huv.lt.2

/-- A join that is listed before the two nodes it reads. -/
def joinFirst : Graph where
  graphInputs := ["X"]
  nodes := [{ opType := "Add", inputs := ["Y", "W"], outputs := ["Z"] },
    { opType := "Relu", inputs := ["X"], outputs := ["Y"] },
    { opType := "Relu", inputs := ["X"], outputs := ["W"] }]

/-- The sort moves the join behind them. -/
example : computeTopoOrder joinFirst = .ok [1, 2, 0] := by
  decide

end Eduort
