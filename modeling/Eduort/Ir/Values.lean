import Eduort.Base.Dataflow
import Eduort.Ir.Prepare

/-!
# Values of a graph

What an order of the nodes is for: given values for the seeds and a kernel for each node, the
graph is a network of operations on named values. Running the nodes of a prepared graph in the
stored order solves its equations, and no other schedule could compute anything else.
-/

namespace Eduort
namespace Graph

variable {V : Type}

/-- The nodes with their kernels, by index. A kernel sees omitted inputs. -/
def network (g : Graph) (kernel : Node → List (Option V) → Option (List V)) :
    Base.Network Nat String V where
  reads v := (g.inputsAt v).map fun name ↦ if name = "" then none else some name
  writes := g.outputsAt
  op v := (g.nodes[v]?.map kernel).getD fun _ ↦ some []

section Network

variable {g : Graph} {kernel : Node → List (Option V) → Option (List V)}

private theorem mem_reads (v : Nat) (name : String) :
    some name ∈ (g.network kernel).reads v ↔ name ∈ g.inputsAt v ∧ name ≠ "" := by
  simp only [network, List.mem_map]
  constructor
  · rintro ⟨name', hin, heq⟩
    split at heq
    · cases heq
    · next hname =>
      cases heq
      exact ⟨hin, hname⟩
  · rintro ⟨hin, hname⟩
    exact ⟨name, hin, if_neg hname⟩

/-- A schedule writes each name once and before it is read. -/
theorem IsSchedule.ordered {order : List Nat} (h : g.IsSchedule order) :
    (g.network kernel).Ordered order := by
  obtain ⟨defined, hrun, -⟩ := h.runs
  obtain ⟨hcan, -⟩ := (g.execute_eq_ok order defined).mp hrun
  have hwrites := (g.writes_iff order).mp fun front v back hsplit ↦
    ⟨(hcan front v back hsplit).writes, (hcan front v back hsplit).distinct⟩
  refine ⟨hwrites.1, fun front v back hsplit name hread u hu hout ↦ ?_⟩
  obtain ⟨hin, hname⟩ := (mem_reads v name).mp hread
  have hdefined := (hcan front v back hsplit).reads name hin hname
  obtain ⟨later, rest, hlater⟩ := List.append_of_mem hu
  have hsplit' : order = (front ++ later) ++ u :: rest := by
    rw [hsplit, hlater, List.append_assoc]
  apply (hcan (front ++ later) u rest hsplit').writes name hout
  rw [mem_definedAfter] at hdefined ⊢
  rcases hdefined with hseed | ⟨w, hw, hwout⟩
  · exact Or.inl hseed
  · exact Or.inr ⟨w, List.mem_append_left later hw, hwout⟩

/-- A run on names is followed by a run on values, if the kernels do not fail. -/
theorem run_of_execute (hcomputes : (g.network kernel).Computes) {feeds : String → Option V}
    (hfeeds : ∀ name, feeds name ≠ none ↔ g.IsSeed name) {order : List Nat}
    {defined : Finset String} (h : g.execute order = .ok defined) :
    ∃ env, (g.network kernel).run order feeds = some env ∧
      ∀ name, env name ≠ none ↔ name ∈ defined := by
  induction order using List.reverseRecOn generalizing defined with
  | nil =>
    cases h
    refine ⟨feeds, rfl, fun name ↦ ?_⟩
    rw [hfeeds, mem_seedNames]
  | append_singleton order v ih =>
    rw [execute, Base.foldlM_concat, Base.bind_eq_ok] at h
    obtain ⟨before, hbefore, hnode⟩ := h
    obtain ⟨env, hrun, henv⟩ := ih hbefore
    obtain ⟨hcan, rfl⟩ := (g.runNode_eq_ok before defined v).mp hnode
    have hreads (name : String) (hread : some name ∈ (g.network kernel).reads v) :
        env name ≠ none := by
      obtain ⟨hin, hname⟩ := (mem_reads v name).mp hread
      exact (henv name).mpr (hcan.reads name hin hname)
    obtain ⟨env', hstep, henv'⟩ := hcomputes.step hreads hcan.distinct
    refine ⟨env', ?_, fun name ↦ ?_⟩
    · rw [Base.Network.run, List.foldlM_append]
      show Option.bind ((g.network kernel).run order feeds) _ = _
      rw [hrun]
      simp only [Option.bind_some, List.foldlM_cons, hstep]
      rfl
    · rw [henv', henv, Finset.mem_union, List.mem_toFinset]
      rfl

/-- A node finds the values that it reads, and writes each name once, where there is no value
yet. -/
structure Fresh (env : String → Option V) (v : Nat) : Prop where
  reads : ∀ name ∈ g.inputsAt v, name ≠ "" → env name ≠ none
  writes : ∀ name ∈ g.outputsAt v, env name = none
  distinct : (g.outputsAt v).Nodup

/-- In a run on values, every node does so behind those in front of it. -/
theorem fresh_of_execute (hcomputes : (g.network kernel).Computes) {feeds : String → Option V}
    (hfeeds : ∀ name, feeds name ≠ none ↔ g.IsSeed name) {front back : List Nat} {v : Nat}
    {defined : Finset String} (h : g.execute (front ++ v :: back) = .ok defined) :
    ∃ env, (g.network kernel).run front feeds = some env ∧ g.Fresh env v := by
  obtain ⟨env, hrun, henv⟩ := run_of_execute hcomputes hfeeds (g.execute_prefix h)
  have hcan : g.CanRun (g.definedAfter front) v :=
    ((g.execute_eq_ok _ _).mp h).1 front v back rfl
  refine ⟨env, hrun, fun name hread hname ↦ ?_, fun name hwrite ↦ ?_, hcan.distinct⟩
  · exact (henv name).mpr (hcan.reads name hread hname)
  · exact not_not.mp ((henv name).not.mpr (hcan.writes name hwrite))

end Network

end Graph

variable {V : Type}

/-- The stored order of a prepared graph is a schedule. -/
theorem isSchedule_of_prepared {g : Graph} (h : (prepareGraphStructure g).1 = .ok ()) :
    g.IsSchedule (prepareGraphStructure g).2.topoOrder := by
  rcases prepareGraphStructure_cases g with
    ⟨order, hvalid, horder, hrun⟩ | ⟨-, s, -, hrun⟩
  · rw [hrun]
    have hwf := (validateStructure_eq_ok _).mp hvalid
    obtain ⟨hperm, hfirst⟩ := computeTopoOrder_sound _ order horder
    exact (g.isSchedule_topoOrder [] order).mp (hwf.isSchedule hperm hfirst)
  · rw [hrun] at h
    cases h

/-- Running the nodes of a prepared graph in the stored order yields exactly the values that solve
the equations of all nodes, and every other schedule yields the same. -/
theorem prepareGraphStructure_solves (g : Graph) (h : (prepareGraphStructure g).1 = .ok ())
    (kernel : Node → List (Option V) → Option (List V)) (feeds : String → Option V) :
    (∀ env, (g.network kernel).run (prepareGraphStructure g).2.topoOrder feeds = some env ↔
      (g.network kernel).Solves (List.range g.nodes.length) feeds env) ∧
    ∀ order, g.IsSchedule order → (g.network kernel).run order feeds =
      (g.network kernel).run (prepareGraphStructure g).2.topoOrder feeds := by
  have hschedule := isSchedule_of_prepared h
  constructor
  · intro env
    rw [hschedule.ordered.run_eq_some_iff]
    exact ⟨fun hsolves ↦ hsolves.perm hschedule.perm,
      fun hsolves ↦ hsolves.perm hschedule.perm.symm⟩
  · intro order horder
    exact horder.ordered.run_eq_of_perm hschedule.ordered
      (horder.perm.trans hschedule.perm.symm)

/-- Every output is the sum of the inputs. -/
def sumKernel (node : Node) (inputs : List (Option Nat)) : Option (List Nat) :=
  some (node.outputs.map fun _ ↦ (inputs.map fun input ↦ input.getD 0).sum)

theorem prepareGraphStructure_solves_joinFirst :
    ∃ env, (joinFirst.network sumKernel).Solves [0, 1, 2]
      (fun name ↦ if name = "X" then some 1 else none) env ∧ env "Z" = some 2 := by
  have horder : (prepareGraphStructure joinFirst).2.topoOrder = [1, 2, 0] := by decide
  obtain ⟨hsolves, -⟩ := prepareGraphStructure_solves joinFirst (by decide) sumKernel
    fun name ↦ if name = "X" then some 1 else none
  rw [horder] at hsolves
  exact ⟨_, (hsolves _).mp rfl, by decide⟩

/-- If every seed has a value and no kernel fails, running the nodes of a prepared graph in the
stored order never reads a missing value and never writes a value twice, and gives a value to
everything that the graph defines, and so to every graph output. -/
theorem prepareGraphStructure_materializes (g : Graph)
    (h : (prepareGraphStructure g).1 = .ok ())
    (kernel : Node → List (Option V) → Option (List V))
    (hkernel : ∀ node ∈ g.nodes, ∀ inputs, inputs.length = node.inputs.length →
      ∃ values, kernel node inputs = some values ∧ values.length = node.outputs.length)
    (feeds : String → Option V) (hfeeds : ∀ name, feeds name ≠ none ↔ g.IsSeed name) :
    (∀ front v back, (prepareGraphStructure g).2.topoOrder = front ++ v :: back →
      ∃ env, (g.network kernel).run front feeds = some env ∧ g.Fresh env v) ∧
    ∃ env, (g.network kernel).run (prepareGraphStructure g).2.topoOrder feeds = some env ∧
      (∀ name, env name ≠ none ↔ g.Defines name) ∧
        ∀ out ∈ g.graphOutputs, ∃ value, env out = some value := by
  have hschedule := isSchedule_of_prepared h
  obtain ⟨defined, hrun, houts⟩ := hschedule.runs
  have hcomputes : (g.network kernel).Computes := by
    intro v inputs hlength
    simp only [Graph.network, Graph.outputsAt, Graph.inputsAt, List.length_map] at hlength ⊢
    cases hnode : g.nodes[v]? with
    | none => exact ⟨[], rfl, rfl⟩
    | some node =>
      rw [hnode] at hlength
      exact hkernel node (List.mem_of_getElem? hnode) inputs hlength
  obtain ⟨env, henv, hdefined⟩ := Graph.run_of_execute hcomputes hfeeds hrun
  refine ⟨fun front v back hsplit ↦ ?_, env, henv, fun name ↦ ?_, fun out hout ↦ ?_⟩
  · rw [hsplit] at hrun
    exact Graph.fresh_of_execute hcomputes hfeeds hrun
  · rw [hdefined, ((g.execute_eq_ok _ _).mp hrun).2, Graph.definedAfter_perm hschedule.perm]
  · exact Option.ne_none_iff_exists'.mp ((hdefined out).mpr (houts out hout))

theorem prepareGraphStructure_materializes_joinFirst :
    ∃ env, (joinFirst.network sumKernel).run (prepareGraphStructure joinFirst).2.topoOrder
      (fun name ↦ if name = "X" then some 1 else none) = some env ∧
        (∀ name, env name ≠ none ↔ joinFirst.Defines name) ∧
          ∃ env₁, (joinFirst.network sumKernel).run [1]
            (fun name ↦ if name = "X" then some 1 else none) = some env₁ ∧
              joinFirst.Fresh env₁ 2 := by
  have hseed (name : String) : (if name = "X" then some 1 else none) ≠ none ↔
      joinFirst.IsSeed name := by
    simp [Graph.IsSeed, joinFirst]
  obtain ⟨hfresh, env, hrun, hdefined, -⟩ := prepareGraphStructure_materializes joinFirst
    (by decide) sumKernel (fun node _ inputs _ ↦ ⟨_, rfl, List.length_map _⟩) _ hseed
  exact ⟨env, hrun, hdefined, hfresh [1] 2 [0] (by decide)⟩

end Eduort
