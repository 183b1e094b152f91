import Eduort.Base.Fold
import Eduort.Ir.Graph
import Mathlib.Data.List.Nodup

/-!
# Producer maps

Both structural passes fill a map from value names to the index of the node that writes
them, and stop at the first name that is already there.
-/

namespace Eduort

/-- The status for a second producer; `src/ir/validate.cpp:76` and
`src/ir/topo_sort.cpp:42`. -/
def secondProducerStatus (out : String) (first ni : Nat) : Status :=
  Status.error .kModelLoad
    (s!"value '{out}' is produced by multiple nodes (indices {first} and {ni}); " ++
      "ONNX graphs must be single-assignment")

/-- `producer.emplace(out, ni)` and the error for a second producer;
`src/ir/validate.cpp:74` and `src/ir/topo_sort.cpp:41`. -/
def emplaceProducer (producer : NameMap Nat) (out : String) (ni : Nat) :
    StatusOr (NameMap Nat) :=
  match producer.lookup out with
  | some first => .error (secondProducerStatus out first ni)
  | none => .ok (producer.insert out ni)

/-- A name gets a producer exactly when it has none. -/
theorem emplaceProducer_eq_ok (producer producer' : NameMap Nat) (out : String) (ni : Nat) :
    emplaceProducer producer out ni = .ok producer' ↔
      out ∉ producer ∧ producer' = producer.insert out ni := by
  unfold emplaceProducer
  cases hlookup : producer.lookup out with
  | none =>
    have hfresh : out ∉ producer := AList.lookup_eq_none.mp hlookup
    rw [and_iff_right hfresh]
    exact Base.ok_eq_ok
  | some first =>
    have hmem : out ∈ producer := by
      rw [← AList.lookup_isSome, hlookup]
      rfl
    exact ⟨nofun, fun h ↦ absurd hmem h.1⟩

/-- The only error is the status for a second producer, which names the first one. -/
theorem emplaceProducer_eq_error_iff (producer : NameMap Nat) (out : String) (ni : Nat)
    (s : Status) :
    emplaceProducer producer out ni = .error s ↔
      ∃ first, producer.lookup out = some first ∧ s = secondProducerStatus out first ni := by
  unfold emplaceProducer
  cases hlookup : producer.lookup out with
  | none => simp
  | some first => simp [eq_comm]

theorem emplaceProducer_eq_error (producer : NameMap Nat) (out : String) (ni : Nat) (s : Status)
    (h : emplaceProducer producer out ni = .error s) : s.code = .kModelLoad := by
  obtain ⟨first, -, rfl⟩ := (emplaceProducer_eq_error_iff producer out ni s).mp h
  rfl

namespace Graph

variable (g : Graph)

/-- All node output positions, each with the index of its node. -/
def outputPositions : List (String × Nat) :=
  g.nodes.zipIdx.flatMap fun (node, ni) ↦ node.outputs.map fun out ↦ (out, ni)

theorem mem_outputPositions (name : String) (u : Nat) :
    (name, u) ∈ g.outputPositions ↔ name ∈ g.outputsAt u := by
  simp only [outputPositions, List.mem_flatMap, List.mem_map, Prod.mk.injEq, Prod.exists,
    List.mem_zipIdx_iff_getElem?, mem_outputsAt]
  constructor
  · rintro ⟨node, ni, hnode, out, hout, rfl, rfl⟩
    exact ⟨node, hnode, hout⟩
  · rintro ⟨node, hnode, hout⟩
    exact ⟨node, u, hnode, name, hout, rfl, rfl⟩

/-- The names at the output positions are the outputs in node order. -/
theorem map_fst_outputPositions : g.outputPositions.map Prod.fst = g.allOutputs := by
  calc g.outputPositions.map Prod.fst
    _ = g.nodes.zipIdx.flatMap fun x ↦ x.1.outputs := by
      rw [outputPositions, List.map_flatMap]
      simp only [List.map_map, Function.comp_def, List.map_id']
    _ = (g.nodes.zipIdx.map Prod.fst).flatMap Node.outputs := by rw [List.flatMap_map]
    _ = g.allOutputs := by rw [List.zipIdx_map_fst, allOutputs]

theorem mem_allOutputs (name : String) : name ∈ g.allOutputs ↔ ∃ u, name ∈ g.outputsAt u := by
  rw [← map_fst_outputPositions, List.mem_map]
  simp only [Prod.exists, exists_and_right, exists_eq_right, mem_outputPositions]

/-- No non-empty name stands at two output positions. -/
def SingleProducers : Prop := (g.allOutputs.filter (· ≠ "")).Nodup

instance : Decidable g.SingleProducers := inferInstanceAs (Decidable (List.Nodup _))

/-- A non-empty name has at most one producer. -/
theorem SingleProducers.unique (h : g.SingleProducers) {name : String} (hname : name ≠ "")
    {u v : Nat} (hu : name ∈ g.outputsAt u) (hv : name ∈ g.outputsAt v) : u = v := by
  have hpositions : ((g.outputPositions.filter (·.1 ≠ "")).map Prod.fst).Nodup := by
    rw [SingleProducers, ← map_fst_outputPositions, List.filter_map] at h
    exact h
  have hmem {w : Nat} (hw : name ∈ g.outputsAt w) :
      (name, w) ∈ g.outputPositions.filter (·.1 ≠ "") :=
    List.mem_filter.mpr ⟨(g.mem_outputPositions name w).mpr hw, decide_eq_true hname⟩
  exact congrArg Prod.snd (List.inj_on_of_nodup_map hpositions (hmem hu) (hmem hv) rfl)

end Graph
end Eduort
