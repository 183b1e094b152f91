import Eduort.Base.Table
import Eduort.Ir.TopoSort
import Mathlib.Data.Finset.Card
import Mathlib.Data.Finset.Filter
import Mathlib.Data.Finset.Range

/-!
# The wiring that the edge loop builds

Closed forms of the two passes before the queue loop. The producer map answers with the node
that writes a name; the adjacency lists hold the consumers in ascending order, and the
in-degrees count distinct producers.
-/

namespace Eduort

/-! ### Producer map -/

/-- The map answers with the node of each non-empty name among the positions. -/
def ProducersOf (positions : List (String × Nat)) (producer : NameMap Nat) : Prop :=
  ∀ name u, producer.lookup name = some u ↔ name ≠ "" ∧ (name, u) ∈ positions

private theorem recordProducer_eq_ok (ni : Nat) (producer producer' : NameMap Nat) (out : String) :
    recordProducer ni producer out = .ok producer' ↔
      (out ≠ "" → out ∉ producer) ∧
        producer' = if out = "" then producer else producer.insert out ni := by
  unfold recordProducer
  split
  · next h => rw [Base.ok_eq_ok, and_iff_right fun hne ↦ absurd h hne]
  · next h => rw [emplaceProducer_eq_ok, imp_iff_right h]

private theorem ProducersOf.mem_iff {positions : List (String × Nat)} {producer : NameMap Nat}
    (h : ProducersOf positions producer) (name : String) :
    name ∈ producer ↔ name ≠ "" ∧ ∃ u, (name, u) ∈ positions := by
  rw [← AList.lookup_isSome, Option.isSome_iff_exists]
  simp only [h name, exists_and_left]

/-- Recording one more position. -/
theorem ProducersOf.record {positions : List (String × Nat)} {producer producer' : NameMap Nat}
    {x : String × Nat} (h : ProducersOf positions producer)
    (hstep : recordProducer x.2 producer x.1 = .ok producer') :
    ProducersOf (positions ++ [x]) producer' := by
  obtain ⟨out, ni⟩ := x
  obtain ⟨hfresh, rfl⟩ := (recordProducer_eq_ok ni producer producer' out).mp hstep
  intro name u
  rw [List.mem_append, List.mem_singleton, Prod.mk.injEq]
  by_cases hout : out = ""
  · rw [if_pos hout, h name u]
    constructor
    · rintro ⟨hname, hmem⟩
      exact ⟨hname, Or.inl hmem⟩
    · rintro ⟨hname, hmem | ⟨heq, -⟩⟩
      · exact ⟨hname, hmem⟩
      · exact absurd (heq.trans hout) hname
  rw [if_neg hout]
  by_cases hname : name = out
  · subst hname
    have hnone : ∀ v, (name, v) ∉ positions := fun v hv ↦
      hfresh hout ((h.mem_iff name).mpr ⟨hout, v, hv⟩)
    rw [AList.lookup_insert]
    constructor
    · intro hni
      exact ⟨hout, Or.inr ⟨rfl, (Option.some.inj hni).symm⟩⟩
    · rintro ⟨-, hmem | ⟨-, rfl⟩⟩
      · exact absurd hmem (hnone u)
      · rfl
  · rw [AList.lookup_insert_ne hname, h name u]
    constructor
    · rintro ⟨hne, hmem⟩
      exact ⟨hne, Or.inl hmem⟩
    · rintro ⟨hne, hmem | ⟨heq, -⟩⟩
      · exact ⟨hne, hmem⟩
      · exact absurd heq hname

/-- The nested loops run over all output positions. -/
theorem buildProducerMap_eq (g : Graph) :
    buildProducerMap g =
      g.outputPositions.foldlM (fun producer x ↦ recordProducer x.2 producer x.1) ∅ := by
  rw [Graph.outputPositions, Base.foldlM_flatMap]
  simp only [List.foldlM_map]
  rfl

private theorem producersOf_nil : ProducersOf [] ∅ := by
  intro name u
  simp

/-- A finished map answers with the producer of each non-empty output name. -/
theorem buildProducerMap_lookup (g : Graph) (producer : NameMap Nat)
    (h : buildProducerMap g = .ok producer) (name : String) (u : Nat) :
    producer.lookup name = some u ↔ name ≠ "" ∧ name ∈ g.outputsAt u := by
  rw [buildProducerMap_eq] at h
  have hall := Base.foldlM_invariant ProducersOf producersOf_nil
    (fun _ _ _ _ hs hstep ↦ hs.record hstep) _ h
  rw [hall name u, g.mem_outputPositions]

/-- The map is built exactly when no non-empty name has two output positions. -/
theorem buildProducerMap_isOk (g : Graph) :
    (∃ producer, buildProducerMap g = .ok producer) ↔ g.SingleProducers := by
  have hsingle : g.SingleProducers ↔
      g.outputPositions.Pairwise fun x y ↦ x.1 ≠ "" → y.1 ≠ "" → x.1 ≠ y.1 := by
    rw [Graph.SingleProducers, ← g.map_fst_outputPositions, List.Nodup, List.pairwise_filter,
      List.pairwise_map]
    simp only [decide_eq_true_eq]
  rw [buildProducerMap_eq, hsingle, Base.foldlM_isOk_iff_pairwise ProducersOf (fun _ ↦ True)
    (fun x y ↦ x.1 ≠ "" → y.1 ≠ "" → x.1 ≠ y.1) producersOf_nil
    (fun _ _ _ _ hs hstep ↦ hs.record hstep)]
  · exact and_iff_right fun _ _ ↦ trivial
  · intro positions x producer hs
    simp only [recordProducer_eq_ok, exists_and_left, exists_eq, and_true, true_and, hs.mem_iff]
    constructor
    · rintro hfresh y hy hyname hxname heq
      exact hfresh hxname ⟨hxname, y.2, heq ▸ hy⟩
    · rintro hall hxname ⟨-, u, hu⟩
      exact hall (x.1, u) hu hxname hxname rfl

/-- Building the map fails only at a non-empty name with two output positions. -/
theorem buildProducerMap_eq_error (g : Graph) (s : Status) (h : buildProducerMap g = .error s) :
    ∃ out first ni, s = secondProducerStatus out first ni ∧ out ≠ "" ∧
      out ∈ g.outputsAt first ∧ out ∈ g.outputsAt ni := by
  rw [buildProducerMap_eq] at h
  obtain ⟨front, ⟨out, ni⟩, back, producer, hsplit, hfront, hstep⟩ :=
    (Base.foldlM_eq_error_iff _).mp h
  have hproducer := Base.foldlM_invariant ProducersOf producersOf_nil
    (fun _ _ _ _ hs hstep ↦ hs.record hstep) _ hfront
  rw [recordProducer] at hstep
  split at hstep
  · cases hstep
  · next hout =>
    obtain ⟨first, hlookup, rfl⟩ := (emplaceProducer_eq_error_iff _ _ _ _).mp hstep
    have hfirst : (out, first) ∈ g.outputPositions := by
      rw [hsplit]
      exact List.mem_append_left _ ((hproducer out first).mp hlookup).2
    have hni : (out, ni) ∈ g.outputPositions := by
      rw [hsplit]
      exact List.mem_append_right _ List.mem_cons_self
    exact ⟨out, first, ni, rfl, hout, (g.mem_outputPositions out first).mp hfirst,
      (g.mem_outputPositions out ni).mp hni⟩

/-! ### Adjacency lists and in-degrees -/

section Wiring

variable (E : Nat → Nat → Prop) [DecidableRel E] (n : Nat)

/-- The nodes with an edge to the node. -/
def preds (v : Nat) : Finset Nat := (Finset.range n).filter (E · v)

/-- The wiring of the edges into the first `k` nodes. -/
def wiringUpTo (k : Nat) : Wiring where
  adj := Base.table n fun u ↦ (List.range k).filter (E u ·)
  indeg := Base.table n fun v ↦ if v < k then (preds E n v).card else 0

/-- The wiring while the inputs of node `k` are processed, with the producers seen so far. -/
def wiringDuring (k : Nat) (seen : Finset Nat) : Wiring where
  adj := Base.table n fun u ↦ (List.range k).filter (E u ·) ++ if u ∈ seen then [k] else []
  indeg := Base.table n fun v ↦
    if v = k then seen.card else if v < k then (preds E n v).card else 0

private theorem wiringUpTo_zero :
    wiringUpTo E n 0 = { adj := .replicate n [], indeg := .replicate n 0 } := by
  rw [Base.replicate_eq_table, Base.replicate_eq_table]
  rfl

private theorem wiringDuring_empty (k : Nat) : wiringDuring E n k ∅ = wiringUpTo E n k := by
  simp only [wiringDuring, wiringUpTo, Wiring.mk.injEq]
  constructor
  · apply Base.table_congr
    intro u _
    rw [if_neg (Finset.notMem_empty u), List.append_nil]
  · apply Base.table_congr
    intro v _
    split
    · next h => rw [h, if_neg (Nat.lt_irrefl k), Finset.card_empty]
    · rfl

/-- Once all its producers are seen, the node is wired. -/
theorem wiringDuring_preds (k : Nat) :
    wiringDuring E n k (preds E n k) = wiringUpTo E n (k + 1) := by
  simp only [wiringDuring, wiringUpTo, Wiring.mk.injEq]
  constructor
  · apply Base.table_congr
    intro u hu
    have hmem : u ∈ preds E n k ↔ E u k := by
      rw [preds, Finset.mem_filter, Finset.mem_range, and_iff_right hu]
    rw [List.range_succ, List.filter_append, List.filter_singleton]
    simp only [hmem, Bool.cond_decide]
  · apply Base.table_congr
    intro v _
    by_cases hv : v = k
    · rw [if_pos hv, if_pos (by omega), hv]
    · rw [if_neg hv]
      by_cases hlt : v < k
      · rw [if_pos hlt, if_pos (by omega)]
      · rw [if_neg hlt, if_neg (by omega)]

/-- An edge from a new producer. -/
theorem addEdge_wiringDuring (k pred : Nat) (seen : Finset Nat) (h : pred ∉ seen) :
    (wiringDuring E n k seen).addEdge pred k = wiringDuring E n k (insert pred seen) := by
  simp only [wiringDuring, Wiring.addEdge, Base.modify_table, Wiring.mk.injEq]
  constructor
  · apply Base.table_congr
    intro u _
    rw [Function.update_apply]
    by_cases hu : u = pred
    · rw [if_pos hu, hu, if_neg h, if_pos (Finset.mem_insert_self pred seen), List.append_nil]
    · rw [if_neg hu]
      simp only [Finset.mem_insert, hu, false_or]
  · apply Base.table_congr
    intro v _
    rw [Function.update_apply]
    by_cases hv : v = k
    · rw [if_pos hv, if_pos trivial, if_pos hv, Finset.card_insert_of_notMem h]
    · rw [if_neg hv, if_neg hv, if_neg hv]

end Wiring

/-! ### The edge loop -/

namespace Graph

variable (g : Graph)

/-- Only nodes read or write values. -/
theorem lt_of_mem_inputsAt {name : String} {v : Nat} (h : name ∈ g.inputsAt v) :
    v < g.nodes.length := by
  obtain ⟨node, hnode, -⟩ := (g.mem_inputsAt name v).mp h
  exact (List.getElem?_eq_some_iff.mp hnode).1

theorem lt_of_mem_outputsAt {name : String} {u : Nat} (h : name ∈ g.outputsAt u) :
    u < g.nodes.length := by
  obtain ⟨node, hnode, -⟩ := (g.mem_outputsAt name u).mp h
  exact (List.getElem?_eq_some_iff.mp hnode).1

/-- The input is defined, and not by the node itself. -/
def InputOk (v : Nat) (name : String) : Prop :=
  name ≠ "" → g.Defines name ∧ name ∉ g.outputsAt v

/-- The producers of some names. -/
def producers (names : List String) : Finset Nat :=
  (Finset.range g.nodes.length).filter fun u ↦ ∃ name ∈ names, name ≠ "" ∧ name ∈ g.outputsAt u

private theorem mem_producers (names : List String) (u : Nat) :
    u ∈ g.producers names ↔ ∃ name ∈ names, name ≠ "" ∧ name ∈ g.outputsAt u := by
  rw [producers, Finset.mem_filter, Finset.mem_range]
  exact and_iff_right_of_imp fun ⟨_, _, _, h⟩ ↦ g.lt_of_mem_outputsAt h

private theorem producers_inputsAt (v : Nat) :
    g.producers (g.inputsAt v) = preds g.Edge g.nodes.length v :=
  rfl

private theorem producers_append (names names' : List String) :
    g.producers (names ++ names') = g.producers names ∪ g.producers names' := by
  ext u
  simp only [Finset.mem_union, mem_producers, List.mem_append, or_and_right, exists_or]

private theorem producers_omitted : g.producers [""] = ∅ := by
  ext u
  simp [mem_producers]

theorem isSeedValue_iff (name : String) : isSeedValue g name = true ↔ g.IsSeed name := by
  unfold isSeedValue IsSeed
  split
  · next h => exact ⟨fun _ ↦ Or.inr h, fun _ ↦ rfl⟩
  · next h => simp [h]

end Graph

section EdgeLoop

variable {g : Graph} {producer : NameMap Nat}
  (hproducer : ∀ name u, producer.lookup name = some u ↔ name ≠ "" ∧ name ∈ g.outputsAt u)
include hproducer

/-- A name that the map answers for has that one producer. -/
theorem producers_of_lookup (name : String) (pred : Nat) (h : producer.lookup name = some pred) :
    g.producers [name] = {pred} := by
  obtain ⟨hname, hpred⟩ := (hproducer name pred).mp h
  ext u
  rw [g.mem_producers, Finset.mem_singleton]
  constructor
  · rintro ⟨name', hmem, -, hu⟩
    rw [List.mem_singleton.mp hmem] at hu
    have hlookup := (hproducer name u).mpr ⟨hname, hu⟩
    exact Option.some.inj (hlookup.symm.trans h)
  · rintro rfl
    exact ⟨name, List.mem_singleton_self name, hname, hpred⟩

/-- A non-empty name that the map does not answer for has no producer. -/
theorem producers_of_lookup_none (name : String) (h : producer.lookup name = none) :
    g.producers [name] = ∅ := by
  ext u
  rw [g.mem_producers]
  constructor
  · rintro ⟨name', hmem, hname, hu⟩
    rw [List.mem_singleton.mp hmem] at hname hu
    rw [(hproducer name u).mpr ⟨hname, hu⟩] at h
    cases h
  · intro hu
    exact absurd hu (Finset.notMem_empty u)

/-- A produced input is good exactly when another node produces it. -/
theorem inputOk_of_lookup (k : Nat) (name : String) (pred : Nat)
    (h : producer.lookup name = some pred) : g.InputOk k name ↔ pred ≠ k := by
  obtain ⟨hname, hpred⟩ := (hproducer name pred).mp h
  have hdefined : g.Defines name := Or.inr ((g.mem_allOutputs name).mpr ⟨pred, hpred⟩)
  constructor
  · rintro hok rfl
    exact (hok hname).2 hpred
  · intro hne _
    refine ⟨hdefined, fun hk ↦ hne ?_⟩
    have hlookup := (hproducer name k).mpr ⟨hname, hk⟩
    exact Option.some.inj (h.symm.trans hlookup)

/-- An input without a producer is good exactly when it is a seed. -/
theorem inputOk_of_lookup_none (k : Nat) (name : String) (hname : name ≠ "")
    (h : producer.lookup name = none) : g.InputOk k name ↔ g.IsSeed name := by
  have hnone : ∀ u, name ∉ g.outputsAt u := by
    intro u hu
    rw [(hproducer name u).mpr ⟨hname, hu⟩] at h
    cases h
  constructor
  · intro hok
    rcases (hok hname).1 with hseed | hout
    · exact hseed
    · obtain ⟨u, hu⟩ := (g.mem_allOutputs name).mp hout
      exact absurd hu (hnone u)
  · intro hseed _
    exact ⟨Or.inl hseed, hnone k⟩

/-- One input adds the edge from its producer, if that one is new. -/
theorem addInputEdge_eq_ok (k : Nat) (node : Node) (seen : Finset Nat) (name : String)
    (st : Wiring × Finset Nat) :
    addInputEdge g producer k node (wiringDuring g.Edge g.nodes.length k seen, seen) name =
        .ok st ↔
      g.InputOk k name ∧
        st = (wiringDuring g.Edge g.nodes.length k (seen ∪ g.producers [name]),
          seen ∪ g.producers [name]) := by
  unfold addInputEdge
  by_cases hname : name = ""
  · have hok : g.InputOk k "" := fun hne ↦ absurd rfl hne
    rw [if_pos hname, hname, g.producers_omitted, Finset.union_empty, Base.ok_eq_ok,
      and_iff_right hok]
  rw [if_neg hname]
  cases hlookup : producer.lookup name with
  | none =>
    rw [producers_of_lookup_none hproducer name hlookup, Finset.union_empty,
      inputOk_of_lookup_none hproducer k name hname hlookup, ← g.isSeedValue_iff]
    dsimp only
    rw [Base.check_eq_ok, not_not, Base.ok_eq_ok]
  | some pred =>
    rw [producers_of_lookup hproducer name pred hlookup,
      inputOk_of_lookup hproducer k name pred hlookup, Finset.union_singleton]
    dsimp only
    rw [Base.check_eq_ok]
    apply and_congr_right
    intro _
    split
    · next hseen => rw [Finset.insert_eq_of_mem hseen, Base.ok_eq_ok]
    · next hseen => rw [addEdge_wiringDuring _ _ k pred seen hseen, Base.ok_eq_ok]

/-- The inputs of one node are wired exactly when all are good. -/
theorem foldlM_addInputEdge (k : Nat) (node : Node) (names : List String)
    (st : Wiring × Finset Nat) :
    names.foldlM (addInputEdge g producer k node)
        (wiringUpTo g.Edge g.nodes.length k, ∅) = .ok st ↔
      (∀ name ∈ names, g.InputOk k name) ∧
        st = (wiringDuring g.Edge g.nodes.length k (g.producers names), g.producers names) := by
  apply Base.foldlM_eq_ok_iff fun names (st : Wiring × Finset Nat) ↦
    (∀ name ∈ names, g.InputOk k name) ∧
      st = (wiringDuring g.Edge g.nodes.length k (g.producers names), g.producers names)
  · intro st
    have hnil : g.producers [] = ∅ := by
      ext u
      simp [g.mem_producers]
    rw [hnil, wiringDuring_empty]
    exact ⟨fun h ↦ h.2.symm, fun h ↦ ⟨nofun, h.symm⟩⟩
  · intro names name st'
    rw [g.producers_append, List.forall_mem_append, List.forall_mem_singleton]
    constructor
    · rintro ⟨⟨hnames, hname⟩, hst⟩
      exact ⟨_, ⟨hnames, rfl⟩, (addInputEdge_eq_ok hproducer k node _ name st').mpr ⟨hname, hst⟩⟩
    · rintro ⟨_, ⟨hnames, rfl⟩, hstep⟩
      obtain ⟨hname, hst⟩ := (addInputEdge_eq_ok hproducer k node _ name st').mp hstep
      exact ⟨⟨hnames, hname⟩, hst⟩

/-- The edge loop passes exactly when all inputs of all nodes are good, and then leaves the
whole wiring. -/
theorem edgeLoop_eq_ok (w : Wiring) :
    g.nodes.zipIdx.foldlM (addNodeEdges g producer)
        { adj := .replicate g.nodes.length [], indeg := .replicate g.nodes.length 0 } = .ok w ↔
      (∀ v < g.nodes.length, ∀ name ∈ g.inputsAt v, g.InputOk v name) ∧
        w = wiringUpTo g.Edge g.nodes.length g.nodes.length := by
  apply Base.foldlM_zipIdx_eq_ok_iff g.nodes fun k w ↦
    (∀ v < k, ∀ name ∈ g.inputsAt v, g.InputOk v name) ∧ w = wiringUpTo g.Edge g.nodes.length k
  · intro w
    rw [wiringUpTo_zero]
    exact ⟨fun h ↦ h.2.symm, fun h ↦ ⟨fun v hv ↦ absurd hv (Nat.not_lt_zero v), h.symm⟩⟩
  · intro k node w' hnode
    simp only [addNodeEdges, Base.bind_eq_ok, Nat.forall_lt_succ_right]
    rw [← wiringDuring_preds, ← g.producers_inputsAt, g.inputsAt_of_getElem? hnode]
    constructor
    · rintro ⟨⟨hbefore, hk⟩, rfl⟩
      exact ⟨_, ⟨hbefore, rfl⟩, _,
        (foldlM_addInputEdge hproducer k node node.inputs _).mpr ⟨hk, rfl⟩, rfl⟩
    · rintro ⟨_, ⟨hbefore, rfl⟩, st, hst, heq⟩
      obtain ⟨hk, rfl⟩ := (foldlM_addInputEdge hproducer k node node.inputs st).mp hst
      exact ⟨⟨hbefore, hk⟩, Base.ok_eq_ok.mp heq⟩

/-- One input fails only when it is undefined or produced by the node itself. -/
theorem addInputEdge_eq_error (k : Nat) (node : Node) (st : Wiring × Finset Nat) (name : String)
    (s : Status) (h : addInputEdge g producer k node st name = .error s) :
    name ≠ "" ∧ (¬ g.Defines name ∧ s = undefinedStatus name ∨
      name ∈ g.outputsAt k ∧ s = selfLoopStatus node name) := by
  unfold addInputEdge at h
  split at h
  · cases h
  · next hname =>
    refine ⟨hname, ?_⟩
    split at h
    · next hlookup =>
      split at h
      · next hseed =>
        left
        rw [g.isSeedValue_iff, ← inputOk_of_lookup_none hproducer k name hname hlookup] at hseed
        refine ⟨fun hdefined ↦ hseed fun _ ↦ ⟨hdefined, fun hk ↦ ?_⟩, (Except.error.inj h).symm⟩
        rw [(hproducer name k).mpr ⟨hname, hk⟩] at hlookup
        cases hlookup
      · cases h
    · next pred hlookup =>
      split at h
      · next hpred =>
        right
        subst hpred
        exact ⟨((hproducer name pred).mp hlookup).2, (Except.error.inj h).symm⟩
      · split at h <;> cases h

/-- The edge loop fails only at an input that is undefined or produced by its own node. -/
theorem edgeLoop_eq_error (w : Wiring) (s : Status)
    (h : g.nodes.zipIdx.foldlM (addNodeEdges g producer) w = .error s) :
    ∃ (v : Nat) (node : Node) (name : String), g.nodes[v]? = some node ∧
      name ∈ node.inputs ∧ name ≠ "" ∧
      (¬ g.Defines name ∧ s = undefinedStatus name ∨
        name ∈ node.outputs ∧ s = selfLoopStatus node name) := by
  obtain ⟨front, ⟨node, v⟩, back, w', hsplit, -, hnode⟩ := (Base.foldlM_eq_error_iff _).mp h
  have hmem : (node, v) ∈ g.nodes.zipIdx := by
    rw [hsplit]
    exact List.mem_append_right _ List.mem_cons_self
  have hget : g.nodes[v]? = some node := List.mem_zipIdx_iff_getElem?.mp hmem
  rw [addNodeEdges, Base.bind_eq_error] at hnode
  rcases hnode with hinputs | ⟨st, -, hret⟩
  · obtain ⟨before, name, after, st, hinputsEq, -, hname⟩ :=
      (Base.foldlM_eq_error_iff _).mp hinputs
    have hin : name ∈ node.inputs := by
      rw [hinputsEq]
      exact List.mem_append_right _ List.mem_cons_self
    have hcase := addInputEdge_eq_error hproducer v node st name s hname
    rw [g.outputsAt_of_getElem? hget] at hcase
    exact ⟨v, node, name, hget, hin, hcase.1, hcase.2⟩
  · cases hret

end EdgeLoop

end Eduort
