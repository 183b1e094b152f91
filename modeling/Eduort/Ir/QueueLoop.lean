import Eduort.Base.Run
import Eduort.Ir.TopoCorrect

/-!
# Every iteration of the queue loop

The queue loop as a run of single iterations, for every graph that reaches it, cyclic ones
included. Each state on the run counts exactly the producers that are not emitted yet, so no
counter wraps, no node is queued twice, and the run ends after one iteration for each node at
most.
-/

namespace Eduort

/-- One iteration of the queue loop, none once the queue is empty;
`src/ir/topo_sort.cpp:120–130`. -/
def popNode (adj : List (List Nat)) (st : KahnState) : Option KahnState :=
  match st.ready with
  | [] => none
  | u :: rest => some (emitNode adj st u rest)

/-- The state in front of the queue loop; `src/ir/topo_sort.cpp:112–119`. -/
def queueStart (n : Nat) (w : Wiring) : KahnState where
  ready := (List.range n).filter fun i ↦ w.indeg.getD i 0 = 0
  order := []
  indeg := w.indeg

/-- The sort of the graph gets to the queue loop, with this wiring. -/
def Graph.ReachesQueueLoop (g : Graph) (w : Wiring) : Prop :=
  g.nodes.length ≠ 0 ∧ ∃ producer, buildProducerMap g = .ok producer ∧
    g.nodes.zipIdx.foldlM (addNodeEdges g producer)
      { adj := .replicate g.nodes.length [], indeg := .replicate g.nodes.length 0 } = .ok w

/-- What the passes in front of the queue loop have built: ascending lists of consumers, each
consumer once, and the numbers of distinct producers. -/
structure Graph.Wired (g : Graph) (w : Wiring) : Prop where
  adj_length : w.adj.length = g.nodes.length
  indeg_length : w.indeg.length = g.nodes.length
  ascending : ∀ u < g.nodes.length, (w.adj.getD u []).Pairwise (· < ·)
  mem_adj : ∀ u < g.nodes.length, ∀ v, v ∈ w.adj.getD u [] ↔ g.Edge u v
  indeg_eq : ∀ v < g.nodes.length, w.indeg.getD v 0 = (preds g.Edge g.nodes.length v).card

/-- What holds in front of every iteration. The order and the queue together list the nodes
that have been pushed so far. -/
structure Graph.QueueInv (g : Graph) (st : KahnState) : Prop where
  indeg_length : st.indeg.length = g.nodes.length
  indeg_eq : ∀ v < g.nodes.length, st.indeg.getD v 0 =
    ((preds g.Edge g.nodes.length v).filter (· ∉ st.order)).card
  pushed_lt : ∀ v ∈ st.order ++ st.ready, v < g.nodes.length
  pushed_once : (st.order ++ st.ready).Nodup
  pushed_iff : ∀ v < g.nodes.length,
    v ∈ st.order ∨ v ∈ st.ready ↔ st.indeg.getD v 0 = 0

/-- No decrement of the next iteration meets a zero: neither the first nor one behind others. -/
def DecrementsPositive (adj : List (List Nat)) (st : KahnState) : Prop :=
  ∀ u rest front v back, st.ready = u :: rest → adj.getD u [] = front ++ v :: back →
    0 < (front.foldl releaseConsumer
      { st with ready := rest, order := st.order ++ [u] }).indeg.getD v 0

/-! ### The loop as a run -/

/-- The fuelled loop returns the state in which a run within the fuel has emptied the queue. -/
theorem kahnLoop_eq_ok (adj : List (List Nat)) (fuel : Nat) (st st' : KahnState) :
    kahnLoop adj fuel st = .ok st' ↔
      ∃ k ≤ fuel, Base.Run (popNode adj) st k st' ∧ st'.ready = [] := by
  induction fuel generalizing st with
  | zero =>
    rw [kahnLoop]
    constructor
    · intro h
      split at h
      · next hready =>
        cases h
        exact ⟨0, Nat.le_refl 0, .start, hready⟩
      · cases h
    · rintro ⟨k, hk, hrun, hready⟩
      obtain rfl := Nat.le_zero.mp hk
      cases hrun
      exact if_pos hready
  | succ fuel ih =>
    cases hready : st.ready with
    | nil =>
      have hstop : popNode adj st = none := by
        rw [popNode, hready]
      rw [kahnLoop, hready]
      constructor
      · intro h
        cases h
        exact ⟨0, Nat.zero_le _, .start, hready⟩
      · rintro ⟨k, -, hrun, -⟩
        obtain ⟨-, rfl⟩ := hrun.eq_of_stopped hstop
        rfl
    | cons u rest =>
      have hstep : popNode adj st = some (emitNode adj st u rest) := by
        rw [popNode, hready]
      have hloop : kahnLoop adj (fuel + 1) st = kahnLoop adj fuel (emitNode adj st u rest) := by
        rw [kahnLoop, hready]
      rw [hloop, ih]
      constructor
      · rintro ⟨k, hk, hrun, hdone⟩
        exact ⟨k + 1, Nat.succ_le_succ hk, hrun.cons hstep, hdone⟩
      · rintro ⟨k, hk, hrun, hdone⟩
        cases k with
        | zero =>
          cases hrun
          rw [hready] at hdone
          cases hdone
        | succ k =>
          obtain ⟨s, hs, hrest⟩ := hrun.exists_cons
          rw [hstep] at hs
          cases hs
          exact ⟨k, Nat.le_of_succ_le_succ hk, hrest, hdone⟩

/-- The consumers of an emitted node are pushed behind the queue, and nothing is emitted. -/
theorem foldl_releaseConsumer_pushes (vs : List Nat) (st : KahnState) :
    (vs.foldl releaseConsumer st).order = st.order ∧
      ∃ pushed, (vs.foldl releaseConsumer st).ready = st.ready ++ pushed := by
  induction vs generalizing st with
  | nil => exact ⟨rfl, [], (List.append_nil _).symm⟩
  | cons v vs ih =>
    obtain ⟨horder, pushed, hready⟩ := ih (releaseConsumer st v)
    rw [List.foldl_cons]
    refine ⟨horder.trans rfl, ?_⟩
    rw [hready, releaseConsumer]
    dsimp only
    split
    · exact ⟨v :: pushed, by rw [List.append_assoc, List.singleton_append]⟩
    · exact ⟨pushed, rfl⟩

/-- An iteration moves the front of the queue to the order and pushes behind the queue. -/
theorem popNode_pushes (adj : List (List Nat)) (st st' : KahnState)
    (h : popNode adj st = some st') :
    ∃ pushed, st'.order ++ st'.ready = st.order ++ st.ready ++ pushed := by
  unfold popNode at h
  split at h
  · cases h
  · next u rest hready =>
    cases h
    obtain ⟨horder, pushed, hpushed⟩ := foldl_releaseConsumer_pushes (adj.getD u [])
      { st with ready := rest, order := st.order ++ [u] }
    refine ⟨pushed, ?_⟩
    rw [emitNode, horder, hpushed, hready]
    simp only [List.append_assoc, List.cons_append, List.nil_append]

/-! ### The wiring -/

/-- Past the edge loop the wiring is that of the edges. -/
theorem Graph.ReachesQueueLoop.wiring_eq {g : Graph} {w : Wiring} (h : g.ReachesQueueLoop w) :
    w = wiringUpTo g.Edge g.nodes.length g.nodes.length := by
  obtain ⟨-, producer, hproducer, hw⟩ := h
  exact ((edgeLoop_eq_ok (buildProducerMap_lookup g producer hproducer) w).mp hw).2

private theorem Graph.ReachesQueueLoop.wired {g : Graph} {w : Wiring} (h : g.ReachesQueueLoop w) :
    g.Wired w := by
  obtain rfl := h.wiring_eq
  have hadj (u : Nat) (hu : u < g.nodes.length) :
      (wiringUpTo g.Edge g.nodes.length g.nodes.length).adj.getD u [] =
        consumers g.Edge g.nodes.length u :=
    Base.getD_table _ [] u hu
  exact {
    adj_length := Base.length_table _
    indeg_length := Base.length_table _
    ascending := by
      intro u hu
      rw [hadj u hu]
      exact List.pairwise_lt_range.filter _
    mem_adj := by
      intro u hu v
      rw [hadj u hu, mem_consumers]
      exact and_iff_right_of_imp fun huv ↦ huv.lt.2
    indeg_eq := by
      intro v hv
      exact (Base.getD_table _ 0 v hv).trans (if_pos hv) }

/-! ### The invariant along a run -/

section Queue

variable {E : Nat → Nat → Prop} [DecidableRel E] {n : Nat}

/-- Behind some consumers of the emitted node, the next consumer still counts the emitted node
among its missing producers. -/
theorem decrementsPositive_kahnAt {order ready : List Nat} (h : KahnInv E n order ready) :
    DecrementsPositive (wiringUpTo E n n).adj (kahnAt E n order ready) := by
  intro u rest front v back hready hadj
  change ready = u :: rest at hready
  subst hready
  obtain ⟨hu, hfresh, -⟩ := h.front
  have hconsumers : consumers E n u = front ++ v :: back :=
    (Base.getD_table _ [] u hu).symm.trans hadj
  have hnodup : (front ++ v :: back).Nodup := hconsumers ▸ List.nodup_range.filter _
  have hmem (x : Nat) (hx : x ∈ front ++ v :: back) : x < n ∧ E u x := by
    rw [← hconsumers] at hx
    exact (mem_consumers u x).mp hx
  have hfront : ∀ x ∈ front, x < n := fun x hx ↦ (hmem x (List.mem_append_left _ hx)).1
  have hv : v ∈ front ++ v :: back := List.mem_append_right _ List.mem_cons_self
  have hnot : v ∉ front := fun hin ↦
    List.disjoint_of_nodup_append hnodup hin List.mem_cons_self
  have hmissing : u ∈ missing E n order v := (mem_missing order u v).mpr ⟨hu, (hmem v hv).2, hfresh⟩
  rw [kahnAt, foldl_releaseConsumer front (List.nodup_append.mp hnodup).1 hfront]
  dsimp only
  rw [Base.getD_table _ 0 v (hmem v hv).1, if_neg hnot]
  exact Finset.card_pos.mpr ⟨u, hmissing⟩

/-- Every state on a run is the abstract state of the nodes emitted and queued so far. -/
theorem run_kahnAt (hE : ∀ u v, E u v → u < n) {k : Nat} {st : KahnState}
    (run : Base.Run (popNode (wiringUpTo E n n).adj) (kahnAt E n [] (sources E n)) k st) :
    ∃ order ready, st = kahnAt E n order ready ∧ KahnInv E n order ready ∧ order.length = k := by
  apply run.invariant fun k st ↦
    ∃ order ready, st = kahnAt E n order ready ∧ KahnInv E n order ready ∧ order.length = k
  · exact ⟨[], sources E n, rfl, kahnInv_start, rfl⟩
  · rintro k _ st' ⟨order, ready, rfl, hinv, rfl⟩ hstep
    cases ready with
    | nil => cases hstep
    | cons u rest =>
      obtain ⟨hu, hfresh, -⟩ := hinv.front
      have hst : emitNode (wiringUpTo E n n).adj (kahnAt E n order (u :: rest)) u rest = st' :=
        Option.some.inj hstep
      rw [emitNode_kahnAt order rest u hu hfresh] at hst
      exact ⟨_, _, hst.symm, hinv.step hE, by simp⟩

end Queue

/-- The abstract states of a graph satisfy the invariant of the source's loop. -/
theorem Graph.queueInv_kahnAt (g : Graph) {order ready : List Nat}
    (h : KahnInv g.Edge g.nodes.length order ready) :
    g.QueueInv (kahnAt g.Edge g.nodes.length order ready) where
  indeg_length := Base.length_table _
  indeg_eq v hv := Base.getD_table _ 0 v hv
  pushed_lt v hv := ((h.mem_iff v).mp hv).1
  pushed_once := h.nodup
  pushed_iff v hv := by
    have hindeg : (kahnAt g.Edge g.nodes.length order ready).indeg.getD v 0 =
        (missing g.Edge g.nodes.length order v).card := Base.getD_table _ 0 v hv
    rw [hindeg, Finset.card_eq_zero, ← List.mem_append]
    exact (h.mem_iff v).trans (and_iff_right hv)

/-- The queue loop on every graph that reaches it. The wiring lists each consumer once, in
ascending order, and counts distinct producers. In front of every iteration a counter holds the
number of producers that are not emitted, exactly the nodes with counter zero have been pushed,
each once, and no decrement meets a zero; an iteration only adds to what has been pushed. There
is at most one iteration for each node, and the loop ends with an empty queue. -/
theorem queueLoop_invariant (g : Graph) (w : Wiring) (h : g.ReachesQueueLoop w) :
    g.Wired w ∧
      (∀ k st, Base.Run (popNode w.adj) (queueStart g.nodes.length w) k st →
        g.QueueInv st ∧ DecrementsPositive w.adj st ∧
          (∀ st', popNode w.adj st = some st' →
            ∃ pushed, st'.order ++ st'.ready = st.order ++ st.ready ++ pushed) ∧
          st.order.length = k ∧ k ≤ g.nodes.length) ∧
      ∃ k st, Base.Run (popNode w.adj) (queueStart g.nodes.length w) k st ∧ st.ready = [] ∧
        kahnLoop w.adj g.nodes.length (queueStart g.nodes.length w) = .ok st := by
  refine ⟨h.wired, ?_⟩
  obtain rfl := h.wiring_eq
  have hstart : queueStart g.nodes.length (wiringUpTo g.Edge g.nodes.length g.nodes.length) =
      kahnAt g.Edge g.nodes.length [] (sources g.Edge g.nodes.length) := loopStart_eq
  have hloop := kahnLoop_eq g.edge_lt_left
  rw [loopStart_eq] at hloop
  rw [hstart]
  constructor
  · intro k st hrun
    obtain ⟨order, ready, rfl, hinv, hlength⟩ := run_kahnAt g.edge_lt_left hrun
    have hle := hinv.length_le
    exact ⟨g.queueInv_kahnAt hinv, decrementsPositive_kahnAt hinv,
      fun st' hstep ↦ popNode_pushes _ _ st' hstep, hlength, by omega⟩
  · obtain ⟨k, -, hrun, hready⟩ := (kahnLoop_eq_ok _ _ _ _).mp hloop
    exact ⟨k, _, hrun, hready, hloop⟩

/-- A chain of two nodes beside a cycle of two. -/
def chainBesideCycle : Graph where
  nodes := [{ opType := "Relu", inputs := ["B"], outputs := ["A"] },
    { opType := "Relu", inputs := ["A"], outputs := ["B"] },
    { opType := "Constant", outputs := ["C"] },
    { opType := "Relu", inputs := ["C"], outputs := ["D"] }]

/-- The start of the chain has been emitted, its end is queued, and the cycle waits. -/
theorem queueLoop_invariant_cycle :
    chainBesideCycle.QueueInv { ready := [3], order := [2], indeg := [1, 1, 0, 0] } ∧
      DecrementsPositive [[1], [0], [3], []] { ready := [3], order := [2], indeg := [1, 1, 0, 0] } ∧
        DecrementsPositive [[1], [0], [3], []]
          { ready := [2], order := [], indeg := [1, 1, 0, 1] } := by
  have hreaches : chainBesideCycle.ReachesQueueLoop
      { adj := [[1], [0], [3], []], indeg := [1, 1, 0, 1] } :=
    ⟨by decide, AList.insert "D" 3 (AList.insert "C" 2 (AList.insert "B" 1
      (AList.insert "A" 0 ∅))), by decide, by decide⟩
  obtain ⟨-, hrun, -⟩ := queueLoop_invariant chainBesideCycle _ hreaches
  obtain ⟨-, hfirst, -⟩ := hrun 0 _ .start
  obtain ⟨hinv, hsecond, -⟩ := hrun 1 _ (.next .start rfl)
  exact ⟨hinv, hsecond, hfirst⟩

end Eduort
