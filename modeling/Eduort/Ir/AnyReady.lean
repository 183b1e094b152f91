import Eduort.Base.Selection
import Eduort.Ir.QueueLoop

/-!
# Any queued node will do

The source takes the front of the queue and notes that any other queued node would be as good.
Here an iteration takes whichever queued node it likes. The orders that can come out are exactly
the topological orders, and the loop of the source computes one of them.
-/

namespace Eduort

/-- One iteration that takes any queued node; `src/ir/topo_sort.cpp:110–130`. -/
inductive TakeReady (adj : List (List Nat)) (st : KahnState) : KahnState → Prop
  | take (front : List Nat) (u : Nat) (back : List Nat) (hready : st.ready = front ++ u :: back) :
      TakeReady adj st (emitNode adj st u (front ++ back))

/-- A run of such iterations. -/
abbrev TakeReadyRun (adj : List (List Nat)) : KahnState → KahnState → Prop :=
  Relation.ReflTransGen (TakeReady adj)

/-- The iteration of the source takes the front. -/
theorem takeReady_of_popNode {adj : List (List Nat)} {st st' : KahnState}
    (h : popNode adj st = some st') : TakeReady adj st st' := by
  unfold popNode at h
  split at h
  · cases h
  · next u rest hready =>
    cases h
    exact .take [] u rest hready

/-- So a run of the source's loop is one of these runs. -/
theorem takeReadyRun_of_run {adj : List (List Nat)} {st st' : KahnState} {k : Nat}
    (h : Base.Run (popNode adj) st k st') : TakeReadyRun adj st st' := by
  induction h with
  | start => exact .refl
  | next _ hstep ih => exact ih.tail (takeReady_of_popNode hstep)

section Queue

variable {E : Nat → Nat → Prop} [DecidableRel E] {n : Nat}

/-- The invariant does not depend on the order of the queue. -/
theorem KahnInv.perm_ready {order ready ready' : List Nat} (h : KahnInv E n order ready)
    (hperm : ready.Perm ready') : KahnInv E n order ready' where
  nodup := (hperm.append_left order).nodup_iff.mp h.nodup
  mem_iff v := by
    rw [← (hperm.append_left order).mem_iff]
    exact h.mem_iff v
  predsFirst := h.predsFirst

/-- What the loop emits is a selection. -/
theorem KahnInv.selection (hE : ∀ u v, E u v → u < n) {order ready : List Nat}
    (h : KahnInv E n order ready) : Base.Selection E (Finset.range n) order := by
  rw [Base.selection_iff fun u v huv ↦ Finset.mem_range.mpr (hE u v huv)]
  refine ⟨h.nodup_order, fun v hv ↦ ?_, h.predsFirst⟩
  rw [Finset.mem_range]
  exact ((h.mem_iff v).mp (List.mem_append_left _ hv)).1

/-- What is queued is what can be taken. -/
theorem KahnInv.mem_ready_iff {order ready : List Nat} (h : KahnInv E n order ready) (v : Nat) :
    v ∈ ready ↔ Base.Enabled E (Finset.range n) order v := by
  have hiff := h.mem_iff v
  rw [missing_eq_empty_iff, List.mem_append] at hiff
  constructor
  · intro hv
    obtain ⟨hlt, hpreds⟩ := hiff.mp (Or.inr hv)
    exact ⟨Finset.mem_range.mpr hlt, fun hmem ↦ List.disjoint_of_nodup_append h.nodup hmem hv,
      fun u hu ↦ hpreds u (Finset.mem_range.mp hu)⟩
  · intro hv
    apply (hiff.mpr ⟨Finset.mem_range.mp hv.mem, ?_⟩).resolve_left hv.fresh
    intro u hu
    exact hv.preds u (Finset.mem_range.mpr hu)

/-- An iteration on the abstract state: some queued node is emitted. -/
theorem takeReady_kahnAt (hE : ∀ u v, E u v → u < n) {order ready : List Nat} {st : KahnState}
    (h : KahnInv E n order ready)
    (hstep : TakeReady (wiringUpTo E n n).adj (kahnAt E n order ready) st) :
    ∃ u ∈ ready, ∃ ready', st = kahnAt E n (order ++ [u]) ready' ∧
      KahnInv E n (order ++ [u]) ready' := by
  cases hstep with
  | take front u back hready =>
    change ready = front ++ u :: back at hready
    subst hready
    have hfront : KahnInv E n order (u :: (front ++ back)) := h.perm_ready List.perm_middle
    obtain ⟨hu, hfresh, -⟩ := hfront.front
    refine ⟨u, by simp, _, ?_, hfront.step hE⟩
    exact emitNode_kahnAt order (front ++ back) u hu hfresh

/-- Every queued node can be emitted next. -/
theorem exists_takeReady (hE : ∀ u v, E u v → u < n) {order ready : List Nat}
    (h : KahnInv E n order ready) {u : Nat} (hu : u ∈ ready) :
    ∃ ready', TakeReady (wiringUpTo E n n).adj (kahnAt E n order ready)
        (kahnAt E n (order ++ [u]) ready') ∧ KahnInv E n (order ++ [u]) ready' := by
  obtain ⟨front, back, rfl⟩ := List.append_of_mem hu
  have hfront : KahnInv E n order (u :: (front ++ back)) := h.perm_ready List.perm_middle
  obtain ⟨hlt, hfresh, -⟩ := hfront.front
  refine ⟨_, ?_, hfront.step hE⟩
  rw [← emitNode_kahnAt order (front ++ back) u hlt hfresh]
  exact .take front u back rfl

/-- Every state on a run is the abstract state of the nodes emitted and queued so far. -/
theorem takeReadyRun_kahnAt (hE : ∀ u v, E u v → u < n) {st : KahnState}
    (run : TakeReadyRun (wiringUpTo E n n).adj (kahnAt E n [] (sources E n)) st) :
    ∃ order ready, st = kahnAt E n order ready ∧ KahnInv E n order ready := by
  induction run with
  | refl => exact ⟨[], sources E n, rfl, kahnInv_start⟩
  | tail _ hstep ih =>
    obtain ⟨order, ready, rfl, hinv⟩ := ih
    obtain ⟨u, -, ready', rfl, hinv'⟩ := takeReady_kahnAt hE hinv hstep
    exact ⟨_, _, rfl, hinv'⟩

/-- Every selection is emitted by some run. -/
theorem exists_takeReadyRun (hE : ∀ u v, E u v → u < n) {order : List Nat}
    (h : Base.Selection E (Finset.range n) order) :
    ∃ ready, TakeReadyRun (wiringUpTo E n n).adj (kahnAt E n [] (sources E n))
        (kahnAt E n order ready) ∧ KahnInv E n order ready := by
  induction h with
  | nil => exact ⟨sources E n, .refl, kahnInv_start⟩
  | take _ hv ih =>
    obtain ⟨ready, hrun, hinv⟩ := ih
    obtain ⟨ready', hstep, hinv'⟩ := exists_takeReady hE hinv ((hinv.mem_ready_iff _).mpr hv)
    exact ⟨ready', hrun.tail hstep, hinv'⟩

/-- The queue is empty exactly when the cycle-free nodes are emitted. -/
theorem KahnInv.ready_eq_nil_iff (hE : ∀ u v, E u v → u < n) {order ready : List Nat}
    (h : KahnInv E n order ready) :
    ready = [] ↔ ∀ v, v ∈ order ↔ v < n ∧ Base.CycleFree E v := by
  have hstuck := (h.selection hE).stuck_iff fun u v huv ↦ Finset.mem_range.mpr (hE u v huv)
  simp only [← h.mem_ready_iff, Finset.mem_range] at hstuck
  rw [← hstuck, List.eq_nil_iff_forall_not_mem]

end Queue

/-- The queue loop with any choice of queued nodes, on every graph that reaches it. In every
state of every run the counters are exact, so nothing wraps and no node is queued twice, and
producers stand in front. The orders with which runs end are exactly the lists of the nodes that
no cycle reaches, each once and behind its producers. The loop of the source is such a run. -/
theorem queueLoop_anyReady (g : Graph) (w : Wiring) (h : g.ReachesQueueLoop w) :
    (∀ st, TakeReadyRun w.adj (queueStart g.nodes.length w) st →
        g.QueueInv st ∧ Base.PredsFirst g.Edge st.order) ∧
      (∀ order, (∃ st, TakeReadyRun w.adj (queueStart g.nodes.length w) st ∧ st.ready = [] ∧
          st.order = order) ↔
        order.Nodup ∧ Base.PredsFirst g.Edge order ∧
          ∀ v, v ∈ order ↔ v < g.nodes.length ∧ Base.CycleFree g.Edge v) ∧
      ∃ st, kahnLoop w.adj g.nodes.length (queueStart g.nodes.length w) = .ok st ∧
        TakeReadyRun w.adj (queueStart g.nodes.length w) st ∧ st.ready = [] := by
  have hE := g.edge_lt_left
  have hrange : ∀ u v, g.Edge u v → u ∈ Finset.range g.nodes.length :=
    fun u v huv ↦ Finset.mem_range.mpr (hE u v huv)
  obtain rfl := h.wiring_eq
  have hstart : queueStart g.nodes.length (wiringUpTo g.Edge g.nodes.length g.nodes.length) =
      kahnAt g.Edge g.nodes.length [] (sources g.Edge g.nodes.length) := loopStart_eq
  have hloop := kahnLoop_eq hE
  rw [loopStart_eq] at hloop
  rw [hstart]
  refine ⟨fun st hrun ↦ ?_, fun order ↦ ⟨?_, ?_⟩, ?_⟩
  · obtain ⟨order, ready, rfl, hinv⟩ := takeReadyRun_kahnAt hE hrun
    exact ⟨g.queueInv_kahnAt hinv, hinv.predsFirst⟩
  · rintro ⟨st, hrun, hready, rfl⟩
    obtain ⟨order, ready, rfl, hinv⟩ := takeReadyRun_kahnAt hE hrun
    exact ⟨hinv.nodup_order, hinv.predsFirst, (hinv.ready_eq_nil_iff hE).mp hready⟩
  · rintro ⟨hnodup, hfirst, hmem⟩
    have hselection : Base.Selection g.Edge (Finset.range g.nodes.length) order := by
      rw [Base.selection_iff hrange]
      exact ⟨hnodup, fun v hv ↦ Finset.mem_range.mpr ((hmem v).mp hv).1, hfirst⟩
    obtain ⟨ready, hrun, hinv⟩ := exists_takeReadyRun hE hselection
    exact ⟨_, hrun, (hinv.ready_eq_nil_iff hE).mpr hmem, rfl⟩
  · obtain ⟨k, -, hrun, hready⟩ := (kahnLoop_eq_ok _ _ _ _).mp hloop
    exact ⟨_, hloop, takeReadyRun_of_run hrun, hready⟩

/-- The wiring of `joinFirst`. -/
def joinFirstWiring : Wiring where
  adj := [[], [0], [0]]
  indeg := [2, 0, 0]

/-- The back of the queue before the front: the other topological order of `joinFirst`. -/
theorem queueLoop_anyReady_joinFirst :
    Base.PredsFirst joinFirst.Edge [2, 1, 0] ∧
      ∀ v, v ∈ [2, 1, 0] ↔ v < 3 ∧ Base.CycleFree joinFirst.Edge v := by
  have hreaches : joinFirst.ReachesQueueLoop joinFirstWiring :=
    ⟨by decide, AList.insert "W" 2 (AList.insert "Y" 1 (AList.insert "Z" 0 ∅)),
      by decide, by decide⟩
  have hfirst : TakeReady joinFirstWiring.adj (queueStart 3 joinFirstWiring)
      { ready := [1], order := [2], indeg := [1, 0, 0] } := .take [1] 2 [] rfl
  have hsecond : TakeReady joinFirstWiring.adj { ready := [1], order := [2], indeg := [1, 0, 0] }
      { ready := [0], order := [2, 1], indeg := [0, 0, 0] } := .take [] 1 [] rfl
  have hthird : TakeReady joinFirstWiring.adj { ready := [0], order := [2, 1], indeg := [0, 0, 0] }
      { ready := [], order := [2, 1, 0], indeg := [0, 0, 0] } := .take [] 0 [] rfl
  obtain ⟨-, horders, -⟩ := queueLoop_anyReady joinFirst joinFirstWiring hreaches
  have hrun := ((Relation.ReflTransGen.single hfirst).tail hsecond).tail hthird
  exact ((horders [2, 1, 0]).mp ⟨_, hrun, rfl, rfl⟩).2

end Eduort
