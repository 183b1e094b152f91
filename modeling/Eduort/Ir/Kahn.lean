import Eduort.Base.Precedence
import Eduort.Ir.TopoEdges
import Mathlib.Data.List.Perm.Subperm

/-!
# The queue loop

The loop is a run over an abstract state: the emitted nodes and the queue. The in-degree of a
node always counts its producers that are not emitted yet, and the emitted and queued nodes
are exactly those for which nothing is missing.
-/

namespace Eduort

section Release

variable {n : Nat}

/-- Releasing a list of distinct consumers decrements each once and queues those that reach
zero, in the order of the list. -/
theorem foldl_releaseConsumer (vs : List Nat) (hnodup : vs.Nodup) (hlt : ∀ v ∈ vs, v < n)
    (ready order : List Nat) (indeg : Nat → Nat) :
    vs.foldl releaseConsumer { ready, order, indeg := Base.table n indeg } =
      { ready := ready ++ vs.filter fun v ↦ decrement (indeg v) = 0
        order
        indeg := Base.table n fun v ↦ if v ∈ vs then decrement (indeg v) else indeg v } := by
  induction vs generalizing ready indeg with
  | nil => simp
  | cons v vs ih =>
    obtain ⟨hv, hvs⟩ := List.nodup_cons.mp hnodup
    obtain ⟨hvn, hvsn⟩ := List.forall_mem_cons.mp hlt
    have hne : ∀ w ∈ vs, w ≠ v := fun w hw heq ↦ hv (heq ▸ hw)
    rw [List.foldl_cons, releaseConsumer]
    dsimp only
    rw [Base.getD_table indeg 0 v hvn, Base.set_table, ih hvs hvsn]
    simp only [KahnState.mk.injEq, true_and]
    constructor
    · have htail : (vs.filter fun w ↦
          decrement (Function.update indeg v (decrement (indeg v)) w) = 0) =
          vs.filter fun w ↦ decrement (indeg w) = 0 := by
        apply List.filter_congr
        intro w hw
        rw [Function.update_of_ne (hne w hw)]
      rw [htail, List.filter_cons]
      by_cases hzero : decrement (indeg v) = 0
      · simp [hzero]
      · simp [hzero]
    · apply Base.table_congr
      intro w _
      by_cases hw : w = v
      · simp [hw, hv]
      · simp [hw]

end Release

section Queue

variable (E : Nat → Nat → Prop) [DecidableRel E] (n : Nat)

/-- The producers of a node that are not emitted. -/
def missing (order : List Nat) (v : Nat) : Finset Nat := (preds E n v).filter (· ∉ order)

/-- The consumers of a node, in ascending order. -/
def consumers (u : Nat) : List Nat := (List.range n).filter (E u ·)

/-- The consumers for which the emitted node was the last missing producer. -/
def released (order : List Nat) (u : Nat) : List Nat :=
  (consumers E n u).filter fun v ↦ missing E n (order ++ [u]) v = ∅

/-- The state in which these nodes are emitted and those are queued. -/
def kahnAt (order ready : List Nat) : KahnState where
  ready := ready
  order := order
  indeg := Base.table n fun v ↦ (missing E n order v).card

variable {E n}

theorem mem_consumers (u v : Nat) : v ∈ consumers E n u ↔ v < n ∧ E u v := by
  rw [consumers, List.mem_filter, List.mem_range, decide_eq_true_eq]

theorem mem_missing (order : List Nat) (u v : Nat) :
    u ∈ missing E n order v ↔ u < n ∧ E u v ∧ u ∉ order := by
  rw [missing, Finset.mem_filter, preds, Finset.mem_filter, Finset.mem_range, and_assoc]

/-- Nothing is missing for a node whose producers are all emitted. -/
theorem missing_eq_empty_iff (order : List Nat) (v : Nat) :
    missing E n order v = ∅ ↔ ∀ u < n, E u v → u ∈ order := by
  rw [Finset.eq_empty_iff_forall_notMem]
  simp only [mem_missing, not_and, not_not]

/-- Emitting a node takes it off what its consumers miss. -/
theorem missing_emit (order : List Nat) (u v : Nat) :
    missing E n (order ++ [u]) v = (missing E n order v).erase u := by
  ext w
  rw [Finset.mem_erase, mem_missing, mem_missing, List.mem_append, List.mem_singleton, not_or]
  tauto

/-- A consumer misses one producer less; nobody else notices, and nothing wraps. -/
theorem card_missing_emit (order : List Nat) (u v : Nat) (hu : u < n) (hfresh : u ∉ order)
    (hv : v < n) :
    (missing E n (order ++ [u]) v).card =
      if v ∈ consumers E n u then decrement (missing E n order v).card
      else (missing E n order v).card := by
  have hmem : u ∈ missing E n order v ↔ v ∈ consumers E n u := by
    rw [mem_missing, mem_consumers, and_iff_right hu, and_iff_left hfresh, and_iff_right hv]
  rw [missing_emit]
  split
  · next hconsumer =>
    have hpos : (missing E n order v).card ≠ 0 := Finset.card_ne_zero_of_mem (hmem.mpr hconsumer)
    rw [decrement, if_neg hpos, Finset.card_erase_of_mem (hmem.mpr hconsumer)]
  · next hother =>
    rw [Finset.erase_eq_of_notMem (fun h ↦ hother (hmem.mp h))]

/-- One iteration of the loop on the abstract state. -/
theorem emitNode_kahnAt (order rest : List Nat) (u : Nat) (hu : u < n) (hfresh : u ∉ order) :
    emitNode (wiringUpTo E n n).adj (kahnAt E n order (u :: rest)) u rest =
      kahnAt E n (order ++ [u]) (rest ++ released E n order u) := by
  have hadj : (wiringUpTo E n n).adj.getD u [] = consumers E n u :=
    Base.getD_table _ [] u hu
  have hnodup : (consumers E n u).Nodup := List.nodup_range.filter _
  have hlt : ∀ v ∈ consumers E n u, v < n := fun v hv ↦ ((mem_consumers u v).mp hv).1
  rw [emitNode, hadj, kahnAt, foldl_releaseConsumer _ hnodup hlt, kahnAt]
  simp only [KahnState.mk.injEq, true_and]
  constructor
  · rw [released]
    congr 1
    apply List.filter_congr
    intro v hv
    rw [decide_eq_decide, ← Finset.card_eq_zero,
      card_missing_emit order u v hu hfresh (hlt v hv), if_pos hv]
  · apply Base.table_congr
    intro v hv
    rw [card_missing_emit order u v hu hfresh hv]

/-- The invariant of the loop: what is emitted or queued misses nothing and is there once, and
each emitted node has its producers in front of it. -/
structure KahnInv (E : Nat → Nat → Prop) [DecidableRel E] (n : Nat) (order ready : List Nat) :
    Prop where
  nodup : (order ++ ready).Nodup
  mem_iff : ∀ v, v ∈ order ++ ready ↔ v < n ∧ missing E n order v = ∅
  predsFirst : Base.PredsFirst E order

/-- The queue before the first iteration. -/
def sources (E : Nat → Nat → Prop) [DecidableRel E] (n : Nat) : List Nat :=
  (List.range n).filter fun v ↦ missing E n [] v = ∅

theorem kahnInv_start : KahnInv E n [] (sources E n) where
  nodup := List.nodup_range.filter _
  mem_iff v := by
    rw [List.nil_append, sources, List.mem_filter, List.mem_range, decide_eq_true_eq]
  predsFirst := Base.predsFirst_nil

/-- The front of the queue is a node, not yet emitted, whose producers are. -/
theorem KahnInv.front {order rest : List Nat} {u : Nat} (h : KahnInv E n order (u :: rest)) :
    u < n ∧ u ∉ order ∧ missing E n order u = ∅ := by
  obtain ⟨hu, hmissing⟩ := (h.mem_iff u).mp (List.mem_append_right _ List.mem_cons_self)
  refine ⟨hu, fun hmem ↦ ?_, hmissing⟩
  exact List.disjoint_of_nodup_append h.nodup hmem List.mem_cons_self

theorem mem_released (order : List Nat) (u v : Nat) :
    v ∈ released E n order u ↔ v < n ∧ E u v ∧ missing E n (order ++ [u]) v = ∅ := by
  rw [released, List.mem_filter, mem_consumers, decide_eq_true_eq, and_assoc]

theorem released_eq_filter (order : List Nat) (u : Nat) :
    released E n order u =
      (List.range n).filter fun v ↦ E u v ∧ missing E n (order ++ [u]) v = ∅ := by
  rw [released, consumers, List.filter_filter]
  apply List.filter_congr
  intro v _
  rw [Bool.decide_and, Bool.and_comm]

/-- One iteration keeps the invariant. -/
theorem KahnInv.step (hE : ∀ u v, E u v → u < n) {order rest : List Nat} {u : Nat}
    (h : KahnInv E n order (u :: rest)) :
    KahnInv E n (order ++ [u]) (rest ++ released E n order u) where
  nodup := by
    obtain ⟨hu, hfresh, -⟩ := h.front
    have hold : (order ++ [u] ++ rest).Nodup := by
      rw [← List.append_cons]
      exact h.nodup
    rw [← List.append_assoc]
    refine hold.append ((List.nodup_range.filter _).filter _) ?_
    intro v hv hreleased
    obtain ⟨-, huv, -⟩ := (mem_released order u v).mp hreleased
    have hmem : v ∈ order ++ u :: rest := by
      rw [List.append_cons]
      exact hv
    have hmissing := ((h.mem_iff v).mp hmem).2
    have humissing : u ∈ missing E n order v := (mem_missing order u v).mpr ⟨hu, huv, hfresh⟩
    rw [hmissing] at humissing
    exact Finset.notMem_empty u humissing
  mem_iff v := by
    obtain ⟨hu, hfresh, -⟩ := h.front
    have hreorder : v ∈ order ++ [u] ++ (rest ++ released E n order u) ↔
        v ∈ order ++ u :: rest ∨ v ∈ released E n order u := by
      simp only [List.mem_append, List.mem_cons, List.not_mem_nil, or_false]
      tauto
    rw [hreorder, h.mem_iff, mem_released]
    constructor
    · rintro (⟨hv, hmissing⟩ | ⟨hv, -, hmissing⟩)
      · rw [missing_emit, hmissing]
        exact ⟨hv, Finset.erase_empty u⟩
      · exact ⟨hv, hmissing⟩
    · rintro ⟨hv, hmissing⟩
      -- either nothing was missing before, or exactly the emitted node was
      by_cases huv : E u v
      · exact Or.inr ⟨hv, huv, hmissing⟩
      · left
        have hnot : u ∉ missing E n order v := fun hmem ↦
          huv ((mem_missing order u v).mp hmem).2.1
        rw [missing_emit, Finset.erase_eq_of_notMem hnot] at hmissing
        exact ⟨hv, hmissing⟩
  predsFirst := by
    obtain ⟨-, -, hmissing⟩ := h.front
    rw [Base.predsFirst_concat]
    rw [missing_eq_empty_iff] at hmissing
    exact ⟨h.predsFirst, fun w hw ↦ hmissing w (hE w u hw) hw⟩

/-- Only nodes are emitted or queued, each once. -/
theorem KahnInv.length_le {order ready : List Nat} (h : KahnInv E n order ready) :
    order.length + ready.length ≤ n := by
  have hsub : order ++ ready ⊆ List.range n := fun v hv ↦
    List.mem_range.mpr ((h.mem_iff v).mp hv).1
  have hle := (h.nodup.subperm hsub).length_le
  rwa [List.length_append, List.length_range] at hle

/-- The order in which the queue emits nodes, on the abstract state. -/
def emitted (E : Nat → Nat → Prop) [DecidableRel E] (n : Nat) :
    Nat → List Nat → List Nat → List Nat
  | 0, order, _ => order
  | _ + 1, order, [] => order
  | fuel + 1, order, u :: rest =>
    emitted E n fuel (order ++ [u]) (rest ++ released E n order u)

/-- The order in which the queue emits nodes, from the sources on. -/
def kahnOrder (E : Nat → Nat → Prop) [DecidableRel E] (n : Nat) : List Nat :=
  emitted E n n [] (sources E n)

/-- Induction along a run: with an iteration left for every node that is not emitted, the queue
runs empty before the iterations do. -/
theorem KahnInv.induction (hE : ∀ u v, E u v → u < n)
    {motive : (fuel : Nat) → (order ready : List Nat) → KahnInv E n order ready →
      n ≤ order.length + fuel → Prop}
    (done : ∀ fuel order h hfuel, motive fuel order [] h hfuel)
    (step : ∀ fuel order u rest h hfuel hnext hfuelNext,
      motive fuel (order ++ [u]) (rest ++ released E n order u) hnext hfuelNext →
      motive (fuel + 1) order (u :: rest) h hfuel)
    (fuel : Nat) (order ready : List Nat) (h : KahnInv E n order ready)
    (hfuel : n ≤ order.length + fuel) : motive fuel order ready h hfuel := by
  induction fuel generalizing order ready with
  | zero =>
    have hle := h.length_le
    have hready : ready = [] := List.eq_nil_of_length_eq_zero (by omega)
    subst hready
    exact done 0 order h hfuel
  | succ fuel ih =>
    cases ready with
    | nil => exact done (fuel + 1) order h hfuel
    | cons u rest =>
      have hfuelNext : n ≤ (order ++ [u]).length + fuel := by
        rw [List.length_append, List.length_singleton]
        omega
      apply step fuel order u rest h hfuel (h.step hE) hfuelNext
      exact ih _ _ (h.step hE) hfuelNext

/-- An empty queue ends the run. -/
theorem emitted_nil (fuel : Nat) (order : List Nat) : emitted E n fuel order [] = order := by
  cases fuel <;> rfl

/-- Run rule: what every iteration keeps holds once the queue is empty. -/
theorem emitted_invariant (hE : ∀ u v, E u v → u < n) (Inv : List Nat → List Nat → Prop)
    (step : ∀ order u rest, KahnInv E n order (u :: rest) → Inv order (u :: rest) →
      Inv (order ++ [u]) (rest ++ released E n order u))
    (fuel : Nat) (order ready : List Nat) (h : KahnInv E n order ready)
    (hfuel : n ≤ order.length + fuel) (start : Inv order ready) :
    Inv (emitted E n fuel order ready) [] := by
  induction fuel, order, ready, h, hfuel using KahnInv.induction hE with
  | done fuel order h hfuel =>
    rw [emitted_nil]
    exact start
  | step fuel order u rest h hfuel _ _ ih =>
    rw [emitted]
    exact ih (step order u rest h start)

/-- The run only ever appends to what is emitted and queued. -/
theorem emitted_prefix (hE : ∀ u v, E u v → u < n) (fuel : Nat)
    (order ready : List Nat) (h : KahnInv E n order ready) (hfuel : n ≤ order.length + fuel) :
    order ++ ready <+: emitted E n fuel order ready := by
  induction fuel, order, ready, h, hfuel using KahnInv.induction hE with
  | done fuel order h hfuel =>
    rw [emitted_nil, List.append_nil]
  | step fuel order u rest h hfuel _ _ ih =>
    have hmove : order ++ u :: rest <+: order ++ [u] ++ (rest ++ released E n order u) := by
      rw [← List.append_assoc, ← List.append_cons]
      exact List.prefix_append _ _
    rw [emitted]
    exact hmove.trans ih

/-- With as many iterations left, the loop of the source emits what the abstract run emits. -/
theorem kahnLoop_run (hE : ∀ u v, E u v → u < n) (fuel : Nat) (order ready : List Nat)
    (h : KahnInv E n order ready) (hfuel : n ≤ order.length + fuel) :
    kahnLoop (wiringUpTo E n n).adj fuel (kahnAt E n order ready) =
      .ok (kahnAt E n (emitted E n fuel order ready) []) := by
  induction fuel, order, ready, h, hfuel using KahnInv.induction hE with
  | done fuel order h hfuel =>
    rw [emitted_nil]
    cases fuel <;> rfl
  | step fuel order u rest h hfuel _ _ ih =>
    obtain ⟨hu, hfresh, -⟩ := h.front
    have hstep : kahnLoop (wiringUpTo E n n).adj (fuel + 1) (kahnAt E n order (u :: rest)) =
        kahnLoop (wiringUpTo E n n).adj fuel
          (kahnAt E n (order ++ [u]) (rest ++ released E n order u)) := by
      rw [← emitNode_kahnAt order rest u hu hfresh]
      rfl
    rw [hstep, emitted]
    exact ih

/-- Run rule from the sources on. -/
theorem kahnOrder_invariant (hE : ∀ u v, E u v → u < n) (Inv : List Nat → List Nat → Prop)
    (step : ∀ order u rest, KahnInv E n order (u :: rest) → Inv order (u :: rest) →
      Inv (order ++ [u]) (rest ++ released E n order u))
    (start : Inv [] (sources E n)) : Inv (kahnOrder E n) [] :=
  emitted_invariant hE Inv step n [] (sources E n) kahnInv_start (by simp) start

theorem kahnOrder_inv (hE : ∀ u v, E u v → u < n) : KahnInv E n (kahnOrder E n) [] :=
  kahnOrder_invariant hE (KahnInv E n) (fun _ _ _ h _ ↦ h.step hE) kahnInv_start

/-- The state in which the queue loop starts on the wiring. -/
theorem loopStart_eq :
    ({ ready := (List.range n).filter fun v ↦ (wiringUpTo E n n).indeg.getD v 0 = 0
       order := []
       indeg := (wiringUpTo E n n).indeg } : KahnState) = kahnAt E n [] (sources E n) := by
  have hcard (v : Nat) (hv : v < n) :
      (if v < n then (preds E n v).card else 0) = (missing E n [] v).card := by
    rw [if_pos hv, missing]
    simp only [List.not_mem_nil, not_false_eq_true, Finset.filter_true]
  have hindeg : (wiringUpTo E n n).indeg = (kahnAt E n [] (sources E n)).indeg :=
    Base.table_congr hcard
  have hready : ((List.range n).filter fun v ↦ (wiringUpTo E n n).indeg.getD v 0 = 0) =
      sources E n := by
    rw [sources]
    apply List.filter_congr
    intro v hv
    rw [decide_eq_decide, ← Finset.card_eq_zero, ← hcard v (List.mem_range.mp hv), wiringUpTo,
      Base.getD_table _ 0 v (List.mem_range.mp hv)]
  rw [hready, hindeg]
  rfl

/-- From the wiring on, the queue loop computes the abstract order. -/
theorem kahnLoop_eq (hE : ∀ u v, E u v → u < n) :
    kahnLoop (wiringUpTo E n n).adj n
        { ready := (List.range n).filter fun v ↦ (wiringUpTo E n n).indeg.getD v 0 = 0
          order := []
          indeg := (wiringUpTo E n n).indeg } =
      .ok (kahnAt E n (kahnOrder E n) []) := by
  rw [loopStart_eq]
  exact kahnLoop_run hE n [] (sources E n) kahnInv_start (by simp)

/-- A run that ends has emitted a node exactly when it has emitted all its producers. -/
theorem KahnInv.mem_order {order : List Nat} (h : KahnInv E n order []) (v : Nat) :
    v ∈ order ↔ v < n ∧ ∀ u < n, E u v → u ∈ order := by
  have hiff := h.mem_iff v
  rw [List.append_nil] at hiff
  rw [hiff, missing_eq_empty_iff]

/-- A run that ends has emitted exactly the nodes that no cycle leads to. -/
theorem KahnInv.mem_order_iff {order : List Nat} (h : KahnInv E n order []) (v : Nat) :
    v ∈ order ↔ v < n ∧ Base.CycleFree E v := by
  constructor
  · intro hv
    exact ⟨((h.mem_order v).mp hv).1, h.predsFirst.cycleFree hv⟩
  · rintro ⟨hv, hfree⟩
    -- along the edges, every cycle-free node is emitted because its producers are
    have hall : ∀ v ∈ Finset.range n, Base.CycleFree E v → v ∈ order := by
      apply Base.CycleFree.induction
      intro v hv _ ih
      rw [h.mem_order]
      exact ⟨Finset.mem_range.mp hv, fun u hu huv ↦ ih u (Finset.mem_range.mpr hu) huv⟩
    exact hall v (Finset.mem_range.mpr hv) hfree

theorem KahnInv.nodup_order {order ready : List Nat} (h : KahnInv E n order ready) :
    order.Nodup :=
  (List.nodup_append.mp h.nodup).1

/-- As many emitted nodes as there are nodes: every node, once. -/
theorem KahnInv.perm_of_length {order : List Nat} (h : KahnInv E n order [])
    (hlength : order.length = n) : order.Perm (List.range n) := by
  have hsub : order ⊆ List.range n := fun v hv ↦
    List.mem_range.mpr ((h.mem_order v).mp hv).1
  apply (h.nodup_order.subperm hsub).perm_of_length_le
  rw [List.length_range, hlength]

/-- A run that ends has emitted all nodes exactly when the edges have no cycle. -/
theorem KahnInv.length_eq_iff (hE : ∀ u v, E u v → v < n) {order : List Nat}
    (h : KahnInv E n order []) : order.length = n ↔ Base.Acyclic E := by
  constructor
  · intro hlength
    apply h.predsFirst.acyclic
    intro u v huv
    rw [(h.perm_of_length hlength).mem_iff, List.mem_range]
    exact hE u v huv
  · intro hacyclic
    have hsub : List.range n ⊆ order := fun v hv ↦
      (h.mem_order_iff v).mpr ⟨List.mem_range.mp hv, hacyclic.cycleFree v⟩
    have hge := (List.nodup_range.subperm hsub).length_le
    have hle := h.length_le
    rw [List.length_range] at hge
    omega

end Queue

end Eduort
