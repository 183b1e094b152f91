import Eduort.Base.Depth
import Eduort.Ir.TopoCorrect

/-!
# The order in layers

Because the queue is first in, first out, the order goes through the nodes by depth: first all
nodes without producers, then those whose producers are among them, and so on. The depth of a
queued node never exceeds that of another queued node by more than one.
-/

namespace Eduort

section Queue

variable {E : Nat → Nat → Prop} [DecidableRel E] {n : Nat}

variable (E n) in
/-- The length of the longest chain of producers that ends at the node. -/
def nodeDepth (v : Nat) : Nat := Base.depth E (Finset.range n) v

private theorem nodeDepth_eq (h : Base.Acyclic E) (v : Nat) :
    nodeDepth E n v = (preds E n v).sup fun u ↦ nodeDepth E n u + 1 :=
  Base.depth_eq h v

private theorem nodeDepth_lt (h : Base.Acyclic E) {u v : Nat} (hu : u < n) (huv : E u v) :
    nodeDepth E n u < nodeDepth E n v :=
  Base.depth_lt h (Finset.mem_range.mpr hu) huv

/-- The emitted and the queued nodes are sorted by depth, and the queue spans two depths at
most. -/
structure Layered (depth : Nat → Nat) (order ready : List Nat) : Prop where
  sorted : (order ++ ready).Pairwise fun u v ↦ depth u ≤ depth v
  span : ∀ u ∈ ready, ∀ v ∈ ready, depth v ≤ depth u + 1

/-- A node without missing producers is at most one deeper than a bound on what is emitted. -/
theorem depth_le_of_missing (h : Base.Acyclic E) {order : List Nat} {v d : Nat}
    (hmissing : missing E n order v = ∅)
    (horder : ∀ u ∈ order, nodeDepth E n u < d) :
    nodeDepth E n v ≤ d := by
  rw [nodeDepth_eq h, Finset.sup_le_iff]
  intro u hu
  obtain ⟨hun, huv⟩ := Finset.mem_filter.mp hu
  rw [missing_eq_empty_iff] at hmissing
  exact horder u (hmissing u (Finset.mem_range.mp hun) huv)

/-- The released nodes are deeper than the emitted one by exactly one. -/
theorem depth_released (h : Base.Acyclic E) {order rest : List Nat} {u v : Nat}
    (hinv : KahnInv E n order (u :: rest))
    (hlayered : Layered (nodeDepth E n) order (u :: rest))
    (hv : v ∈ released E n order u) :
    nodeDepth E n v = nodeDepth E n u + 1 := by
  obtain ⟨hu, -, -⟩ := hinv.front
  obtain ⟨-, huv, hmissing⟩ := (mem_released order u v).mp hv
  have hlt := nodeDepth_lt h hu huv
  have hle := depth_le_of_missing h (d := nodeDepth E n u + 1) hmissing <| by
    intro w hw
    rcases List.mem_append.mp hw with hworder | hwu
    · have hwle := (List.pairwise_append.mp hlayered.sorted).2.2 w hworder u List.mem_cons_self
      exact Nat.lt_succ_of_le hwle
    · rw [List.mem_singleton.mp hwu]
      exact Nat.lt_succ_self _
  omega

/-- The sources are not deep at all. -/
theorem layered_start (h : Base.Acyclic E) :
    Layered (nodeDepth E n) [] (sources E n) := by
  have hzero : ∀ v ∈ sources E n, nodeDepth E n v = 0 := by
    intro v hv
    rw [sources, List.mem_filter, decide_eq_true_eq] at hv
    have hle : nodeDepth E n v ≤ 0 :=
      depth_le_of_missing h hv.2 fun u hu ↦ absurd hu List.not_mem_nil
    exact Nat.le_zero.mp hle
  constructor
  · rw [List.nil_append]
    apply List.pairwise_of_forall_mem_list
    intro u hu v _
    rw [hzero u hu]
    exact Nat.zero_le _
  · intro u _ v hv
    rw [hzero v hv]
    exact Nat.zero_le _

/-- One iteration keeps the layers. -/
theorem Layered.step (h : Base.Acyclic E) (order : List Nat) (u : Nat) (rest : List Nat)
    (hinv : KahnInv E n order (u :: rest))
    (hlayered : Layered (nodeDepth E n) order (u :: rest)) :
    Layered (nodeDepth E n) (order ++ [u]) (rest ++ released E n order u) := by
  have hreleased : ∀ v ∈ released E n order u,
      nodeDepth E n v = nodeDepth E n u + 1 :=
    fun v hv ↦ depth_released h hinv hlayered hv
  have hrest : ∀ v ∈ rest, nodeDepth E n u ≤ nodeDepth E n v ∧
      nodeDepth E n v ≤ nodeDepth E n u + 1 := by
    intro v hv
    obtain ⟨-, hqueue, -⟩ := List.pairwise_append.mp hlayered.sorted
    exact ⟨(List.pairwise_cons.mp hqueue).1 v hv,
      hlayered.span u List.mem_cons_self v (List.mem_cons_of_mem u hv)⟩
  constructor
  · rw [← List.append_assoc, ← List.append_cons, List.pairwise_append]
    refine ⟨hlayered.sorted, ?_, ?_⟩
    · apply List.pairwise_of_forall_mem_list
      intro v hv w hw
      rw [hreleased v hv, hreleased w hw]
    · intro v hv w hw
      rw [hreleased w hw]
      obtain ⟨-, -, hcross⟩ := List.pairwise_append.mp hlayered.sorted
      rcases List.mem_append.mp hv with hvorder | hvqueue
      · exact Nat.le_succ_of_le (hcross v hvorder u List.mem_cons_self)
      · exact hlayered.span u List.mem_cons_self v hvqueue
  · intro v hv w hw
    have hbounds : ∀ x ∈ rest ++ released E n order u,
        nodeDepth E n u ≤ nodeDepth E n x ∧
          nodeDepth E n x ≤ nodeDepth E n u + 1 := by
      intro x hx
      rcases List.mem_append.mp hx with hxrest | hxreleased
      · exact hrest x hxrest
      · have heq := hreleased x hxreleased
        omega
    have hv' := hbounds v hv
    have hw' := hbounds w hw
    omega

/-- The abstract order is sorted by depth. -/
theorem kahnOrder_sorted (h : Base.Acyclic E) (hE : ∀ u v, E u v → u < n) :
    (kahnOrder E n).Pairwise fun u v ↦
      nodeDepth E n u ≤ nodeDepth E n v := by
  have hlayered := kahnOrder_invariant hE (Layered (nodeDepth E n))
    (fun order u rest ↦ Layered.step h order u rest) (layered_start h)
  have hsorted := hlayered.sorted
  rwa [List.append_nil] at hsorted

end Queue

namespace Graph

variable (g : Graph)

/-- The length of the longest producer chain that ends at the node. -/
def depth (v : Nat) : Nat := nodeDepth g.Edge g.nodes.length v

/-- The largest depth of a node. -/
def maxDepth : Nat := (Finset.range g.nodes.length).sup g.depth

/-- The nodes of one depth, as they stand in the order. -/
def wave (order : List Nat) (d : Nat) : List Nat := order.filter (g.depth · = d)

variable {g}

/-- A node without producers has depth zero, any other is one deeper than its deepest
producer. -/
theorem depth_eq (h : Base.Acyclic g.Edge) (v : Nat) :
    g.depth v = (preds g.Edge g.nodes.length v).sup fun u ↦ g.depth u + 1 :=
  nodeDepth_eq h v

/-- The depth is the length of the longest producer chain. -/
theorem le_depth_iff (h : Base.Acyclic g.Edge) (k v : Nat) :
    k ≤ g.depth v ↔ Base.ChainTo g.Edge (Finset.range g.nodes.length) k v :=
  Base.le_depth_iff h k v

/-- The depth grows along every chain. -/
theorem depth_lt_of_chain (h : Base.Acyclic g.Edge) {u v : Nat}
    (huv : Relation.TransGen g.Edge u v) : g.depth u < g.depth v := by
  induction huv with
  | single huv => exact nodeDepth_lt h huv.lt.1 huv
  | tail _ hbc ih => exact ih.trans (nodeDepth_lt h hbc.lt.1 hbc)

/-- Above every node there is one of each smaller depth. -/
theorem exists_depth_of_le (h : Base.Acyclic g.Edge) (d m v : Nat) (hv : v < g.nodes.length)
    (hm : g.depth v = m) (hd : d ≤ m) : ∃ u < g.nodes.length, g.depth u = d := by
  induction m generalizing v with
  | zero => exact ⟨v, hv, by omega⟩
  | succ m ih =>
    by_cases heq : d = m + 1
    · exact ⟨v, hv, hm.trans heq.symm⟩
    · obtain ⟨u, hu, -, hdepth⟩ := Base.exists_depth_pred h hm
      exact ih u (Finset.mem_range.mp hu) hdepth (by omega)

/-- No depth up to the largest is left out. -/
theorem exists_depth (h : Base.Acyclic g.Edge) (hn : g.nodes.length ≠ 0) (d : Nat)
    (hd : d ≤ g.maxDepth) : ∃ u < g.nodes.length, g.depth u = d := by
  have hnonempty : (Finset.range g.nodes.length).Nonempty := Finset.nonempty_range_iff.mpr hn
  obtain ⟨v, hv, hmax⟩ := Finset.exists_mem_eq_sup _ hnonempty g.depth
  exact exists_depth_of_le h d _ v (Finset.mem_range.mp hv) hmax.symm hd

end Graph

/-- The order of a graph with nodes is sorted by depth: less deep nodes stand in front of deeper
ones, and the order is the concatenation of one wave for each depth up to the largest. No wave
is empty, and no chain leads from a node of a wave to another one of it. -/
theorem computeTopoOrder_layered (g : Graph) (order : List Nat) (hn : g.nodes.length ≠ 0)
    (h : computeTopoOrder g = .ok order) :
    (∀ v, g.depth v = (preds g.Edge g.nodes.length v).sup fun u ↦ g.depth u + 1) ∧
      (order.Pairwise fun u v ↦ g.depth u ≤ g.depth v) ∧
      (∀ u < g.nodes.length, ∀ v < g.nodes.length, g.depth u < g.depth v →
        order.idxOf u < order.idxOf v) ∧
      order = (List.range (g.maxDepth + 1)).flatMap (g.wave order) ∧
      ∀ d ≤ g.maxDepth, g.wave order d ≠ [] ∧
        ∀ u ∈ g.wave order d, ∀ v ∈ g.wave order d, ¬ Relation.TransGen g.Edge u v := by
  have hacyclic := ((computeTopoOrder_isOk g).mp ⟨order, h⟩).acyclic
  obtain ⟨hperm, -⟩ := computeTopoOrder_sound g order h
  have hmem (v : Nat) : v ∈ order ↔ v < g.nodes.length := by
    rw [hperm.mem_iff, List.mem_range]
  obtain ⟨-, -, -, rfl⟩ := (computeTopoOrder_eq_ok g order).mp h
  have hsorted : g.kahnOrder.Pairwise fun u v ↦ g.depth u ≤ g.depth v :=
    kahnOrder_sorted hacyclic g.edge_lt_left
  refine ⟨Graph.depth_eq hacyclic, hsorted, ?_, ?_, fun d hd ↦ ⟨?_, ?_⟩⟩
  · intro u hu v hv hlt
    exact Base.idxOf_lt_of_key_lt hsorted ((hmem u).mpr hu) ((hmem v).mpr hv) hlt
  · apply Base.eq_flatMap_filter hsorted
    intro v hv
    have hle : g.depth v ≤ g.maxDepth := Finset.le_sup (Finset.mem_range.mpr ((hmem v).mp hv))
    exact Nat.lt_succ_of_le hle
  · obtain ⟨v, hv, hdepth⟩ := Graph.exists_depth hacyclic hn d hd
    have hwave : v ∈ g.wave g.kahnOrder d :=
      List.mem_filter.mpr ⟨(hmem v).mpr hv, decide_eq_true hdepth⟩
    exact List.ne_nil_of_mem hwave
  · intro u hu v hv hchain
    have hlt := Graph.depth_lt_of_chain hacyclic hchain
    have hudepth := of_decide_eq_true (List.mem_filter.mp hu).2
    have hvdepth := of_decide_eq_true (List.mem_filter.mp hv).2
    omega

/-- Two waves: the nodes that read the graph input, and the join behind them. -/
theorem computeTopoOrder_layered_joinFirst :
    computeTopoOrder joinFirst = .ok [1, 2, 0] ∧
      [1, 2, 0] =
        (List.range (joinFirst.maxDepth + 1)).flatMap (joinFirst.wave [1, 2, 0]) := by
  have horder : computeTopoOrder joinFirst = .ok [1, 2, 0] := by decide
  obtain ⟨-, -, -, hwaves, -⟩ := computeTopoOrder_layered joinFirst [1, 2, 0] (by decide) horder
  exact ⟨horder, hwaves⟩

end Eduort
