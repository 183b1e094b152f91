import Eduort.Ir.Validate

/-!
# Topological sort

Models `src/ir/topo_sort.cpp`. Node indices and in-degrees are natural numbers, which a
`std::size_t` holds for every vector; only the decrement of the queue loop can wrap, and
does so here too.
-/

namespace Eduort

/-- One output position of `BuildProducerMap`; `src/ir/topo_sort.cpp:37–48`. -/
def recordProducer (ni : Nat) (producer : NameMap Nat) (out : String) :
    StatusOr (NameMap Nat) :=
  if out = "" then .ok producer else emplaceProducer producer out ni

/-- `BuildProducerMap`; `src/ir/topo_sort.cpp:32`. -/
def buildProducerMap (graph : Graph) : StatusOr (NameMap Nat) :=
  graph.nodes.zipIdx.foldlM (fun producer (node, ni) ↦
    node.outputs.foldlM (recordProducer ni) producer) ∅

/-- `IsSeedValue`; `src/ir/topo_sort.cpp:53`. -/
def isSeedValue (graph : Graph) (name : String) : Bool :=
  if name ∈ graph.initializers then true else graph.graphInputs.any (· == name)

/-- Consumers of each node and number of producers of each node;
`src/ir/topo_sort.cpp:76–77`. -/
structure Wiring where
  adj : List (List Nat)
  indeg : List Nat
  deriving DecidableEq

/-- `adj[pred].push_back(ni)` and `indeg[ni] += 1`. -/
def Wiring.addEdge (w : Wiring) (pred ni : Nat) : Wiring where
  adj := w.adj.modify pred (· ++ [ni])
  indeg := w.indeg.modify ni (· + 1)

/-- The status for an input that nothing defines; `src/ir/topo_sort.cpp:91`. -/
def undefinedStatus (name : String) : Status :=
  Status.error .kModelLoad s!"topo: undefined value '{name}'"

/-- The status for an input that its own node writes; `src/ir/topo_sort.cpp:97`. -/
def selfLoopStatus (node : Node) (name : String) : Status :=
  Status.error .kModelLoad s!"node '{node.name}' consumes its own output '{name}' (self-loop)"

/-- One input of the node at index `ni`, with the producers seen before;
`src/ir/topo_sort.cpp:83–107`. -/
def addInputEdge (graph : Graph) (producer : NameMap Nat) (ni : Nat) (node : Node)
    (st : Wiring × Finset Nat) (name : String) : StatusOr (Wiring × Finset Nat) :=
  if name = "" then .ok st
  else match producer.lookup name with
    | none =>
      if ¬ isSeedValue graph name then .error (undefinedStatus name)
      else .ok st
    | some pred =>
      if pred = ni then .error (selfLoopStatus node name)
      else if pred ∈ st.2 then .ok st
      else .ok (st.1.addEdge pred ni, insert pred st.2)

/-- One node with its index; `src/ir/topo_sort.cpp:79–108`. -/
def addNodeEdges (graph : Graph) (producer : NameMap Nat) (w : Wiring) :
    Node × Nat → StatusOr Wiring
  | (node, ni) => do
    let (w, _) ← node.inputs.foldlM (addInputEdge graph producer ni node) (w, ∅)
    return w

/-- `indeg[v] -= 1` on a `std::size_t`. -/
def decrement (d : Nat) : Nat := if d = 0 then 2 ^ 64 - 1 else d - 1

/-- State of the queue loop; `src/ir/topo_sort.cpp:112–119`. -/
structure KahnState where
  ready : List Nat
  order : List Nat
  indeg : List Nat
  deriving DecidableEq

/-- One consumer of the emitted node; `src/ir/topo_sort.cpp:124–129`. -/
def releaseConsumer (st : KahnState) (v : Nat) : KahnState :=
  let d := decrement (st.indeg.getD v 0)
  { st with indeg := st.indeg.set v d, ready := if d = 0 then st.ready ++ [v] else st.ready }

/-- Emit the front of the queue and release its consumers; `src/ir/topo_sort.cpp:121–130`. -/
def emitNode (adj : List (List Nat)) (st : KahnState) (u : Nat) (rest : List Nat) : KahnState :=
  (adj.getD u []).foldl releaseConsumer { st with ready := rest, order := st.order ++ [u] }

/-- The loop over the queue, cut off after `fuel` iterations; `src/ir/topo_sort.cpp:120`. -/
def kahnLoop (adj : List (List Nat)) : Nat → KahnState → Outcome KahnState
  | 0, st => if st.ready = [] then .ok st else .error .stillRunning
  | fuel + 1, st =>
    match st.ready with
    | [] => .ok st
    | u :: rest => kahnLoop adj fuel (emitNode adj st u rest)

/-- The status of an order that does not list all nodes; `src/ir/topo_sort.cpp:135`. -/
def cycleStatus (n ordered : Nat) : Status :=
  Status.error .kModelLoad
    (s!"graph contains a cycle (topological sort could not order all {n} nodes; " ++
      s!"ordered {ordered})")

/-- `ComputeTopoOrder`; `src/ir/topo_sort.cpp:67`. -/
def computeTopoOrder (graph : Graph) : Outcome (List Nat) := do
  let n := graph.nodes.length
  if n = 0 then return [] else
  let producer ← (buildProducerMap graph : StatusOr _)
  let w ← (graph.nodes.zipIdx.foldlM (addNodeEdges graph producer)
    { adj := .replicate n [], indeg := .replicate n 0 } : StatusOr _)
  let ready := (List.range n).filter fun i ↦ w.indeg.getD i 0 = 0
  let st ← kahnLoop w.adj n { ready, order := [], indeg := w.indeg }
  if st.order.length ≠ n then .error (.status (cycleStatus n st.order.length))
  else return st.order

/-- `PrepareGraphStructure`, the returned status and the graph it leaves;
`src/ir/topo_sort.cpp:145`. -/
def prepareGraphStructure (graph : Graph) : Outcome Unit × Graph :=
  let graph := { graph with topoOrder := [] }
  match validateStructure graph with
  | .error s => (.error (.status s), graph)
  | .ok () =>
    match computeTopoOrder graph with
    | .error stop => (.error stop, graph)
    | .ok order => (.ok (), { graph with topoOrder := order })

end Eduort
