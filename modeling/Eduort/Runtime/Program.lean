import Eduort.Base.Simulation
import Eduort.Ir.TopoSort
import Eduort.Onnx.SharedLoader
import Eduort.Tensor.Holding

/-!
# Runs of a program

A program has tensors and graphs in scope. It creates and wraps tensors, loads, builds and prepares
graphs, and copies, moves, overwrites and destroys all of them in any order, while the host begins,
writes to and ends storage of its own. A graph is edited by building it anew from copies of the
tensors in scope, its own among them; the containers of a graph that has been moved from are empty.
-/

namespace Eduort

open Onnx

/-- An object that a variable names, for tensors of any form. -/
inductive ObjectOf (τ : Type) where
  | tensor (t : τ)
  | graph (g : GraphOf τ)

/-- A tensor or graph with its shared pointers. -/
abbrev Object := ObjectOf SharedTensor

/-- Where an object keeps a tensor. -/
inductive Member where
  /-- The tensor is the object. -/
  | itself
  /-- `graph.initializers.at(name)`. -/
  | initializer (name : String)
  /-- `graph.nodes[node].attributes[index].tensor`. -/
  | nodeAttribute (node index : Nat)

namespace ObjectOf

variable {τ σ : Type}

/-- The tensors of an object. -/
def tensors : ObjectOf τ → List τ
  | .tensor t => [t]
  | .graph g => g.tensors

/-- The tensor at a place of an object, if there is one. -/
def find : ObjectOf τ → Member → Option τ
  | .tensor t, .itself => some t
  | .graph g, .initializer name => g.initializers.lookup name
  | .graph g, .nodeAttribute node index =>
    g.nodes[node]?.bind fun n ↦ n.attributes[index]?.bind AttributeOf.tensor
  | _, _ => none

/-- The object with its tensors converted. -/
def map (f : τ → σ) : ObjectOf τ → ObjectOf σ
  | .tensor t => .tensor (f t)
  | .graph g => .graph (g.map f)

/-- What is left of an object that has been moved from, given what is left of a tensor: of a graph
only its numbers. -/
def movedFrom (f : τ → τ) : ObjectOf τ → ObjectOf τ
  | .tensor t => .tensor (f t)
  | .graph g => .graph { opsetVersion := g.opsetVersion, irVersion := g.irVersion }

/-- The object as a value, given a reading of its tensors. -/
def view (f : τ → Tensor) : ObjectOf τ → Tensor ⊕ Graph
  | .tensor t => .inl (f t)
  | .graph g => .inr (g.view f)

/-- A tensor that can be named is one of the object. -/
theorem mem_tensors_of_find {v : ObjectOf τ} {i : Member} {t : τ} (h : v.find i = some t) :
    t ∈ v.tensors := by
  cases v with
  | tensor u =>
    cases i with
    | itself =>
      cases h
      exact List.mem_singleton_self t
    | _ => cases h
  | graph g =>
    cases i with
    | itself => cases h
    | initializer name => exact List.mem_append_left _ (NameMap.mem_values h)
    | nodeAttribute node index =>
      simp only [find, Option.bind_eq_some_iff] at h
      obtain ⟨n, hn, a, ha, ht⟩ := h
      apply List.mem_append_right
      apply List.mem_flatMap.mpr
      refine ⟨n, List.mem_of_getElem? hn, ?_⟩
      apply List.mem_flatMap.mpr
      exact ⟨a, List.mem_of_getElem? ha, Option.mem_toList.mpr ht⟩

section Map

variable (f : τ → σ) (v : ObjectOf τ)

theorem tensors_map : (v.map f).tensors = v.tensors.map f := by
  cases v with
  | tensor t => rfl
  | graph g => exact g.tensors_map f

theorem find_map (i : Member) : (v.map f).find i = (v.find i).map f := by
  cases v with
  | tensor t => cases i <;> rfl
  | graph g =>
    cases i with
    | itself => rfl
    | initializer name => exact NameMap.lookup_mapValues f g.initializers name
    | nodeAttribute node index =>
      simp only [map, GraphOf.map, find, List.getElem?_map]
      cases g.nodes[node]? with
      | none => rfl
      | some n =>
        simp only [Option.map_some, Option.bind_some, NodeOf.map, List.getElem?_map]
        cases n.attributes[index]? with
        | none => rfl
        | some a => rfl

theorem view_map (h : σ → Tensor) : (v.map f).view h = v.view (h ∘ f) := by
  cases v with
  | tensor t => rfl
  | graph g => exact congrArg Sum.inr (g.view_map f h)

end Map

/-- Objects are read through their tensors only. -/
theorem view_congr {f f' : τ → Tensor} (v : ObjectOf τ) (h : ∀ t ∈ v.tensors, f t = f' t) :
    v.view f = v.view f' := by
  cases v with
  | tensor t => exact congrArg Sum.inl (h t (List.mem_singleton_self t))
  | graph g => exact congrArg Sum.inr (g.view_congr h)

end ObjectOf

namespace Object

/-- The shared pointers of the tensors of an object. -/
def buffers (v : Object) : List BufferPtr := v.tensors.map SharedTensor.buffer

/-- The object as a value. -/
def view (m : Base.Memory) (v : Object) : Tensor ⊕ Graph := ObjectOf.view (·.view m) v

theorem view_congr {m m' : Base.Memory} (v : Object)
    (h : ∀ t ∈ v.tensors, m'.blockAt t.buffer.ptr = m.blockAt t.buffer.ptr) :
    v.view m' = v.view m := by
  apply ObjectOf.view_congr
  intro t ht
  rw [SharedTensor.view, SharedTensor.view, h t ht]

/-- Objects own the buffers of their tensors. -/
def reading : Base.Reading Object (Tensor ⊕ Graph) where
  owned := buffers
  view := view
  view_congr _ _ v h := v.view_congr fun t ht ↦ h t.buffer (List.mem_map_of_mem ht)

end Object

/-- The graph with a tensor for each name of one, if all of them are there. -/
def GraphOf.resolve {τ ρ : Type} [Inhabited τ] (find : ρ → Option τ) (g : GraphOf ρ) :
    Option (GraphOf τ) :=
  if ∀ r ∈ g.tensors, (find r).isSome then some (g.map fun r ↦ (find r).getD default) else none

/-- Nothing but what has been found gets into the graph. -/
theorem GraphOf.exists_of_resolve {τ ρ : Type} [Inhabited τ] {find : ρ → Option τ} {g : GraphOf ρ}
    {g' : GraphOf τ} (h : g.resolve find = some g') {t : τ} (ht : t ∈ g'.tensors) :
    ∃ r, find r = some t := by
  rw [resolve] at h
  split at h
  · next hall =>
    cases h
    rw [tensors_map] at ht
    obtain ⟨r, hr, rfl⟩ := List.mem_map.mp ht
    obtain ⟨t, hfound⟩ := Option.isSome_iff_exists.mp (hall r hr)
    rw [hfound]
    exact ⟨r, hfound⟩
  · cases h

/-- Converting what is found converts the graph. -/
theorem GraphOf.resolve_map {τ σ ρ : Type} [Inhabited τ] [Inhabited σ] (f : τ → σ)
    (find : ρ → Option τ) (g : GraphOf ρ) :
    g.resolve (fun r ↦ (find r).map f) = (g.resolve find).map (GraphOf.map f) := by
  simp only [resolve, Option.isSome_map]
  split
  · next hall =>
    rw [Option.map_some, map_map]
    apply congrArg some
    apply g.map_congr
    intro r hr
    obtain ⟨t, hfound⟩ := Option.isSome_iff_exists.mp (hall r hr)
    simp only [hfound, Option.map_some, Option.getD_some, Function.comp_apply]
  · rfl

/-- `PrepareGraphStructure` on a graph that holds tensors, of which it looks at none. -/
def GraphOf.prepare {τ : Type} (f : τ → Tensor) (g : GraphOf τ) : Outcome Unit × GraphOf τ :=
  let (result, graph) := prepareGraphStructure (g.view f)
  (result, { g with topoOrder := graph.topoOrder })

/-- What it leaves reads as what `PrepareGraphStructure` leaves of the value. -/
theorem GraphOf.view_prepare {τ : Type} (f : τ → Tensor) (g : GraphOf τ) :
    (g.prepare f).2.view f = (prepareGraphStructure (g.view f)).2 := by
  have hfields (graph : Graph) : (prepareGraphStructure graph).2 =
      { graph with topoOrder := (prepareGraphStructure graph).2.topoOrder } := by
    unfold prepareGraphStructure
    dsimp only
    split
    · rfl
    · split <;> rfl
  exact (hfields (g.view f)).symm

theorem GraphOf.prepare_congr {τ : Type} {f f' : τ → Tensor} (g : GraphOf τ)
    (h : ∀ t ∈ g.tensors, f t = f' t) : g.prepare f = g.prepare f' := by
  rw [prepare, prepare, g.view_congr h]

/-- A graph with other tensors that read the same is prepared in the same way. -/
theorem GraphOf.prepare_map {τ σ : Type} (f : τ → σ) (h : σ → Tensor) (g : GraphOf τ) :
    ((g.map f).prepare h).2 = (g.prepare (h ∘ f)).2.map f := by
  rw [prepare, prepare, view_map]
  rfl

/-- `PrepareGraphStructure` on a graph with shared pointers. -/
def SharedGraph.prepare (m : Base.Memory) (g : SharedGraph) : Outcome Unit × SharedGraph :=
  GraphOf.prepare (·.view m) g

/-- Where a graph is loaded from. -/
inductive Source where
  /-- `LoadGraphFromModelProto`. -/
  | message (model : ModelProto)
  /-- `LoadGraphFromFile`. -/
  | file (files : String → Option HostFile) (parse : List UInt8 → Option ModelProto)
      (vectorNew : UInt64 → Bool) (path : String) (maxBytes : UInt64)

namespace Source

/-- The call that loads. -/
def load (alloc : HostAllocator) : Source → Base.Call Stop SharedGraph
  | .message model => SharedGraph.fromModelProto alloc model
  | .file files parse vectorNew path maxBytes =>
    SharedGraph.fromFile alloc files parse vectorNew path maxBytes

/-- What is loaded as a value, if storage does not run out. -/
def graph : Source → Outcome Graph
  | .message model => loadGraphFromModelProto (fun _ ↦ true) model
  | .file files parse vectorNew path maxBytes =>
    loadGraphFromFile files parse vectorNew (fun _ ↦ true) path maxBytes

/-- What the tensors of the model ask for. -/
def Requests : Source → Nat → Prop
  | .message model, n => model.Requests n
  | .file files parse vectorNew path maxBytes, n => ∃ model,
    loadModelProtoFromFile files parse vectorNew path maxBytes = .ok model ∧ model.Requests n

end Source

/-- The memory and the objects in scope, by variable. -/
structure Program where
  memory : Base.Memory := .empty
  scope : NameMap Object := ∅

/-- What a program or its host does next. -/
inductive Action where
  /-- The host begins storage of its own. -/
  | hostBegin (a : Nat) (block : Base.Block)
  /-- The host writes to storage of its own. -/
  | hostWrite (a offset : Nat) (bytes : List UInt8)
  /-- The host ends storage of its own. -/
  | hostEnd (a : Nat)
  /-- Assign the result of `Tensor::Create`, if it is one. -/
  | create (x : String) (alloc : HostAllocator) (dt : DataType) (shape : TensorShape)
      (device : DeviceKind)
  /-- Assign the result of `Tensor::FromHostBlob`, if it is one. -/
  | fromHostBlob (x : String) (dt : DataType) (shape : TensorShape) (data : Option Base.Pointer)
      (bytes : UInt64)
  /-- Assign the graph that is loaded, if there is one. -/
  | load (x : String) (alloc : HostAllocator) (source : Source)
  /-- Assign a graph with these fields and copies of the tensors that are named in it, if all of
  them are there. -/
  | build (x : String) (g : GraphOf (String × Member))
  /-- Call `PrepareGraphStructure` on the graph in `x`. -/
  | prepare (x : String)
  /-- Copy the object in `x` to `y`. -/
  | copy (x y : String)
  /-- Copy a tensor of the object in `x` to `y`. -/
  | copyMember (x : String) (i : Member) (y : String)
  /-- Move the object in `x` to `y`. -/
  | move (x y : String)
  /-- The object in `x` goes out of scope. -/
  | drop (x : String)
  /-- Write bytes through `mutable_data()` of a tensor of the object in `x`. -/
  | write (x : String) (i : Member) (offset : Nat) (bytes : List UInt8)

/-- The variables that an action binds anew, changes or unbinds. -/
def Action.targets : Action → List String
  | .create x _ _ _ _ | .fromHostBlob x _ _ _ _ | .load x _ _ | .build x _ | .prepare x
  | .drop x => [x]
  | .copy _ y | .copyMember _ _ y => [y]
  | .move x y => [x, y]
  | .hostBegin _ _ | .hostWrite _ _ _ | .hostEnd _ | .write _ _ _ _ => []

/-- The tensors of all objects in scope. -/
def heldIn (scope : NameMap Object) : List SharedTensor := scope.values.flatMap ObjectOf.tensors

namespace Program

/-- Bind an object to a variable; an object that was bound to it is destroyed. -/
def assign (scope : NameMap Object) (x : String) (v : Object) (m : Base.Memory) :
    Except Base.HeapFault Program :=
  match scope.lookup x with
  | none => .ok ⟨m, scope.insert x v⟩
  | some old => do
    let m ← m.releaseAll old.buffers
    return ⟨m, scope.insert x v⟩

variable (p : Program)

/-- The tensors in use. -/
def held : List SharedTensor := heldIn p.scope

/-- A tensor that the program can name. -/
def find (x : String) (i : Member) : Option SharedTensor :=
  (p.scope.lookup x).bind fun v ↦ v.find i

/-- Assign the object that a call returns, if it is one. -/
def receive (x : String) (call : Base.Call Stop Object) : Except Base.HeapFault Program := do
  let (result, m) ← call.execute p.memory
  match result with
  | .error _ => return { p with memory := m }
  | .ok v => assign p.scope x v m

/-- One action. -/
def step : Action → Except Base.HeapFault Program
  | .hostBegin a block => .ok { p with memory := p.memory.provide a ⟨block, .host⟩ }
  | .hostWrite a offset bytes => do
    let m ← p.memory.store (some (.start a)) offset bytes
    return { p with memory := m }
  | .hostEnd a => .ok { p with memory := p.memory.withdraw a }
  | .create x alloc dt shape device =>
    p.receive x (ObjectOf.tensor <$> SharedTensor.create alloc dt shape device)
  | .fromHostBlob x dt shape data bytes =>
    match SharedTensor.fromHostBlob p.memory dt shape data bytes with
    | .error _ => .ok p
    | .ok (t, m) => assign p.scope x (.tensor t) m
  | .load x alloc source => p.receive x (ObjectOf.graph <$> source.load alloc)
  | .build x g =>
    match g.resolve fun r ↦ p.find r.1 r.2 with
    | none => .ok p
    | some g => do
      let m ← p.memory.acquireAll (SharedGraph.buffers g)
      assign p.scope x (.graph g) m
  | .prepare x =>
    match p.scope.lookup x with
    | some (.graph g) =>
      .ok { p with scope := p.scope.insert x (.graph (SharedGraph.prepare p.memory g).2) }
    | _ => .ok p
  | .copy x y =>
    match p.scope.lookup x with
    | none => .ok p
    | some v => do
      let m ← p.memory.acquireAll v.buffers
      assign p.scope y v m
  | .copyMember x i y =>
    match p.find x i with
    | none => .ok p
    | some t => do
      let m ← p.memory.acquire t.buffer
      assign p.scope y (.tensor t) m
  | .move x y =>
    match p.scope.lookup x with
    | none => .ok p
    | some v => assign (p.scope.insert x (v.movedFrom SharedTensor.movedFrom)) y v p.memory
  | .drop x =>
    match p.scope.lookup x with
    | none => .ok p
    | some v => do
      let m ← p.memory.releaseAll v.buffers
      return ⟨m, p.scope.erase x⟩
  | .write x i offset bytes =>
    match p.find x i with
    | none => .ok p
    | some t => do
      let m ← p.memory.store t.buffer.ptr offset bytes
      return { p with memory := m }

/-- New storage begins where no storage lives, whoever begins it, the host writes to and ends only
storage of its own, and nothing is moved to itself. -/
def Allowed : Action → Prop
  | .hostBegin a _ => p.memory.storage a = none
  | .hostWrite a offset bytes => ∃ s, p.memory.storage a = some s ∧ s.origin = .host ∧
      offset + bytes.length ≤ s.block.size
  | .hostEnd a => ∃ s, p.memory.storage a = some s ∧ s.origin = .host
  | .create _ alloc _ _ _ | .load _ alloc _ => alloc.Fresh
  | .move x y => x ≠ y
  | _ => True

/-- The host, or a tensor that points there, writes to the storage at `a`. -/
def WritesTo (action : Action) (a : Nat) : Prop :=
  (∃ offset bytes, action = .hostWrite a offset bytes) ∨
    ∃ x i offset bytes t q, action = .write x i offset bytes ∧ p.find x i = some t ∧
      t.buffer.ptr = some q ∧ q.base = a

/-- A step through an action that is allowed and satisfies a condition. -/
structure Does (cond : Program → Action → Prop) (p : Program) (action : Action) (p' : Program) :
    Prop where
  allowed : p.Allowed action
  cond : cond p action
  step : p.step action = .ok p'

/-- A run through actions that all satisfy a condition. -/
abbrev Leads (cond : Program → Action → Prop) (p : Program) (actions : List Action)
    (p' : Program) : Prop := Base.Trace (Does cond) p actions p'

/-- The states that a program reaches from nothing. -/
def Reached (p : Program) : Prop := ∃ actions, Leads (fun _ _ ↦ True) {} actions p

/-- What every reachable state satisfies. -/
def Sound (p : Program) : Prop := Holds p.memory p.held

end Program

/-! ### Objects and their tensors -/

section Scope

variable {scope : NameMap Object} {x : String} {v : Object}

/-- An object in scope contributes its tensors. -/
theorem heldIn_perm (h : scope.lookup x = some v) :
    (heldIn scope).Perm (v.tensors ++ heldIn (scope.erase x)) :=
  (NameMap.values_perm h).flatMap_right ObjectOf.tensors

/-- An object that is bound contributes its tensors instead of those of the old one. -/
theorem heldIn_insert (v : Object) :
    heldIn (scope.insert x v) = v.tensors ++ heldIn (scope.erase x) := rfl

theorem subset_heldIn (h : scope.lookup x = some v) : v.tensors ⊆ heldIn scope := by
  intro t ht
  rw [(heldIn_perm h).mem_iff]
  exact List.mem_append_left _ ht

/-- What is left when a variable is unbound was there before. -/
theorem heldIn_erase_subset : heldIn (scope.erase x) ⊆ heldIn scope := by
  intro t ht
  cases h : scope.lookup x with
  | none =>
    rw [NameMap.erase_of_lookup_none h] at ht
    exact ht
  | some v =>
    rw [(heldIn_perm h).mem_iff]
    exact List.mem_append_right _ ht

end Scope

end Eduort
