import Eduort.Base.OwnedCall
import Eduort.Ir.Graph
import Eduort.Tensor.Sharing

/-!
# Graphs that hold tensors

`Graph`, `Node` and `Attribute` of `include/eduort/graph.h` with the tensors in any form: an
attribute holds at most one, a graph those of its initializers and of its nodes. With tensors that
share buffers they own storage, and each of them reads as a value of the graph IR.
-/

namespace Eduort

/-- `Attribute`, for tensors of any form; `include/eduort/graph.h:23`. -/
structure AttributeOf (τ : Type) where
  name : String := ""
  kind : AttributeKind := .kFloat
  f : UInt32 := 0
  i : Int64 := 0
  ints : List Int64 := []
  s : List UInt8 := []
  tensor : Option τ := none

/-- `Node`; `include/eduort/graph.h:43`. -/
structure NodeOf (τ : Type) where
  name : String := ""
  opType : String := ""
  domain : String := ""
  inputs : List String := []
  outputs : List String := []
  attributes : List (AttributeOf τ) := []

/-- `Graph`; `include/eduort/graph.h:52`. -/
structure GraphOf (τ : Type) where
  name : String := ""
  nodes : List (NodeOf τ) := []
  topoOrder : List Nat := []
  initializers : NameMap τ := ∅
  graphInputs : List String := []
  graphOutputs : List String := []
  valueShapes : NameMap TensorShape := ∅
  opsetVersion : Int64 := 0
  irVersion : Int64 := 0

/-- `Attribute` with the tensor as it is held. -/
abbrev SharedAttribute := AttributeOf SharedTensor

/-- `Node` with the tensors of its attributes. -/
abbrev SharedNode := NodeOf SharedTensor

/-- `Graph` with its tensors. -/
abbrev SharedGraph := GraphOf SharedTensor

/-- A map with its values converted. -/
def NameMap.mapValues {α β : Type} (f : α → β) (xs : NameMap α) : NameMap β where
  entries := xs.entries.map fun e ↦ ⟨e.1, f e.2⟩
  nodupKeys := by
    rw [List.NodupKeys, List.keys, List.map_map]
    exact xs.nodupKeys

/-- The values of a map. -/
def NameMap.values {α : Type} (xs : NameMap α) : List α := xs.entries.map fun e ↦ e.2

namespace NameMap

section Map

variable {α β : Type} (f : α → β) (xs : NameMap α) (x : String)

private theorem entries_mapValues :
    (xs.mapValues f).entries = xs.entries.map fun e ↦ ⟨e.1, f e.2⟩ := rfl

private theorem keys_mapValues : (xs.mapValues f).keys = xs.keys := by
  rw [AList.keys, AList.keys, mapValues, List.keys, List.map_map]
  rfl

theorem mem_mapValues : x ∈ xs.mapValues f ↔ x ∈ xs := by
  show x ∈ (xs.mapValues f).keys ↔ x ∈ xs.keys
  rw [keys_mapValues]

theorem lookup_mapValues : (xs.mapValues f).lookup x = (xs.lookup x).map f := by
  rw [AList.lookup, AList.lookup, entries_mapValues]
  induction xs.entries with
  | nil => rfl
  | cons e entries ih =>
    obtain ⟨y, a⟩ := e
    by_cases heq : x = y
    · subst heq
      rw [List.map_cons, List.dlookup_cons_eq, List.dlookup_cons_eq]
      rfl
    · rw [List.map_cons, List.dlookup_cons_ne _ _ heq, List.dlookup_cons_ne _ _ heq]
      exact ih

private theorem values_mapValues : values (xs.mapValues f) = xs.values.map f := by
  rw [values, values, entries_mapValues, List.map_map, List.map_map]
  rfl

theorem mapValues_insert (a : α) (hx : x ∉ xs) :
    mapValues f (xs.insert x a) = (xs.mapValues f).insert x (f a) := by
  apply AList.ext
  rw [AList.entries_insert_of_notMem ((mem_mapValues f xs x).not.mpr hx), entries_mapValues,
    entries_mapValues, AList.entries_insert_of_notMem hx, List.map_cons]

end Map

section Values

variable {α : Type} {xs : NameMap α} {x : String} {a : α}

/-- A key that is bound contributes its value. -/
theorem values_perm (h : xs.lookup x = some a) : xs.values.Perm (a :: values (xs.erase x)) := by
  have hkeys : x ∈ xs.entries.keys := by
    apply AList.lookup_isSome.mp
    rw [h]
    rfl
  obtain ⟨a', front, back, -, hsplit, herase⟩ := List.exists_of_kerase hkeys
  have ha : a' = a := by
    have hmem : (⟨x, a'⟩ : Sigma fun _ : String ↦ α) ∈ xs.entries := by
      rw [hsplit]
      simp
    have hlookup : xs.lookup x = some a' := AList.mem_lookup_iff.mpr hmem
    exact Option.some.inj (hlookup.symm.trans h)
  have hentries : (xs.erase x).entries = front ++ back := herase
  rw [values, values, hentries, hsplit, ha, List.map_append, List.map_append, List.map_cons]
  exact List.perm_middle

/-- A key that is not bound contributes nothing. -/
theorem erase_of_lookup_none (h : xs.lookup x = none) : xs.erase x = xs := by
  apply AList.ext
  exact List.kerase_of_notMem_keys (AList.lookup_eq_none.mp h)

/-- Binding a key replaces what it contributed. -/
theorem values_insert (a : α) : values (xs.insert x a) = a :: values (xs.erase x) := rfl

theorem mem_values (h : xs.lookup x = some a) : a ∈ xs.values := by
  rw [(values_perm h).mem_iff]
  exact List.mem_cons_self

end Values

end NameMap

/-! ### Tensors in graphs -/

section Tensors

variable {τ σ ρ : Type} (f : τ → σ) (h : σ → Tensor)

namespace AttributeOf

/-- The tensor of the attribute, if there is one. -/
def tensors (a : AttributeOf τ) : List τ := a.tensor.toList

/-- The attribute with its tensor converted. -/
def map (f : τ → σ) (a : AttributeOf τ) : AttributeOf σ :=
  { a with tensor := a.tensor.map f }

/-- The attribute as a value, given a reading of its tensor. -/
def view (f : τ → Tensor) (a : AttributeOf τ) : Attribute :=
  { a with tensor := a.tensor.map f }

private theorem tensors_map (a : AttributeOf τ) : (a.map f).tensors = a.tensors.map f :=
  Option.toList_map

private theorem map_map (f' : σ → ρ) (a : AttributeOf τ) : (a.map f).map f' = a.map (f' ∘ f) := by
  rw [map, map, map, Option.map_map]

private theorem map_congr {f f' : τ → σ} (a : AttributeOf τ) (h : ∀ t ∈ a.tensors, f t = f' t) :
    a.map f = a.map f' := by
  have htensor : a.tensor.map f = a.tensor.map f' := by
    apply Option.map_congr
    intro t ht
    exact h t (Option.mem_toList.mpr ht)
  rw [map, map, htensor]

private theorem view_map (a : AttributeOf τ) : (a.map f).view h = a.view (h ∘ f) := by
  rw [view, view, map, Option.map_map]

private theorem view_congr {f f' : τ → Tensor} (a : AttributeOf τ)
    (h : ∀ t ∈ a.tensors, f t = f' t) : a.view f = a.view f' := by
  have hmap := congrArg (view id) (a.map_congr h)
  rwa [view_map, view_map, Function.id_comp, Function.id_comp] at hmap

end AttributeOf

namespace NodeOf

/-- The tensors of the attributes. -/
def tensors (n : NodeOf τ) : List τ := n.attributes.flatMap AttributeOf.tensors

def map (f : τ → σ) (n : NodeOf τ) : NodeOf σ :=
  { n with attributes := n.attributes.map (AttributeOf.map f) }

def view (f : τ → Tensor) (n : NodeOf τ) : Node :=
  { n with attributes := n.attributes.map (AttributeOf.view f) }

private theorem tensors_map (n : NodeOf τ) : (n.map f).tensors = n.tensors.map f := by
  rw [tensors, tensors, map, List.flatMap_map, List.map_flatMap]
  simp only [AttributeOf.tensors_map]

private theorem map_map (f' : σ → ρ) (n : NodeOf τ) : (n.map f).map f' = n.map (f' ∘ f) := by
  rw [map, map, map, List.map_map]
  have hcomp : AttributeOf.map f' ∘ AttributeOf.map f = AttributeOf.map (f' ∘ f) :=
    funext (AttributeOf.map_map f f')
  rw [hcomp]

private theorem map_congr {f f' : τ → σ} (n : NodeOf τ) (h : ∀ t ∈ n.tensors, f t = f' t) :
    n.map f = n.map f' := by
  have hattributes : n.attributes.map (AttributeOf.map f) =
      n.attributes.map (AttributeOf.map f') := by
    apply List.map_congr_left
    intro a ha
    apply a.map_congr
    intro t ht
    exact h t (List.mem_flatMap.mpr ⟨a, ha, ht⟩)
  rw [map, map, hattributes]

private theorem view_map (n : NodeOf τ) : (n.map f).view h = n.view (h ∘ f) := by
  have hattributes : (n.map f).attributes.map (AttributeOf.view h) =
      n.attributes.map (AttributeOf.view (h ∘ f)) := by
    rw [map, List.map_map]
    apply List.map_congr_left
    intro a _
    exact a.view_map f h
  rw [view, hattributes]
  rfl

private theorem view_congr {f f' : τ → Tensor} (n : NodeOf τ) (h : ∀ t ∈ n.tensors, f t = f' t) :
    n.view f = n.view f' := by
  have hmap := congrArg (view id) (n.map_congr h)
  rwa [view_map, view_map, Function.id_comp, Function.id_comp] at hmap

end NodeOf

namespace GraphOf

/-- The tensors of the initializers and of the nodes. -/
def tensors (g : GraphOf τ) : List τ := g.initializers.values ++ g.nodes.flatMap NodeOf.tensors

def map (f : τ → σ) (g : GraphOf τ) : GraphOf σ :=
  { g with nodes := g.nodes.map (NodeOf.map f), initializers := g.initializers.mapValues f }

def view (f : τ → Tensor) (g : GraphOf τ) : Graph :=
  { g with nodes := g.nodes.map (NodeOf.view f), initializers := g.initializers.mapValues f }

theorem tensors_map (g : GraphOf τ) : (g.map f).tensors = g.tensors.map f := by
  rw [tensors, tensors, map, NameMap.values_mapValues, List.map_append, List.flatMap_map,
    List.map_flatMap]
  simp only [NodeOf.tensors_map]

theorem map_map (f' : σ → ρ) (g : GraphOf τ) : (g.map f).map f' = g.map (f' ∘ f) := by
  have hnodes : (g.map f).nodes.map (NodeOf.map f') = g.nodes.map (NodeOf.map (f' ∘ f)) := by
    rw [map, List.map_map]
    apply List.map_congr_left
    intro n _
    exact n.map_map f f'
  have hinitializers : (g.map f).initializers.mapValues f' =
      g.initializers.mapValues (f' ∘ f) := by
    apply AList.ext
    rw [NameMap.entries_mapValues, NameMap.entries_mapValues, map, NameMap.entries_mapValues,
      List.map_map]
    rfl
  rw [map, hnodes, hinitializers]
  rfl

theorem map_congr {f f' : τ → σ} (g : GraphOf τ) (h : ∀ t ∈ g.tensors, f t = f' t) :
    g.map f = g.map f' := by
  have hnodes : g.nodes.map (NodeOf.map f) = g.nodes.map (NodeOf.map f') := by
    apply List.map_congr_left
    intro n hn
    apply n.map_congr
    intro t ht
    exact h t (List.mem_append_right _ (List.mem_flatMap.mpr ⟨n, hn, ht⟩))
  have hinitializers : g.initializers.mapValues f = g.initializers.mapValues f' := by
    apply AList.ext
    apply List.map_congr_left
    intro e he
    rw [h e.2 (List.mem_append_left _ (List.mem_map_of_mem he))]
  rw [map, map, hnodes, hinitializers]

theorem view_map (g : GraphOf τ) : (g.map f).view h = g.view (h ∘ f) := by
  have hnodes : (g.map f).nodes.map (NodeOf.view h) = g.nodes.map (NodeOf.view (h ∘ f)) := by
    rw [map, List.map_map]
    apply List.map_congr_left
    intro n _
    exact n.view_map f h
  have hinitializers : (g.map f).initializers.mapValues h =
      g.initializers.mapValues (h ∘ f) := by
    apply AList.ext
    rw [NameMap.entries_mapValues, NameMap.entries_mapValues, map, NameMap.entries_mapValues,
      List.map_map]
    rfl
  rw [view, hnodes, hinitializers]
  rfl

theorem view_congr {f f' : τ → Tensor} (g : GraphOf τ) (h : ∀ t ∈ g.tensors, f t = f' t) :
    g.view f = g.view f' := by
  have hmap := congrArg (view id) (g.map_congr h)
  rwa [view_map, view_map, Function.id_comp, Function.id_comp] at hmap

end GraphOf

end Tensors

/-! ### Graphs that share buffers -/

namespace SharedAttribute

/-- The shared pointer of the tensor, if there is one. -/
def buffers (a : SharedAttribute) : List BufferPtr := a.tensors.map SharedTensor.buffer

/-- The attribute as a value. -/
def view (m : Base.Memory) (a : SharedAttribute) : Attribute := AttributeOf.view (·.view m) a

/-- Attributes own the buffers of their tensors. -/
def reading : Base.Reading SharedAttribute Attribute where
  owned := buffers
  view := view
  view_congr m m' a h := by
    apply AttributeOf.view_congr
    intro t ht
    rw [SharedTensor.view, SharedTensor.view, h t.buffer (List.mem_map_of_mem ht)]

end SharedAttribute

namespace SharedNode

/-- The shared pointers of the attributes. -/
def buffers (n : SharedNode) : List BufferPtr := n.tensors.map SharedTensor.buffer

/-- The node as a value. -/
def view (m : Base.Memory) (n : SharedNode) : Node := NodeOf.view (·.view m) n

/-- Nodes own what their attributes own. -/
def reading : Base.Reading SharedNode Node where
  owned := buffers
  view := view
  view_congr m m' n h := by
    apply NodeOf.view_congr
    intro t ht
    rw [SharedTensor.view, SharedTensor.view, h t.buffer (List.mem_map_of_mem ht)]

end SharedNode

namespace SharedGraph

/-- The shared pointers of the initializers and of the nodes. -/
def buffers (g : SharedGraph) : List BufferPtr := g.tensors.map SharedTensor.buffer

/-- The graph as a value. -/
def view (m : Base.Memory) (g : SharedGraph) : Graph := GraphOf.view (·.view m) g

/-- A graph owns what its initializers and nodes own. -/
def reading : Base.Reading SharedGraph Graph where
  owned := buffers
  view := view
  view_congr m m' g h := by
    apply GraphOf.view_congr
    intro t ht
    rw [SharedTensor.view, SharedTensor.view, h t.buffer (List.mem_map_of_mem ht)]

end SharedGraph
end Eduort
