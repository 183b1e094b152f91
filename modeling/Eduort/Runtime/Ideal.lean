import Eduort.Runtime.Program

/-!
# Programs without lifetimes

What a program means to somebody who does not think of storage: a buffer is a cell that belongs to
the tensor it was made for and to its copies, nobody counts or frees it, and it has no address.
Only the host's storage is known by the pointers that the host lends. Actions are those of a
program; values come from the functions on values, and requests that are refused are kept track of.
-/

namespace Eduort

open Onnx

/-- What a tensor refers to. -/
inductive Ref where
  | null
  | cell (id : Nat)
  | host (q : Base.Pointer)
  deriving DecidableEq, Repr

/-- A tensor that refers to its bytes. -/
structure RefTensor where
  dtype : DataType
  shape : TensorShape
  device : DeviceKind
  ref : Ref
  nbytes : UInt64
  ownsData : Bool
  deriving DecidableEq, Repr

instance : Inhabited RefTensor := ⟨⟨.kFloat32, ⟨[]⟩, .kCPU, .null, 0, true⟩⟩

/-- What is left of a tensor that has been moved from. -/
def RefTensor.movedFrom (t : RefTensor) : RefTensor := { t with shape := ⟨[]⟩, ref := .null }

/-- A tensor with the fields of a value. -/
def RefTensor.ofValue (t : Tensor) (ref : Ref) : RefTensor :=
  ⟨t.dtype, t.shape, t.device, ref, t.nbytes, t.ownsData⟩

/-- What the host lends. -/
def Ref.ofHost : Option Base.Pointer → Ref
  | none => .null
  | some q => .host q

/-- The cells, the storage of the host, the objects in scope, and the sizes of the requests that
have been refused. -/
structure Ideal where
  cells : Nat → Option Base.Block := fun _ ↦ none
  hosts : Nat → Option Base.Block := fun _ ↦ none
  scope : String → Option (ObjectOf RefTensor) := fun _ ↦ none
  refused : List Nat := []

namespace Ideal

variable (s : Ideal)

/-- The bytes that a reference stands for. -/
def blockAt : Ref → Option Base.Block
  | .null => none
  | .cell id => s.cells id
  | .host q => (s.hosts q.base).map fun b ↦ b.drop q.offset

/-- A tensor as a value. -/
def view (t : RefTensor) : Tensor where
  dtype := t.dtype
  shape := t.shape
  device := t.device
  buffer := s.blockAt t.ref
  nbytes := t.nbytes
  ownsData := t.ownsData

/-- A tensor that can be named. -/
def find (x : String) (i : Member) : Option RefTensor := (s.scope x).bind fun v ↦ v.find i

/-- Bind an object to a variable, or unbind the variable. -/
def assign (x : String) (v : Option (ObjectOf RefTensor)) : Ideal :=
  { s with scope := Function.update s.scope x v }

/-- There are bytes to write. -/
def Fits (ref : Ref) (offset n : Nat) : Prop := ∃ b, s.blockAt ref = some b ∧ offset + n ≤ b.size

/-- Write bytes through a reference. -/
def overwrite (offset : Nat) (bytes : List UInt8) : Ref → Ideal
  | .null => s
  | .cell id =>
    { s with cells := Function.update s.cells id ((s.cells id).map (·.overwrite offset bytes)) }
  | .host q =>
    { s with
      hosts := Function.update s.hosts q.base
        ((s.hosts q.base).map (·.overwrite (q.offset + offset) bytes)) }

theorem scope_overwrite (offset : Nat) (bytes : List UInt8) (ref : Ref) :
    (s.overwrite offset bytes ref).scope = s.scope := by
  cases ref with
  | null => rfl
  | cell id => rfl
  | host q => rfl

/-- An object that reads as a value, and whose tensors have new cells, each its own. -/
structure New (v : ObjectOf RefTensor) (value : Tensor ⊕ Graph) (cells : Nat → Option Base.Block) :
    Prop where
  kept : ∀ id b, s.cells id = some b → cells id = some b
  fresh : ∀ t ∈ v.tensors, t.ref = .null ∨ ∃ id, t.ref = .cell id ∧ s.cells id = none
  distinct : v.tensors.Pairwise fun t u ↦ t.ref = u.ref → t.ref = .null
  view_eq : v.view (view { s with cells }) = value

/-- A variable is bound to a new object. -/
def Binds (x : String) (value : Tensor ⊕ Graph) (s' : Ideal) : Prop :=
  ∃ v cells, s.New v value cells ∧ s' = assign { s with cells } x (some v)

/-- A call returns an error, is refused something that it asks for, or makes an object that is then
bound to a variable. -/
inductive Receives (Refusal : Base.Memory → Nat → Stop → Prop) (answer : Outcome (Tensor ⊕ Graph))
    (x : String) : Ideal → Prop
  | error {stop : Stop} (h : answer = .error stop) : Receives Refusal answer x s
  | refused {m : Base.Memory} {n : Nat} {stop : Stop} (h : Refusal m n stop) :
      Receives Refusal answer x { s with refused := n :: s.refused }
  | ok {value : Tensor ⊕ Graph} {s' : Ideal} (hanswer : answer = .ok value)
      (h : s.Binds x value s') : Receives Refusal answer x s'

/-- What an action leads to. -/
def Step : Action → Ideal → Prop
  | .hostBegin a block, s' =>
    s.hosts a = none ∧ s' = { s with hosts := Function.update s.hosts a (some block) }
  | .hostWrite a offset bytes, s' =>
    s.Fits (.host (.start a)) offset bytes.length ∧ s' = s.overwrite offset bytes (.host (.start a))
  | .hostEnd a, s' =>
    s.hosts a ≠ none ∧ s' = { s with hosts := Function.update s.hosts a none }
  | .create x alloc dt shape device, s' =>
    s.Receives (alloc.Refuses fun n ↦ n = Tensor.byteSize dt shape)
      (((Tensor.create (fun _ ↦ true) dt shape device).mapError Stop.status).map Sum.inl) x s'
  | .fromHostBlob x dt shape data bytes, s' =>
    match Tensor.fromHostBlob dt shape (s.blockAt (.ofHost data)) bytes with
    | .error _ => s' = s
    | .ok t => s' = s.assign x (some (.tensor (.ofValue t (.ofHost data))))
  | .load x alloc source, s' =>
    s.Receives (alloc.Refuses source.Requests) (source.graph.map Sum.inr) x s'
  | .build x g, s' =>
    match g.resolve fun r ↦ s.find r.1 r.2 with
    | none => s' = s
    | some g => s' = s.assign x (some (.graph g))
  | .prepare x, s' =>
    match s.scope x with
    | some (.graph g) => s' = s.assign x (some (.graph (g.prepare s.view).2))
    | _ => s' = s
  | .copy x y, s' =>
    match s.scope x with
    | none => s' = s
    | some v => s' = s.assign y (some v)
  | .copyMember x i y, s' =>
    match s.find x i with
    | none => s' = s
    | some t => s' = s.assign y (some (.tensor t))
  | .move x y, s' =>
    match s.scope x with
    | none => s' = s
    | some v => s' = (s.assign x (some (v.movedFrom RefTensor.movedFrom))).assign y (some v)
  | .drop x, s' => s' = s.assign x none
  | .write x i offset bytes, s' =>
    match s.find x i with
    | none => s' = s
    | some t => s.Fits t.ref offset bytes.length ∧ s' = s.overwrite offset bytes t.ref

end Ideal

end Eduort
