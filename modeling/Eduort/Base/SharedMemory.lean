import Eduort.Base.Block
import Mathlib.Data.List.Count
import Mathlib.Logic.Function.Basic

/-!
# Storage with shared owners

Storage objects live at addresses. Some come from an allocator and have to go back to it exactly
once, others belong to somebody else. A shared pointer refers to a control block that counts the
owners and runs a deleter when the last one lets go. One invariant ties the counts to the shared
pointers that exist; it excludes double and dangling releases and leaks.
-/

namespace Eduort.Base

/-- Who provides a storage object. -/
inductive Origin where
  | allocated
  | host
  deriving DecidableEq, Repr

/-- A storage object during its lifetime. -/
structure Storage where
  block : Block
  origin : Origin
  deriving DecidableEq, Repr

/-- A pointer into a storage object: the address of the object and the distance from there. -/
structure Pointer where
  base : Nat
  offset : Nat
  deriving DecidableEq, Repr

/-- The pointer to the first byte of a storage object. -/
def Pointer.start (a : Nat) : Pointer := ⟨a, 0⟩

/-- What can go wrong with shared storage. -/
inductive HeapFault where
  /-- Storage is given back that the allocator has not handed out. -/
  | invalidFree
  /-- A control block is used after its last owner. -/
  | releasedControl
  /-- Storage is accessed outside its lifetime. -/
  | dangling
  /-- An access to live storage that has no defined meaning. -/
  | access (f : Fault)
  deriving DecidableEq, Repr

/-- What happens to the storage behind the last owner. -/
inductive Deleter where
  | free
  | noop
  deriving DecidableEq, Repr

/-- The control block of a group of shared pointers. -/
structure Control where
  count : Nat
  ptr : Option Pointer
  deleter : Deleter
  deriving DecidableEq, Repr

/-- A shared pointer; an empty one has no control block. -/
structure SharedPtr where
  control : Option Nat
  ptr : Option Pointer
  deriving DecidableEq, Repr

/-- The shared pointer without an owner. -/
def SharedPtr.empty : SharedPtr := ⟨none, none⟩

/-- The live storage by address, the control blocks, and the sizes of the requests that the
allocator has refused, latest first. No operation reads the last. -/
structure Memory where
  storage : Nat → Option Storage
  controls : Nat → Option Control
  nextControl : Nat
  refused : List Nat

namespace Memory

/-- Nothing is allocated and nothing shared. -/
def empty : Memory := ⟨fun _ ↦ none, fun _ ↦ none, 0, []⟩

/-- Begin or overwrite a storage object. -/
def provide (m : Memory) (a : Nat) (s : Storage) : Memory :=
  { m with storage := Function.update m.storage a (some s) }

/-- End a storage object. -/
def withdraw (m : Memory) (a : Nat) : Memory :=
  { m with storage := Function.update m.storage a none }

/-- The allocator refuses a request. -/
def refuse (m : Memory) (n : Nat) : Memory := { m with refused := n :: m.refused }

/-- Give storage back to the allocator; null is ignored. -/
def free (m : Memory) : Option Pointer → Except HeapFault Memory
  | none => .ok m
  | some q =>
    match m.storage q.base with
    | some s =>
      if s.origin = .allocated ∧ q.offset = 0 then .ok (m.withdraw q.base)
      else .error .invalidFree
    | none => .error .invalidFree

/-- Change a control block. -/
def setControl (m : Memory) (c : Nat) (k : Option Control) : Memory :=
  { m with controls := Function.update m.controls c k }

/-- A first owner, with a new control block. -/
def share (m : Memory) (ptr : Option Pointer) (deleter : Deleter) : SharedPtr × Memory :=
  (⟨some m.nextControl, ptr⟩,
    { m.setControl m.nextControl (some ⟨1, ptr, deleter⟩) with nextControl := m.nextControl + 1 })

/-- One more owner. -/
def acquire (m : Memory) (p : SharedPtr) : Except HeapFault Memory :=
  match p.control with
  | none => .ok m
  | some c =>
    match m.controls c with
    | none => .error .releasedControl
    | some k => .ok (m.setControl c (some { k with count := k.count + 1 }))

/-- The deleter of a control block. -/
def runDeleter (m : Memory) (k : Control) : Except HeapFault Memory :=
  match k.deleter with
  | .free => m.free k.ptr
  | .noop => .ok m

/-- One owner less; the last one runs the deleter. -/
def release (m : Memory) (p : SharedPtr) : Except HeapFault Memory :=
  match p.control with
  | none => .ok m
  | some c =>
    match m.controls c with
    | none => .error .releasedControl
    | some k =>
      if k.count ≤ 1 then (m.setControl c none).runDeleter k
      else .ok (m.setControl c (some { k with count := k.count - 1 }))

/-- The bytes that a pointer points to, up to the end of the storage. -/
def blockAt (m : Memory) (ptr : Option Pointer) : Option Block :=
  ptr.bind fun q ↦ (m.storage q.base).map fun s ↦ s.block.drop q.offset

/-- Store bytes through a pointer. -/
def store (m : Memory) (ptr : Option Pointer) (offset : Nat) (bytes : List UInt8) :
    Except HeapFault Memory :=
  match ptr with
  | none => .error (.access .nullPointer)
  | some q =>
    match m.storage q.base with
    | none => .error .dangling
    | some s =>
      if q.offset + offset + bytes.length ≤ s.block.size then
        .ok (m.provide q.base { s with block := s.block.overwrite (q.offset + offset) bytes })
      else .error (.access .outOfBounds)

/-- The address holds storage that the allocator has handed out. -/
def Allocated (m : Memory) (a : Nat) : Prop :=
  ∃ s, m.storage a = some s ∧ s.origin = .allocated

/-! ### Access lemmas -/

section Access

variable (m : Memory) (a b c d : Nat) (s : Storage) (k : Option Control)

@[simp] private theorem controls_provide : (m.provide a s).controls = m.controls := rfl

@[simp] private theorem controls_withdraw : (m.withdraw a).controls = m.controls := rfl

@[simp] private theorem storage_setControl : (m.setControl c k).storage = m.storage := rfl

theorem storage_provide :
    (m.provide a s).storage b = if b = a then some s else m.storage b := by
  rw [provide]
  exact Function.update_apply m.storage a (some s) b

theorem storage_withdraw : (m.withdraw a).storage b = if b = a then none else m.storage b := by
  rw [withdraw]
  exact Function.update_apply m.storage a none b

theorem blockAt_of_storage (q : Pointer) (h : m.storage q.base = some s) :
    m.blockAt (some q) = some (s.block.drop q.offset) := by
  rw [blockAt, Option.bind_some, h]
  rfl

/-- From the first byte on, a pointer points to the whole storage. -/
theorem blockAt_start (h : m.storage a = some s) : m.blockAt (some (.start a)) = some s.block :=
  m.blockAt_of_storage s (.start a) h

theorem blockAt_provide (q : Pointer) :
    (m.provide a s).blockAt (some q) =
      if q.base = a then some (s.block.drop q.offset) else m.blockAt (some q) := by
  rw [blockAt, blockAt, Option.bind_some, Option.bind_some, storage_provide]
  split
  · rfl
  · rfl

/-- The first owner of new storage points to all of it. -/
theorem blockAt_share_provide (deleter : Deleter) :
    ((m.provide a s).share (some (.start a)) deleter).2.blockAt (some (.start a)) =
      some s.block := by
  apply blockAt_start
  exact Function.update_self a _ _

theorem controls_setControl :
    (m.setControl c k).controls d = if d = c then k else m.controls d := by
  rw [setControl]
  exact Function.update_apply m.controls c k d

theorem allocated_provide :
    (m.provide a s).Allocated b ↔
      if b = a then s.origin = .allocated else m.Allocated b := by
  rw [Allocated, storage_provide]
  split
  · simp
  · exact Iff.rfl

private theorem allocated_withdraw : (m.withdraw a).Allocated b ↔ b ≠ a ∧ m.Allocated b := by
  rw [Allocated, storage_withdraw]
  split
  · next h => simp [h]
  · next h => exact (and_iff_right h).symm

end Access

/-- A pointer reads the same while the storage behind it is the same. -/
theorem blockAt_congr {m m' : Memory} {ptr : Option Pointer}
    (h : ∀ q, ptr = some q → m'.storage q.base = m.storage q.base) :
    m'.blockAt ptr = m.blockAt ptr := by
  cases ptr with
  | none => rfl
  | some q => rw [blockAt, blockAt, Option.bind_some, Option.bind_some, h q rfl]

/-- What a store does where there is room. -/
theorem store_of_fits {m : Memory} {q : Pointer} {s : Storage} (hs : m.storage q.base = some s)
    {offset : Nat} {bytes : List UInt8} (hfits : q.offset + offset + bytes.length ≤ s.block.size) :
    m.store (some q) offset bytes =
      .ok (m.provide q.base { s with block := s.block.overwrite (q.offset + offset) bytes }) := by
  simp only [store, hs, if_pos hfits]

/-- What a store that goes well has found and done. -/
theorem store_eq_ok {m m' : Memory} {ptr : Option Pointer} {offset : Nat} {bytes : List UInt8}
    (h : m.store ptr offset bytes = .ok m') :
    ∃ q s, ptr = some q ∧ m.storage q.base = some s ∧
      q.offset + offset + bytes.length ≤ s.block.size ∧
      m' = m.provide q.base { s with block := s.block.overwrite (q.offset + offset) bytes } := by
  unfold store at h
  split at h
  · cases h
  · next q =>
    split at h
    · cases h
    · next s hs =>
      split at h
      · next hfits => exact ⟨q, s, rfl, hs, hfits, (Except.ok.inj h).symm⟩
      · cases h

/-- Giving storage back works exactly for what is allocated. -/
theorem free_some {m : Memory} {a : Nat} (h : m.Allocated a) :
    m.free (some (.start a)) = .ok (m.withdraw a) := by
  obtain ⟨s, hs, horigin⟩ := h
  simp only [free, Pointer.start, hs, and_true, if_pos horigin]

end Memory

/-! ### What persists -/

namespace Memory

/-- Control blocks and storage objects that are still there are still of the same kind. -/
structure Keeps (m m' : Memory) : Prop where
  deleter : ∀ c k k', m.controls c = some k → m'.controls c = some k' → k'.deleter = k.deleter
  size : ∀ a s s', m.storage a = some s → m'.storage a = some s' → s'.block.size = s.block.size

section Keeps

variable {m m' : Memory}

theorem Keeps.refl (m : Memory) : m.Keeps m where
  deleter _ _ _ hk hk' := by
    rw [hk] at hk'
    cases hk'
    rfl
  size _ _ _ hs hs' := by
    rw [hs] at hs'
    cases hs'
    rfl

/-- Storage changes only where it was not, or keeps its size. -/
theorem keeps_provide (a : Nat) (s : Storage)
    (h : ∀ old, m.storage a = some old → s.block.size = old.block.size) :
    m.Keeps (m.provide a s) where
  deleter := (Keeps.refl m).deleter
  size a' old s' hold hs' := by
    rw [m.storage_provide] at hs'
    split at hs'
    · next heq =>
      cases hs'
      exact h old (heq ▸ hold)
    · exact (Keeps.refl m).size a' old s' hold hs'

theorem keeps_withdraw (a : Nat) : m.Keeps (m.withdraw a) where
  deleter := (Keeps.refl m).deleter
  size a' old s' hold hs' := by
    rw [m.storage_withdraw] at hs'
    split at hs'
    · cases hs'
    · exact (Keeps.refl m).size a' old s' hold hs'

/-- A control block changes to one of the same kind, or goes. -/
theorem keeps_setControl (c : Nat) (k : Option Control)
    (h : ∀ old new, m.controls c = some old → k = some new → new.deleter = old.deleter) :
    m.Keeps (m.setControl c k) where
  deleter d old new hold hnew := by
    rw [m.controls_setControl] at hnew
    split at hnew
    · next heq => exact h old new (heq ▸ hold) hnew
    · exact (Keeps.refl m).deleter d old new hold hnew
  size := (Keeps.refl m).size

theorem keeps_share (ptr : Option Pointer) (deleter : Deleter)
    (h : m.controls m.nextControl = none) : m.Keeps (m.share ptr deleter).2 := by
  have hset := keeps_setControl (m := m) m.nextControl (some ⟨1, ptr, deleter⟩) <| by
    intro old new hold
    rw [h] at hold
    cases hold
  exact ⟨hset.deleter, hset.size⟩

/-- Giving storage back ends at most that storage. -/
theorem free_eq_ok {ptr : Option Pointer} (h : m.free ptr = .ok m') :
    m' = m ∨ ∃ a, m' = m.withdraw a := by
  unfold free at h
  split at h
  · exact Or.inl (Except.ok.inj h).symm
  · split at h
    · split at h
      · exact Or.inr ⟨_, (Except.ok.inj h).symm⟩
      · cases h
    · cases h

end Keeps

end Memory

/-- How many of the shared pointers own a control block. -/
def ownerCount (owners : List SharedPtr) (c : Nat) : Nat := owners.countP (·.control = some c)

private theorem ownerCount_cons (p : SharedPtr) (owners : List SharedPtr) (c : Nat) :
    ownerCount (p :: owners) c = ownerCount owners c + if p.control = some c then 1 else 0 := by
  rw [ownerCount, ownerCount, List.countP_cons]
  simp only [decide_eq_true_eq]

/-- The memory and the shared pointers that exist fit together. -/
structure RefCounted (m : Memory) (owners : List SharedPtr) : Prop where
  counted : ∀ c k, m.controls c = some k → k.count = ownerCount owners c ∧ 0 < k.count
  pointsTo : ∀ p ∈ owners, ∀ c, p.control = some c → ∃ k, m.controls c = some k ∧ k.ptr = p.ptr
  emptyPtr : ∀ p ∈ owners, p.control = none → p.ptr = none
  owned : ∀ c k, m.controls c = some k → k.deleter = .free →
    ∃ a, k.ptr = some (.start a) ∧ m.Allocated a
  ownedOnce : ∀ c c' k k', m.controls c = some k → m.controls c' = some k' →
    k.deleter = .free → k'.deleter = .free → k.ptr = k'.ptr → c = c'
  noLeak : ∀ a, m.Allocated a →
    ∃ c k, m.controls c = some k ∧ k.deleter = .free ∧ k.ptr = some (.start a)
  fresh : ∀ c, m.nextControl ≤ c → m.controls c = none

namespace RefCounted

variable {m : Memory} {owners : List SharedPtr}

theorem empty : RefCounted Memory.empty [] where
  counted _ _ hk := by cases hk
  pointsTo _ hp := by cases hp
  emptyPtr _ hp := by cases hp
  owned _ _ hk := by cases hk
  ownedOnce _ _ _ _ hk := by cases hk
  noLeak _ ha := by
    obtain ⟨s, hs, -⟩ := ha
    cases hs
  fresh _ _ := rfl

/-- The order of the owners does not matter. -/
theorem perm {owners' : List SharedPtr} (h : RefCounted m owners) (hperm : owners.Perm owners') :
    RefCounted m owners' where
  counted c k hk := by
    have hcount : ownerCount owners' c = ownerCount owners c := (hperm.countP_eq _).symm
    rw [hcount]
    exact h.counted c k hk
  pointsTo p hp := h.pointsTo p (hperm.mem_iff.mpr hp)
  emptyPtr p hp := h.emptyPtr p (hperm.mem_iff.mpr hp)
  owned := h.owned
  ownedOnce := h.ownedOnce
  noLeak := h.noLeak
  fresh := h.fresh

/-- Only allocated storage matters. -/
theorem congr {m' : Memory} (h : RefCounted m owners) (hcontrols : m'.controls = m.controls)
    (hnext : m'.nextControl = m.nextControl) (halloc : ∀ a, m'.Allocated a ↔ m.Allocated a) :
    RefCounted m' owners where
  counted := hcontrols ▸ h.counted
  pointsTo := hcontrols ▸ h.pointsTo
  emptyPtr := h.emptyPtr
  owned := by
    simp only [hcontrols, halloc]
    exact h.owned
  ownedOnce := hcontrols ▸ h.ownedOnce
  noLeak := by
    simp only [hcontrols, halloc]
    exact h.noLeak
  fresh := hcontrols ▸ hnext ▸ h.fresh

/-- Somebody else's storage begins. -/
theorem provideHost (h : RefCounted m owners) {a : Nat} (b : Block) (ha : m.storage a = none) :
    RefCounted (m.provide a ⟨b, .host⟩) owners := by
  refine h.congr (m.controls_provide a _) rfl fun a' ↦ ?_
  rw [m.allocated_provide]
  split
  · next heq =>
    subst heq
    simp [Memory.Allocated, ha]
  · exact Iff.rfl

/-- Somebody else's storage ends. -/
theorem withdrawHost (h : RefCounted m owners) {a : Nat} {s : Storage} (ha : m.storage a = some s)
    (hhost : s.origin = .host) : RefCounted (m.withdraw a) owners := by
  refine h.congr (m.controls_withdraw a) rfl fun a' ↦ ?_
  rw [m.allocated_withdraw, and_iff_right_iff_imp]
  rintro ⟨s', hs', horigin⟩ rfl
  rw [ha] at hs'
  cases hs'
  rw [hhost] at horigin
  cases horigin

/-- The contents of a storage object change. -/
theorem overwrite (h : RefCounted m owners) {a : Nat} {s : Storage} (ha : m.storage a = some s)
    (b : Block) : RefCounted (m.provide a { s with block := b }) owners := by
  refine h.congr (m.controls_provide a _) rfl fun a' ↦ ?_
  rw [m.allocated_provide]
  split
  · next heq =>
    subst heq
    simp [Memory.Allocated, ha]
  · exact Iff.rfl

/-- A request is refused. -/
theorem refuse (h : RefCounted m owners) (n : Nat) : RefCounted (m.refuse n) owners :=
  h.congr rfl rfl fun _ ↦ Iff.rfl

/-- An empty pointer joins the owners. -/
theorem addEmpty (h : RefCounted m owners) : RefCounted m (SharedPtr.empty :: owners) where
  counted c k hk := by
    rw [ownerCount_cons]
    exact h.counted c k hk
  pointsTo p hp c hc := by
    rcases List.mem_cons.mp hp with rfl | hp
    · cases hc
    · exact h.pointsTo p hp c hc
  emptyPtr p hp hc := by
    rcases List.mem_cons.mp hp with rfl | hp
    · rfl
    · exact h.emptyPtr p hp hc
  owned := h.owned
  ownedOnce := h.ownedOnce
  noLeak := h.noLeak
  fresh := h.fresh

/-- An empty pointer leaves the owners. -/
theorem dropEmpty {p : SharedPtr} (h : RefCounted m (p :: owners)) (hp : p.control = none) :
    RefCounted m owners where
  counted c k hk := by
    have hcounted := h.counted c k hk
    rw [ownerCount_cons, hp] at hcounted
    exact hcounted
  pointsTo q hq := h.pointsTo q (List.mem_cons_of_mem p hq)
  emptyPtr q hq := h.emptyPtr q (List.mem_cons_of_mem p hq)
  owned := h.owned
  ownedOnce := h.ownedOnce
  noLeak := h.noLeak
  fresh := h.fresh

/-- A control block that nobody has used yet has no owners. -/
theorem ownerCount_next (h : RefCounted m owners) : ownerCount owners m.nextControl = 0 := by
  rw [ownerCount, List.countP_eq_zero]
  intro p hp hcontrol
  obtain ⟨k, hk, -⟩ := h.pointsTo p hp m.nextControl (of_decide_eq_true hcontrol)
  rw [h.fresh m.nextControl (Nat.le_refl _)] at hk
  cases hk

/-- A first owner joins. If its deleter gives storage back, that storage is new. -/
theorem share (h : RefCounted m owners) {m₁ : Memory} (ptr : Option Pointer) (deleter : Deleter)
    (hcontrols : m₁.controls = m.controls) (hnext : m₁.nextControl = m.nextControl)
    (halloc : ∀ a, m₁.Allocated a ↔ m.Allocated a ∨ deleter = .free ∧ ptr = some (.start a))
    (hfree : deleter = .free → ∃ a, ptr = some (.start a) ∧ ¬ m.Allocated a) :
    RefCounted (m₁.share ptr deleter).2 ((m₁.share ptr deleter).1 :: owners) := by
  have hget (d : Nat) : (m₁.share ptr deleter).2.controls d =
      if d = m.nextControl then some ⟨1, ptr, deleter⟩ else m.controls d := by
    rw [← hcontrols, ← hnext]
    exact m₁.controls_setControl m₁.nextControl d _
  have hold {c : Nat} {k : Control} (hk : m.controls c = some k) : c ≠ m.nextControl := by
    rintro rfl
    rw [h.fresh _ (Nat.le_refl _)] at hk
    cases hk
  have hcount (d : Nat) : ownerCount ((m₁.share ptr deleter).1 :: owners) d =
      ownerCount owners d + if d = m.nextControl then 1 else 0 := by
    rw [ownerCount_cons, ← hnext]
    simp only [Memory.share, Option.some.injEq, eq_comm]
  -- nobody else gives the new storage back
  have hnew {c : Nat} {k : Control} (hk : m.controls c = some k) (hkfree : k.deleter = .free)
      (hdeleter : deleter = .free) : k.ptr ≠ ptr := by
    intro heq
    obtain ⟨a, hptr, ha⟩ := h.owned c k hk hkfree
    obtain ⟨a', hptr', ha'⟩ := hfree hdeleter
    rw [heq, hptr'] at hptr
    cases hptr
    exact ha' ha
  constructor
  · intro c k hk
    rw [hget] at hk
    rw [hcount]
    split at hk
    · next heq =>
      cases hk
      rw [heq, h.ownerCount_next, if_pos rfl]
      exact ⟨rfl, Nat.one_pos⟩
    · next hne =>
      rw [if_neg hne]
      exact h.counted c k hk
  · intro p hp c hc
    rcases List.mem_cons.mp hp with rfl | hp
    · cases hc
      exact ⟨⟨1, ptr, deleter⟩, by rw [hget, hnext, if_pos rfl], rfl⟩
    · obtain ⟨k, hk, hptr⟩ := h.pointsTo p hp c hc
      exact ⟨k, by rw [hget, if_neg (hold hk)]; exact hk, hptr⟩
  · intro p hp hc
    rcases List.mem_cons.mp hp with rfl | hp
    · cases hc
    · exact h.emptyPtr p hp hc
  · intro c k hk hkfree
    have hallocated (a : Nat) : (m₁.share ptr deleter).2.Allocated a ↔ m₁.Allocated a := Iff.rfl
    rw [hget] at hk
    split at hk
    · cases hk
      obtain ⟨a, hptr, -⟩ := hfree hkfree
      exact ⟨a, hptr, (hallocated a).mpr ((halloc a).mpr (Or.inr ⟨hkfree, hptr⟩))⟩
    · obtain ⟨a, hptr, ha⟩ := h.owned c k hk hkfree
      exact ⟨a, hptr, (hallocated a).mpr ((halloc a).mpr (Or.inl ha))⟩
  · intro c c' k k' hk hk' hkfree hkfree' hptr
    rw [hget] at hk hk'
    split at hk <;> split at hk'
    · next heq heq' => exact heq.trans heq'.symm
    · cases hk
      exact absurd hptr.symm (hnew hk' hkfree' hkfree)
    · cases hk'
      exact absurd hptr (hnew hk hkfree hkfree')
    · exact h.ownedOnce c c' k k' hk hk' hkfree hkfree' hptr
  · intro a ha
    rcases (halloc a).mp ha with ha | ⟨hdeleter, hptr⟩
    · obtain ⟨c, k, hk, hkfree, hptr⟩ := h.noLeak a ha
      exact ⟨c, k, by rw [hget, if_neg (hold hk)]; exact hk, hkfree, hptr⟩
    · exact ⟨m.nextControl, ⟨1, ptr, deleter⟩, by rw [hget, if_pos rfl], hdeleter, hptr⟩
  · intro c hc
    have hle : m.nextControl + 1 ≤ c := by
      rw [← hnext]
      exact hc
    rw [hget, if_neg (by omega)]
    exact h.fresh c (by omega)

/-- Newly allocated storage with its first owner. -/
theorem shareAllocated (h : RefCounted m owners) {a : Nat} (b : Block)
    (ha : m.storage a = none) :
    RefCounted ((m.provide a ⟨b, .allocated⟩).share (some (.start a)) .free).2
      (((m.provide a ⟨b, .allocated⟩).share (some (.start a)) .free).1 :: owners) := by
  have hfresh : ¬ m.Allocated a := by
    rintro ⟨s, hs, -⟩
    rw [ha] at hs
    cases hs
  refine h.share (some (.start a)) .free (m.controls_provide a _) rfl ?_ ?_
  · intro a'
    rw [m.allocated_provide]
    split
    · next heq => simp [heq]
    · next hne => simp [Pointer.start, Ne.symm hne]
  · intro _
    exact ⟨a, rfl, hfresh⟩

/-- A first owner that only borrows. -/
theorem shareBorrowed (h : RefCounted m owners) (ptr : Option Pointer) :
    RefCounted (m.share ptr .noop).2 ((m.share ptr .noop).1 :: owners) := by
  apply h.share ptr .noop rfl rfl
  · intro a
    simp
  · intro hfree
    cases hfree

/-- A control block with owners, and how many there are. -/
theorem control_eq (h : RefCounted m owners) {p : SharedPtr} (hp : p ∈ owners) {c : Nat}
    (hc : p.control = some c) :
    ∃ k, m.controls c = some k ∧ k.ptr = p.ptr ∧ k.count = ownerCount owners c ∧ 0 < k.count := by
  obtain ⟨k, hk, hptr⟩ := h.pointsTo p hp c hc
  exact ⟨k, hk, hptr, h.counted c k hk⟩

/-- The count of a control block changes together with its owners. -/
theorem recount (h : RefCounted m owners) {owners' : List SharedPtr} {c : Nat} {k : Control}
    (hk : m.controls c = some k) (count : Nat) (hsub : ∀ p ∈ owners', p ∈ owners)
    (hcount : count = ownerCount owners' c) (hpos : 0 < count)
    (hother : ∀ d ≠ c, ownerCount owners' d = ownerCount owners d) :
    RefCounted (m.setControl c (some { k with count })) owners' where
  counted d k' hk' := by
    rw [m.controls_setControl] at hk'
    split at hk'
    · next heq =>
      cases hk'
      exact heq ▸ ⟨hcount, hpos⟩
    · next hne =>
      rw [hother d hne]
      exact h.counted d k' hk'
  pointsTo p hp d hd := by
    obtain ⟨k', hk', hptr⟩ := h.pointsTo p (hsub p hp) d hd
    rw [m.controls_setControl]
    split
    · next heq =>
      subst heq
      rw [hk] at hk'
      cases hk'
      exact ⟨_, rfl, hptr⟩
    · exact ⟨k', hk', hptr⟩
  emptyPtr p hp := h.emptyPtr p (hsub p hp)
  owned d k' hk' hfree := by
    rw [m.controls_setControl] at hk'
    split at hk'
    · cases hk'
      exact h.owned c k hk hfree
    · exact h.owned d k' hk' hfree
  ownedOnce d d' k₁ k₂ hk₁ hk₂ hfree₁ hfree₂ hptr := by
    have hold {e : Nat} {k' : Control} (hk' : (m.setControl c (some { k with count })).controls e =
        some k') : ∃ k₀, m.controls e = some k₀ ∧ k₀.ptr = k'.ptr ∧ k₀.deleter = k'.deleter := by
      rw [m.controls_setControl] at hk'
      split at hk'
      · next heq =>
        cases hk'
        exact ⟨k, heq ▸ hk, rfl, rfl⟩
      · exact ⟨k', hk', rfl, rfl⟩
    obtain ⟨k₁', hk₁', hptr₁, hdel₁⟩ := hold hk₁
    obtain ⟨k₂', hk₂', hptr₂, hdel₂⟩ := hold hk₂
    exact h.ownedOnce d d' k₁' k₂' hk₁' hk₂' (hdel₁.trans hfree₁) (hdel₂.trans hfree₂)
      (hptr₁.trans (hptr.trans hptr₂.symm))
  noLeak a ha := by
    obtain ⟨d, k', hk', hfree, hptr⟩ := h.noLeak a ha
    by_cases hd : d = c
    · subst hd
      rw [hk] at hk'
      cases hk'
      exact ⟨d, { k with count }, by rw [m.controls_setControl, if_pos rfl], hfree, hptr⟩
    · exact ⟨d, k', by rw [m.controls_setControl, if_neg hd]; exact hk', hfree, hptr⟩
  fresh d hd := by
    have hnone := h.fresh d hd
    rw [m.controls_setControl]
    split
    · next heq =>
      rw [heq, hk] at hnone
      cases hnone
    · exact hnone

/-- An owner is copied: this never fails and touches no storage. -/
theorem acquire (h : RefCounted m owners) {p : SharedPtr} (hp : p ∈ owners) :
    ∃ m', m.acquire p = .ok m' ∧ RefCounted m' (p :: owners) ∧ m'.storage = m.storage := by
  cases hc : p.control with
  | none =>
    have hempty : p = SharedPtr.empty := by
      obtain ⟨control, ptr⟩ := p
      simp only [SharedPtr.empty, SharedPtr.mk.injEq]
      exact ⟨hc, h.emptyPtr _ hp hc⟩
    refine ⟨m, by rw [Memory.acquire, hc], ?_, rfl⟩
    rw [hempty]
    exact h.addEmpty
  | some c =>
    obtain ⟨k, hk, -, hcount, hpos⟩ := h.control_eq hp hc
    refine ⟨m.setControl c (some { k with count := k.count + 1 }),
      by simp only [Memory.acquire, hc, hk], ?_, rfl⟩
    apply h.recount hk (k.count + 1)
    · intro q hq
      rcases List.mem_cons.mp hq with rfl | hq
      · exact hp
      · exact hq
    · rw [ownerCount_cons, if_pos hc, hcount]
    · omega
    · intro d hd
      rw [ownerCount_cons, hc, if_neg (fun heq ↦ hd (Option.some.inj heq).symm), Nat.add_zero]

/-- A control block goes with its last owner, together with the storage that it owns. -/
theorem removeLast {p : SharedPtr} (h : RefCounted m (p :: owners)) {c : Nat} {k : Control}
    (hc : p.control = some c) (hk : m.controls c = some k) (hlast : ownerCount owners c = 0)
    {m₁ : Memory} (hcontrols : m₁.controls = m.controls) (hnext : m₁.nextControl = m.nextControl)
    (halloc : ∀ a, m₁.Allocated a ↔
      m.Allocated a ∧ ¬ (k.deleter = .free ∧ k.ptr = some (.start a))) :
    RefCounted (m₁.setControl c none) owners := by
  have hget (d : Nat) :
      (m₁.setControl c none).controls d = if d = c then none else m.controls d := by
    rw [← hcontrols]
    exact m₁.controls_setControl c d none
  have hkept {d : Nat} {k' : Control} (hk' : (m₁.setControl c none).controls d = some k') :
      d ≠ c ∧ m.controls d = some k' := by
    rw [hget] at hk'
    split at hk'
    · cases hk'
    · next hne => exact ⟨hne, hk'⟩
  constructor
  · intro d k' hk'
    obtain ⟨hne, hk'⟩ := hkept hk'
    have hcounted := h.counted d k' hk'
    rw [ownerCount_cons, hc, if_neg (fun heq ↦ hne (Option.some.inj heq).symm)] at hcounted
    exact hcounted
  · intro q hq d hd
    obtain ⟨k', hk', hptr⟩ := h.pointsTo q (List.mem_cons_of_mem p hq) d hd
    have hne : d ≠ c := by
      rintro rfl
      rw [ownerCount, List.countP_eq_zero] at hlast
      exact hlast q hq (decide_eq_true hd)
    exact ⟨k', by rw [hget, if_neg hne]; exact hk', hptr⟩
  · intro q hq
    exact h.emptyPtr q (List.mem_cons_of_mem p hq)
  · intro d k' hk' hfree
    obtain ⟨hne, hk'⟩ := hkept hk'
    obtain ⟨a, hptr, ha⟩ := h.owned d k' hk' hfree
    refine ⟨a, hptr, (halloc a).mpr ⟨ha, ?_⟩⟩
    rintro ⟨hkfree, hkptr⟩
    exact hne (h.ownedOnce d c k' k hk' hk hfree hkfree (hptr.trans hkptr.symm))
  · intro d d' k₁ k₂ hk₁ hk₂
    exact h.ownedOnce d d' k₁ k₂ (hkept hk₁).2 (hkept hk₂).2
  · intro a ha
    obtain ⟨ha, hnot⟩ := (halloc a).mp ha
    obtain ⟨d, k', hk', hfree, hptr⟩ := h.noLeak a ha
    have hne : d ≠ c := by
      rintro rfl
      rw [hk] at hk'
      cases hk'
      exact hnot ⟨hfree, hptr⟩
    exact ⟨d, k', by rw [hget, if_neg hne]; exact hk', hfree, hptr⟩
  · intro d hd
    have hle : m.nextControl ≤ d := hnext ▸ hd
    rw [hget]
    split
    · rfl
    · exact h.fresh d hle

/-- An owner lets go: this never fails, and the only storage it can end is the one it points to,
which the allocator then gets back. -/
theorem release {p : SharedPtr} (h : RefCounted m (p :: owners)) :
    ∃ m', m.release p = .ok m' ∧ RefCounted m' owners ∧
      ∀ a, m'.storage a = m.storage a ∨
        p.ptr = some (.start a) ∧ m.Allocated a ∧ m'.storage a = none := by
  cases hc : p.control with
  | none => exact ⟨m, by rw [Memory.release, hc], h.dropEmpty hc, fun _ ↦ Or.inl rfl⟩
  | some c =>
    obtain ⟨k, hk, hptr, hcount, hpos⟩ := h.control_eq List.mem_cons_self hc
    rw [ownerCount_cons, if_pos hc] at hcount
    have hrelease : m.release p = if k.count ≤ 1 then (m.setControl c none).runDeleter k
        else .ok (m.setControl c (some { k with count := k.count - 1 })) := by
      simp only [Memory.release, hc, hk]
    by_cases hlast : k.count ≤ 1
    · have hnone : ownerCount owners c = 0 := by omega
      rw [hrelease, if_pos hlast, Memory.runDeleter]
      cases hdel : k.deleter with
      | noop =>
        refine ⟨m.setControl c none, rfl, ?_, fun _ ↦ Or.inl rfl⟩
        apply h.removeLast hc hk hnone rfl rfl
        intro a
        simp [hdel]
      | free =>
        obtain ⟨a, hkptr, ha⟩ := h.owned c k hk hdel
        have hfree : (m.setControl c none).free (some (.start a)) =
            .ok ((m.setControl c none).withdraw a) := Memory.free_some ha
        refine ⟨(m.withdraw a).setControl c none, by rw [hkptr]; exact hfree, ?_, fun a' ↦ ?_⟩
        · refine h.removeLast hc hk hnone (m.controls_withdraw a) rfl fun a' ↦ ?_
          rw [m.allocated_withdraw, hkptr, Option.some.injEq, and_comm, hdel]
          simp [Pointer.start, eq_comm]
        · rw [Memory.storage_setControl, m.storage_withdraw]
          by_cases heq : a' = a
          · rw [if_pos heq, ← hptr, hkptr, heq]
            exact Or.inr ⟨rfl, ha, rfl⟩
          · rw [if_neg heq]
            exact Or.inl rfl
    · refine ⟨m.setControl c (some { k with count := k.count - 1 }),
        by rw [hrelease, if_neg hlast], ?_, fun _ ↦ Or.inl rfl⟩
      apply h.recount hk (k.count - 1)
      · intro q hq
        exact List.mem_cons_of_mem p hq
      · omega
      · omega
      · intro d hd
        rw [ownerCount_cons, hc, if_neg (fun heq ↦ hd (Option.some.inj heq).symm), Nat.add_zero]

end RefCounted
end Eduort.Base
