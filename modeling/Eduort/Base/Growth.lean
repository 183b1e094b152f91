import Eduort.Base.SharedMemory

/-!
# Memory that grows and shrinks

While a routine runs, owners of its own join those that there were before. As long as it writes
to nobody else's storage, the memory has only grown, and when its owners have let go, the storage
is what it was. When owners are copied and let go, the memory has only shrunk.
-/

namespace Eduort.Base

namespace Memory

/-- Storage has been allocated, and nothing that was there has changed. Control blocks that are
still there are the same, and their numbers are not used again. -/
structure Grows (m m' : Memory) : Prop where
  kept : ∀ a s, m.storage a = some s → m'.storage a = some s
  began : ∀ a s, m.storage a = none → m'.storage a = some s → s.origin = .allocated
  next_le : m.nextControl ≤ m'.nextControl
  controls : ∀ c k', c < m.nextControl → m'.controls c = some k' →
    ∃ k, m.controls c = some k ∧ k.ptr = k'.ptr ∧ k.deleter = k'.deleter

/-- All owners in a list let go. -/
def releaseAll (m : Memory) (owners : List SharedPtr) : Except HeapFault Memory :=
  owners.foldlM release m

/-- All shared pointers in a list are copied. -/
def acquireAll (m : Memory) (owners : List SharedPtr) : Except HeapFault Memory :=
  owners.foldlM acquire m

/-- Copy `n` bytes to the start of the storage behind a pointer. -/
def memcpy (m : Memory) (ptr : Option Pointer) (source : List UInt8) (n : Nat) :
    Except HeapFault Memory :=
  if n ≤ source.length then m.store ptr 0 (source.take n) else .error (.access .outOfBounds)

/-- Store the elements of a list behind a pointer one after the other, `width` bytes apart. -/
def storeEach {α : Type} (m : Memory) (width : Nat) (encode : α → List UInt8)
    (ptr : Option Pointer) (xs : List α) : Except HeapFault Memory :=
  xs.zipIdx.foldlM (fun m e ↦ m.store ptr (width * e.2) (encode e.1)) m

variable {m₀ m m' : Memory}

theorem Grows.refl (m : Memory) : m.Grows m where
  kept _ _ hs := hs
  began a s hnone hs := by
    rw [hnone] at hs
    cases hs
  next_le := Nat.le_refl _
  controls _ k' _ hk' := ⟨k', hk', rfl, rfl⟩

theorem Grows.trans (h : m₀.Grows m) (h' : m.Grows m') : m₀.Grows m' where
  kept a s hs := h'.kept a s (h.kept a s hs)
  began a s hnone hs := by
    cases hm : m.storage a with
    | none => exact h'.began a s hm hs
    | some s' =>
      rw [h'.kept a s' hm] at hs
      cases hs
      exact h.began a s hnone hm
  next_le := Nat.le_trans h.next_le h'.next_le
  controls c k' hc hk' := by
    obtain ⟨k₁, hk₁, hptr₁, hdel₁⟩ := h'.controls c k' (Nat.lt_of_lt_of_le hc h.next_le) hk'
    obtain ⟨k, hk, hptr, hdel⟩ := h.controls c k₁ hc hk₁
    exact ⟨k, hk, hptr.trans hptr₁, hdel.trans hdel₁⟩

/-- What is behind a live pointer stays. -/
theorem Grows.blockAt_eq (h : m.Grows m') {ptr : Option Pointer}
    (hlive : ∀ q, ptr = some q → m.storage q.base ≠ none) : m'.blockAt ptr = m.blockAt ptr := by
  apply blockAt_congr
  intro q hq
  obtain ⟨s, hs⟩ := Option.ne_none_iff_exists'.mp (hlive q hq)
  rw [hs, h.kept q.base s hs]

/-- A refused request changes no storage. -/
theorem Grows.refuse (h : m₀.Grows m) (n : Nat) : m₀.Grows (m.refuse n) :=
  ⟨h.kept, h.began, h.next_le, h.controls⟩

/-- Storage that has been allocated since may be overwritten. -/
theorem Grows.provide (h : m₀.Grows m) {a : Nat} {s : Storage} (hfresh : m₀.storage a = none)
    (hs : m.storage a = some s) (block : Block) : m₀.Grows (m.provide a { s with block }) where
  kept a' s' hs' := by
    rw [m.storage_provide, if_neg]
    · exact h.kept a' s' hs'
    · rintro rfl
      rw [hfresh] at hs'
      cases hs'
  began a' s' hnone hs' := by
    rw [m.storage_provide] at hs'
    split at hs'
    · cases hs'
      exact h.began a s hfresh hs
    · exact h.began a' s' hnone hs'
  next_le := h.next_le
  controls := h.controls

/-- Newly allocated storage with its first owner. -/
theorem grows_shareAllocated {a : Nat} (block : Block) (ha : m.storage a = none) :
    m.Grows ((m.provide a ⟨block, .allocated⟩).share (some (.start a)) .free).2 where
  kept a' s hs := by
    refine (m.storage_provide a a' _).trans ?_
    rw [if_neg]
    · exact hs
    · rintro rfl
      rw [ha] at hs
      cases hs
  began a' s hnone hs := by
    have hget := m.storage_provide a a' ⟨block, .allocated⟩
    split at hget
    · rw [share, setControl] at hs
      rw [hget] at hs
      cases hs
      rfl
    · rw [share, setControl] at hs
      rw [hget, hnone] at hs
      cases hs
  next_le := Nat.le_succ _
  controls c k' hc hk' := by
    have hget : ((m.provide a ⟨block, .allocated⟩).share (some (.start a)) .free).2.controls c =
        m.controls c := by
      refine (controls_setControl _ _ _ _).trans ?_
      exact if_neg (Nat.ne_of_lt hc)
    exact ⟨k', hget ▸ hk', rfl, rfl⟩

section Writing

variable {a : Nat} {s : Storage} {b : Block}

/-- A store through a pointer to a block does what it does to the block. -/
theorem store_of_block (hs : m.storage a = some s) {offset : Nat} {bytes : List UInt8}
    (h : Base.store (some s.block) offset bytes = .ok (some b)) :
    m.store (some (.start a)) offset bytes = .ok (m.provide a { s with block := b }) := by
  obtain ⟨hfits, hb⟩ := store_some_eq_ok.mp h
  cases hb
  have hroom : (Pointer.start a).offset + offset + bytes.length ≤ s.block.size := by
    rw [Pointer.start, Nat.zero_add]
    exact hfits
  have hstore := store_of_fits (q := .start a) hs hroom
  rw [Pointer.start, Nat.zero_add] at hstore
  exact hstore

/-- A copy through a pointer does what it does to the block. -/
theorem memcpy_of_block (hs : m.storage a = some s) {source : List UInt8} {n : Nat}
    (h : Base.memcpy (some s.block) source n = .ok (some b)) :
    m.memcpy (some (.start a)) source n = .ok (m.provide a { s with block := b }) := by
  rw [Base.memcpy] at h
  rw [memcpy]
  split at h
  · next hn =>
    rw [if_pos hn]
    exact store_of_block hs h
  · cases h

private theorem provide_self (hs : m.storage a = some s) : m.provide a s = m := by
  rw [provide, ← hs, Function.update_eq_self]

private theorem provide_provide (s' : Storage) : (m.provide a s).provide a s' = m.provide a s' := by
  rw [provide, provide, provide, Function.update_idem]

/-- A loop of stores through a pointer does what it does to the block. -/
theorem storeEach_of_block {α : Type} (hs : m.storage a = some s) {width : Nat}
    {encode : α → List UInt8} {xs : List α}
    (h : Base.storeEach width encode (some s.block) xs = .ok (some b)) :
    m.storeEach width encode (some (.start a)) xs = .ok (m.provide a { s with block := b }) := by
  rw [Base.storeEach] at h
  rw [storeEach]
  generalize xs.zipIdx = es at h
  induction es generalizing m s with
  | nil =>
    cases h
    rw [List.foldlM_nil, provide_self hs]
    rfl
  | cons e es ih =>
    rw [List.foldlM_cons] at h
    cases hstore : Base.store (some s.block) (width * e.2) (encode e.1) with
    | error fault =>
      rw [hstore] at h
      cases h
    | ok p =>
      rw [hstore] at h
      obtain ⟨-, rfl⟩ := store_some_eq_ok.mp hstore
      have hget := m.storage_provide a a
        { s with block := s.block.overwrite (width * e.2) (encode e.1) }
      rw [if_pos rfl] at hget
      have hrest := ih hget h
      rw [List.foldlM_cons, store_of_block hs hstore]
      rw [provide_provide] at hrest
      exact hrest

end Writing

/-- Giving storage back touches no control block and asks for nothing. -/
theorem controls_free {ptr : Option Pointer} (h : m.free ptr = .ok m') :
    m'.controls = m.controls ∧ m'.nextControl = m.nextControl ∧ m'.refused = m.refused := by
  rcases free_eq_ok h with rfl | ⟨a, rfl⟩
  · exact ⟨rfl, rfl, rfl⟩
  · exact ⟨rfl, rfl, rfl⟩

/-- Changing or removing a control block leaves the others, and their kind. -/
theorem controls_of_setControl {c : Nat} {k : Option Control}
    (h : ∀ new, k = some new → ∃ old, m.controls c = some old ∧ old.ptr = new.ptr ∧
      old.deleter = new.deleter) (d : Nat) (k' : Control)
    (hk' : (m.setControl c k).controls d = some k') :
    ∃ k₀, m.controls d = some k₀ ∧ k₀.ptr = k'.ptr ∧ k₀.deleter = k'.deleter := by
  rw [m.controls_setControl] at hk'
  split at hk'
  · next heq => exact heq ▸ h k' hk'
  · exact ⟨k', hk', rfl, rfl⟩

/-- Letting go makes no new control block and asks for nothing. -/
theorem controls_release {p : SharedPtr} (h : m.release p = .ok m') :
    m'.nextControl = m.nextControl ∧ m'.refused = m.refused ∧
      ∀ c k', m'.controls c = some k' →
        ∃ k, m.controls c = some k ∧ k.ptr = k'.ptr ∧ k.deleter = k'.deleter := by
  unfold release at h
  split at h
  · cases h
    exact ⟨rfl, rfl, fun c k' hk' ↦ ⟨k', hk', rfl, rfl⟩⟩
  · next c _ =>
    split at h
    · cases h
    · next k hk =>
      have hremoved := controls_of_setControl (m := m) (c := c) (k := none) <| by
        intro new hnew
        cases hnew
      split at h
      · unfold runDeleter at h
        split at h
        · obtain ⟨hcontrols, hnext, hlog⟩ := controls_free h
          rw [hcontrols]
          exact ⟨hnext, hlog, hremoved⟩
        · cases h
          exact ⟨rfl, rfl, hremoved⟩
      · cases h
        refine ⟨rfl, rfl, controls_of_setControl ?_⟩
        intro new hnew
        cases hnew
        exact ⟨k, hk, rfl, rfl⟩

end Memory

/-! ### Owners of what has been there -/

namespace RefCounted

variable {m₀ m m' : Memory} {owners locals : List SharedPtr}

/-- A control block that hands storage back, and one of its owners. -/
theorem exists_owner (h : RefCounted m owners) {a : Nat} (ha : m.Allocated a) :
    ∃ c k, m.controls c = some k ∧ k.deleter = .free ∧ k.ptr = some (.start a) ∧
      ∃ p ∈ owners, p.control = some c := by
  obtain ⟨c, k, hk, hfree, hptr⟩ := h.noLeak a ha
  obtain ⟨hcount, hpos⟩ := h.counted c k hk
  rw [hcount, ownerCount, List.countP_pos_iff] at hpos
  obtain ⟨p, hp, hcontrol⟩ := hpos
  exact ⟨c, k, hk, hfree, hptr, p, hp, of_decide_eq_true hcontrol⟩

/-- A control block in use has a number that has been given out. -/
theorem lt_next (h : RefCounted m owners) {c : Nat} {k : Control} (hk : m.controls c = some k) :
    c < m.nextControl := by
  apply Nat.lt_of_not_le
  intro hle
  rw [h.fresh c hle] at hk
  cases hk

/-- What persists is of the same kind. -/
theorem keeps_of_grows (h : RefCounted m₀ owners) (hgrows : m₀.Grows m') : m₀.Keeps m' where
  deleter c k k' hk hk' := by
    obtain ⟨k₁, hk₁, -, hdel₁⟩ := hgrows.controls c k' (h.lt_next hk) hk'
    rw [hk] at hk₁
    cases hk₁
    exact hdel₁.symm
  size a s s' hs hs' := by
    rw [hgrows.kept a s hs] at hs'
    cases hs'
    rfl

/-- When the same owners are left, so is the same storage. -/
theorem storage_eq (h : RefCounted m₀ owners) (hgrows : m₀.Grows m') (h' : RefCounted m' owners) :
    m'.storage = m₀.storage := by
  funext a
  cases hs : m₀.storage a with
  | some s => exact hgrows.kept a s hs
  | none =>
    cases hs' : m'.storage a with
    | none => rfl
    | some s' =>
      obtain ⟨c, k', hk', hfree', hptr', p, hp, hcontrol⟩ :=
        h'.exists_owner ⟨s', hs', hgrows.began a s' hs hs'⟩
      obtain ⟨k, hk, -⟩ := h.pointsTo p hp c hcontrol
      obtain ⟨k₁, hk₁, hptr₁, hdel₁⟩ := hgrows.controls c k' (h.lt_next hk) hk'
      obtain ⟨a', ha', s, hs₁, -⟩ := h.owned c k₁ hk₁ (hdel₁.trans hfree')
      rw [hptr₁, hptr'] at ha'
      cases ha'
      rw [hs] at hs₁
      cases hs₁

/-- An owner that has joined lets go, and the memory has still only grown. -/
theorem release_grows (h : RefCounted m₀ owners) (hgrows : m₀.Grows m) {p : SharedPtr}
    (hm : RefCounted m (p :: locals ++ owners)) :
    ∃ m', m.release p = .ok m' ∧ RefCounted m' (locals ++ owners) ∧ m₀.Grows m' ∧
      m'.refused = m.refused := by
  obtain ⟨m', hrelease, hm', hstorage⟩ := hm.release
  obtain ⟨hnext, hlog, hkept⟩ := Memory.controls_release hrelease
  have hcontrols (c : Nat) (k' : Control) (hc : c < m₀.nextControl)
      (hk' : m'.controls c = some k') :
      ∃ k, m₀.controls c = some k ∧ k.ptr = k'.ptr ∧ k.deleter = k'.deleter := by
    obtain ⟨k₁, hk₁, hptr₁, hdel₁⟩ := hkept c k' hk'
    obtain ⟨k, hk, hptr, hdel⟩ := hgrows.controls c k₁ hc hk₁
    exact ⟨k, hk, hptr.trans hptr₁, hdel.trans hdel₁⟩
  -- what belongs to the other owners cannot have been handed back
  have halloc (a : Nat) (ha : m₀.Allocated a) : m'.Allocated a := by
    obtain ⟨c, k, hk, hfree, hptr, q, hq, hcontrol⟩ := h.exists_owner ha
    obtain ⟨k', hk', -⟩ := hm'.pointsTo q (List.mem_append_right locals hq) c hcontrol
    obtain ⟨k₁, hk₁, hptr₁, hdel₁⟩ := hcontrols c k' (h.lt_next hk) hk'
    rw [hk] at hk₁
    cases hk₁
    obtain ⟨a', ha', halloc⟩ := hm'.owned c k' hk' (hdel₁ ▸ hfree)
    rw [← hptr₁, hptr] at ha'
    cases ha'
    exact halloc
  refine ⟨m', hrelease, hm', ?_, hlog⟩
  constructor
  · intro a s hs
    have hold := hgrows.kept a s hs
    rcases hstorage a with hsame | ⟨-, ⟨s', hs', horigin⟩, hend⟩
    · exact hsame.trans hold
    · rw [hold] at hs'
      cases hs'
      obtain ⟨s', hs', -⟩ := halloc a ⟨s, hs, horigin⟩
      rw [hend] at hs'
      cases hs'
  · intro a s hnone hs
    rcases hstorage a with hsame | ⟨-, -, hend⟩
    · exact hgrows.began a s hnone (hsame ▸ hs)
    · rw [hend] at hs
      cases hs
  · rw [hnext]
    exact hgrows.next_le
  · exact hcontrols

/-- Releasing all pointers that have joined keeps the growth. -/
theorem releaseAll_grows (h : RefCounted m₀ owners) (hgrows : m₀.Grows m)
    (hm : RefCounted m (locals ++ owners)) :
    ∃ m', m.releaseAll locals = .ok m' ∧ RefCounted m' owners ∧ m₀.Grows m' ∧
      m'.refused = m.refused := by
  induction locals generalizing m with
  | nil => exact ⟨m, rfl, hm, hgrows, rfl⟩
  | cons p locals ih =>
    obtain ⟨m₁, hrelease, hm₁, hgrows₁, hlog₁⟩ := h.release_grows hgrows hm
    obtain ⟨m', hrest, hm', hgrows', hlog'⟩ := ih hgrows₁ hm₁
    refine ⟨m', ?_, hm', hgrows', hlog'.trans hlog₁⟩
    rw [Memory.releaseAll, List.foldlM_cons, hrelease]
    exact hrest

end RefCounted

/-! ### Memory that shrinks -/

namespace Memory

/-- Nothing is new: what storage has gone was allocated, and control blocks that are still there
are of the same kind. -/
structure Shrinks (m m' : Memory) : Prop where
  next_eq : m'.nextControl = m.nextControl
  refused_eq : m'.refused = m.refused
  storage : ∀ a, m'.storage a = m.storage a ∨ m.Allocated a ∧ m'.storage a = none
  deleter : ∀ c k', m'.controls c = some k' →
    ∃ k, m.controls c = some k ∧ k'.deleter = k.deleter

variable {m₀ m m' : Memory}

theorem Shrinks.refl (m : Memory) : m.Shrinks m where
  next_eq := rfl
  refused_eq := rfl
  storage _ := Or.inl rfl
  deleter _ k' hk' := ⟨k', hk', rfl⟩

private theorem Shrinks.trans (h : m₀.Shrinks m) (h' : m.Shrinks m') : m₀.Shrinks m' where
  next_eq := h'.next_eq.trans h.next_eq
  refused_eq := h'.refused_eq.trans h.refused_eq
  storage a := by
    rcases h.storage a with hsame | ⟨halloc, hend⟩
    · rcases h'.storage a with hsame' | ⟨⟨s, hs, horigin⟩, hend'⟩
      · exact Or.inl (hsame'.trans hsame)
      · exact Or.inr ⟨⟨s, hsame ▸ hs, horigin⟩, hend'⟩
    · rcases h'.storage a with hsame' | ⟨-, hend'⟩
      · exact Or.inr ⟨halloc, hsame'.trans hend⟩
      · exact Or.inr ⟨halloc, hend'⟩
  deleter c k' hk' := by
    obtain ⟨k₁, hk₁, hdel₁⟩ := h'.deleter c k' hk'
    obtain ⟨k, hk, hdel⟩ := h.deleter c k₁ hk₁
    exact ⟨k, hk, hdel₁.trans hdel⟩

/-- What is still there is of the same kind. -/
theorem Shrinks.keeps (h : m.Shrinks m') : m.Keeps m' where
  deleter c k k' hk hk' := by
    obtain ⟨k₁, hk₁, hdel⟩ := h.deleter c k' hk'
    rw [hk] at hk₁
    cases hk₁
    exact hdel
  size a s s' hs hs' := by
    rcases h.storage a with hsame | ⟨-, hend⟩
    · rw [hsame, hs] at hs'
      cases hs'
      rfl
    · rw [hend] at hs'
      cases hs'

private theorem shrinks_acquire {p : SharedPtr} (h : m.acquire p = .ok m') : m.Shrinks m' := by
  unfold acquire at h
  split at h
  · cases h
    exact .refl m
  · next c _ =>
    split at h
    · cases h
    · next k hk =>
      cases h
      refine ⟨rfl, rfl, fun _ ↦ Or.inl rfl, fun d k' hk' ↦ ?_⟩
      rw [m.controls_setControl] at hk'
      split at hk'
      · next heq =>
        cases hk'
        exact ⟨k, heq ▸ hk, rfl⟩
      · exact ⟨k', hk', rfl⟩

/-- What becomes of the storage at an address when some begins and then some is given back. -/
inductive Turnover (m m' : Memory) (a : Nat) : Prop
  | kept (h : m'.storage a = m.storage a)
  | began (h : m.storage a = none)
  | freed (h : m.Allocated a) (h' : m'.storage a = none)

/-- Storage that is not allocated stays. -/
theorem Turnover.host_kept {a : Nat} {s : Storage} (h : Turnover m m' a)
    (hs : m.storage a = some s) (hhost : s.origin = .host) : m'.storage a = some s := by
  cases h with
  | kept hsame => exact hsame.trans hs
  | began hnone =>
    rw [hs] at hnone
    cases hnone
  | freed halloc _ =>
    obtain ⟨s', hs', horigin⟩ := halloc
    rw [hs] at hs'
    cases hs'
    rw [hhost] at horigin
    cases horigin

theorem Shrinks.turnover (h : m.Shrinks m')
    (hbegan : ∀ a s, m₀.storage a = some s → m.storage a = some s) (a : Nat) :
    Turnover m₀ m' a := by
  cases hs : m₀.storage a with
  | none => exact .began hs
  | some s =>
    have hm := hbegan a s hs
    rcases h.storage a with hsame | ⟨⟨s', hs', horigin⟩, hend⟩
    · exact .kept (hsame.trans (hm.trans hs.symm))
    · rw [hm] at hs'
      cases hs'
      exact .freed ⟨s, hs, horigin⟩ hend

end Memory

namespace RefCounted

variable {m : Memory} {owners : List SharedPtr}

private theorem release_shrinks {p : SharedPtr} (h : RefCounted m (p :: owners)) :
    ∃ m', m.release p = .ok m' ∧ RefCounted m' owners ∧ m.Shrinks m' := by
  obtain ⟨m', hrelease, hcounted, hstorage⟩ := h.release
  obtain ⟨hnext, hlog, hcontrols⟩ := Memory.controls_release hrelease
  refine ⟨m', hrelease, hcounted, hnext, hlog, ?_, ?_⟩
  · intro a
    rcases hstorage a with hsame | ⟨-, halloc, hend⟩
    · exact Or.inl hsame
    · exact Or.inr ⟨halloc, hend⟩
  · intro c k' hk'
    obtain ⟨k, hk, -, hdel⟩ := hcontrols c k' hk'
    exact ⟨k, hk, hdel.symm⟩

/-- Owners let go one after the other: none of them goes wrong. -/
theorem releaseAll {ps : List SharedPtr} (h : RefCounted m (ps ++ owners)) :
    ∃ m', m.releaseAll ps = .ok m' ∧ RefCounted m' owners ∧ m.Shrinks m' := by
  induction ps generalizing m with
  | nil => exact ⟨m, rfl, h, .refl m⟩
  | cons p ps ih =>
    obtain ⟨m₁, hrelease, h₁, hshrinks⟩ := h.release_shrinks
    obtain ⟨m', hrest, h', hshrinks'⟩ := ih h₁
    refine ⟨m', ?_, h', hshrinks.trans hshrinks'⟩
    rw [Memory.releaseAll, List.foldlM_cons, hrelease]
    exact hrest

/-- Owners are copied one after the other. -/
theorem acquireAll {ps : List SharedPtr} (h : RefCounted m owners) (hps : ∀ p ∈ ps, p ∈ owners) :
    ∃ m', m.acquireAll ps = .ok m' ∧ RefCounted m' (ps ++ owners) ∧ m.Shrinks m' ∧
      m'.storage = m.storage := by
  induction ps generalizing m owners with
  | nil => exact ⟨m, rfl, h, .refl m, rfl⟩
  | cons p ps ih =>
    obtain ⟨m₁, hacquire, h₁, hstorage⟩ := h.acquire (hps p List.mem_cons_self)
    have hps₁ (q : SharedPtr) (hq : q ∈ ps) : q ∈ p :: owners :=
      List.mem_cons_of_mem p (hps q (List.mem_cons_of_mem p hq))
    obtain ⟨m', hrest, h', hshrinks, hstorage'⟩ := ih h₁ hps₁
    refine ⟨m', ?_, h'.perm List.perm_middle, (Memory.shrinks_acquire hacquire).trans hshrinks,
      hstorage'.trans hstorage⟩
    rw [Memory.acquireAll, List.foldlM_cons, hacquire]
    exact hrest

end RefCounted
end Eduort.Base
