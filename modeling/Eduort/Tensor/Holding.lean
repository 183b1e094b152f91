import Eduort.Tensor.Sharing

/-!
# Tensors in use

The tensors that a program has in use own their bytes or borrow them, or have been moved from. The
use counts are the numbers of tensors, allocated storage lives exactly as long as a tensor that owns
it, and every operation on tensors keeps it so.
-/

namespace Eduort

variable {m m' : Base.Memory} {held : List SharedTensor} {t u : SharedTensor}

/-- No dims and no pointer are left of the tensor. -/
structure SharedTensor.MovedFrom (t : SharedTensor) : Prop where
  shape_eq : t.shape = ⟨[]⟩
  buffer_eq : t.buffer = .empty

/-- A tensor that fits the memory: it owns a buffer of its size, or borrows one. -/
structure SharedTensor.Backed (m : Base.Memory) (t : SharedTensor) : Prop where
  nbytes_eq : t.nbytes.toNat = Tensor.byteSize t.dtype t.shape
  owns : t.ownsData = true → t.nbytes = 0 ∧ t.buffer = .empty ∨
    t.nbytes ≠ 0 ∧ ∃ c k a s, t.buffer = ⟨some c, some (.start a)⟩ ∧ m.controls c = some k ∧
      k.deleter = .free ∧ m.storage a = some s ∧ s.block.size = t.nbytes.toNat
  borrows : t.ownsData = false →
    ∃ c k, t.buffer.control = some c ∧ m.controls c = some k ∧ k.deleter = .noop

/-- The tensors in use and the memory fit together. -/
structure Holds (m : Base.Memory) (held : List SharedTensor) : Prop where
  refCounted : Base.RefCounted m (held.map SharedTensor.buffer)
  backed : ∀ t ∈ held, t.MovedFrom ∨ t.Backed m

/-- A value with a buffer of its own, of exactly its size. -/
structure Tensor.Own (v : Tensor) : Prop where
  ownsData_eq : v.ownsData = true
  nbytes_eq : v.nbytes.toNat = byteSize v.dtype v.shape
  buffer : match v.buffer with
    | none => v.nbytes = 0
    | some b => v.nbytes ≠ 0 ∧ b.size = v.nbytes.toNat

/-- What `Create` returns is one. -/
theorem Tensor.own_of_create {hostNew : UInt64 → Bool} {dt : DataType} {shape : TensorShape}
    {device : DeviceKind} {v : Tensor} (h : create hostNew dt shape device = .ok v) : v.Own := by
  have hdevice : device = .kCPU := by
    rw [create, if_neg (sizeOfDataType_ne_zero dt), Base.check_eq_ok] at h
    exact not_not.mp h.1
  subst hdevice
  obtain ⟨-, hfits, -, rfl⟩ := (create_eq_ok hostNew dt shape v).mp h
  have hn : (UInt64.ofNat (byteSize dt shape)).toNat = byteSize dt shape :=
    UInt64.toNat_ofNat_of_lt' hfits
  refine ⟨rfl, hn, ?_⟩
  by_cases hz : byteSize dt shape = 0
  · simp [fresh, hz]
  · simp only [fresh, if_neg hz, hn]
    refine ⟨fun hzero ↦ hz ?_, List.length_replicate⟩
    rw [← hn, hzero]
    rfl

/-- A tensor that is still an owner still has what it had. -/
theorem SharedTensor.Backed.mono (h : t.Backed m) (hkeeps : m.Keeps m') {owners : List BufferPtr}
    (hcounted : Base.RefCounted m' owners) (ht : t.buffer ∈ owners) : t.Backed m' where
  nbytes_eq := h.nbytes_eq
  owns howns := by
    rcases h.owns howns with hempty | ⟨hpos, c, k, a, s, hbuffer, hk, hfree, hs, hsize⟩
    · exact Or.inl hempty
    · have hcontrol : t.buffer.control = some c := by rw [hbuffer]
      obtain ⟨k', hk', hptr⟩ := hcounted.pointsTo t.buffer ht c hcontrol
      have hfree' : k'.deleter = .free := (hkeeps.deleter c k k' hk hk').trans hfree
      obtain ⟨a', hptr', s', hs', -⟩ := hcounted.owned c k' hk' hfree'
      rw [hptr', hbuffer] at hptr
      obtain rfl : a' = a := congrArg Base.Pointer.base (Option.some.inj hptr)
      have hsize' := (hkeeps.size a' s s' hs hs').trans hsize
      exact Or.inr ⟨hpos, c, k', a', s', hbuffer, hk', hfree', hs', hsize'⟩
  borrows hborrows := by
    obtain ⟨c, k, hcontrol, hk, hnoop⟩ := h.borrows hborrows
    obtain ⟨k', hk', -⟩ := hcounted.pointsTo t.buffer ht c hcontrol
    exact ⟨c, k', hcontrol, hk', (hkeeps.deleter c k k' hk hk').trans hnoop⟩

namespace Holds

/-! ### Tensors that come and go -/

theorem empty : Holds .empty [] where
  refCounted := Base.RefCounted.empty
  backed t ht := by cases ht

theorem perm {held' : List SharedTensor} (h : Holds m held) (hperm : held.Perm held') :
    Holds m held' where
  refCounted := h.refCounted.perm (hperm.map SharedTensor.buffer)
  backed t ht := h.backed t (hperm.mem_iff.mpr ht)

/-- Tensors that stay owners stay as they are, and those that join must fit. -/
theorem join {rest : List SharedTensor} (h : Holds m held) (joined : List SharedTensor)
    (hkeeps : m.Keeps m') (hcounted : Base.RefCounted m' ((joined ++ rest).map SharedTensor.buffer))
    (hjoined : ∀ t ∈ joined, t.MovedFrom ∨ t.Backed m') (hrest : rest ⊆ held) :
    Holds m' (joined ++ rest) where
  refCounted := hcounted
  backed t ht := by
    rcases List.mem_append.mp ht with hnew | hold
    · exact hjoined t hnew
    · apply (h.backed t (hrest hold)).imp_right
      intro hbacked
      exact hbacked.mono hkeeps hcounted (List.mem_map_of_mem ht)

/-- Nothing joins. -/
theorem of_keeps {rest : List SharedTensor} (h : Holds m held) (hkeeps : m.Keeps m')
    (hcounted : Base.RefCounted m' (rest.map SharedTensor.buffer)) (hrest : rest ⊆ held) :
    Holds m' rest := by
  apply h.join [] hkeeps hcounted _ hrest
  intro t ht
  cases ht

/-- Tensors are destroyed. -/
theorem releaseAll {gone : List SharedTensor} (h : Holds m (gone ++ held)) :
    ∃ m', m.releaseAll (gone.map SharedTensor.buffer) = .ok m' ∧ Holds m' held ∧
      m.Shrinks m' := by
  have hcounted := h.refCounted
  rw [List.map_append] at hcounted
  obtain ⟨m', hrelease, hcounted', hshrinks⟩ := hcounted.releaseAll
  refine ⟨m', hrelease, ?_, hshrinks⟩
  exact h.of_keeps hshrinks.keeps hcounted' (List.subset_append_right gone held)

/-- Tensors in use are copied. -/
theorem acquireAll {copies : List SharedTensor} (h : Holds m held) (hcopies : copies ⊆ held) :
    ∃ m', m.acquireAll (copies.map SharedTensor.buffer) = .ok m' ∧ Holds m' (copies ++ held) ∧
      m.Shrinks m' ∧ m'.storage = m.storage := by
  have hbuffers : ∀ q ∈ copies.map SharedTensor.buffer, q ∈ held.map SharedTensor.buffer := by
    intro q hq
    obtain ⟨t, ht, rfl⟩ := List.mem_map.mp hq
    exact List.mem_map_of_mem (hcopies ht)
  obtain ⟨m', hacquire, hcounted, hshrinks, hstorage⟩ := h.refCounted.acquireAll hbuffers
  rw [← List.map_append] at hcounted
  refine ⟨m', hacquire, h.join copies hshrinks.keeps hcounted ?_ (List.Subset.refl held),
    hshrinks, hstorage⟩
  intro t ht
  apply (h.backed t (hcopies ht)).imp_right
  intro hbacked
  exact hbacked.mono hshrinks.keeps hcounted
    (List.mem_map_of_mem (List.mem_append_left held ht))

/-- Tensors that have been moved from stay around. -/
theorem addMovedFrom {moved : List SharedTensor} (h : Holds m held)
    (hmoved : ∀ t ∈ moved, t.MovedFrom) : Holds m (moved ++ held) := by
  refine h.join moved (Base.Memory.Keeps.refl m) ?_ (fun t ht ↦ Or.inl (hmoved t ht))
    (List.Subset.refl held)
  induction moved with
  | nil => exact h.refCounted
  | cons t moved ih =>
    have hcounted := ih fun u hu ↦ hmoved u (List.mem_cons_of_mem t hu)
    rw [List.cons_append, List.map_cons, (hmoved t List.mem_cons_self).buffer_eq]
    exact hcounted.addEmpty

/-- The tensor that `FromHostBlob` returns joins. -/
theorem fromHostBlob (h : Holds m held) {dt : DataType} {shape : TensorShape}
    {data : Option Base.Pointer} {bytes : UInt64}
    (hblob : SharedTensor.fromHostBlob m dt shape data bytes = .ok (t, m')) :
    Holds m' ([t] ++ held) ∧ m'.storage = m.storage := by
  obtain ⟨hborrows, hnbytes, -, hbuffer, rfl⟩ := SharedTensor.fromHostBlob_spec hblob
  have hnext := h.refCounted.fresh m.nextControl (Nat.le_refl _)
  have hkeeps := Base.Memory.keeps_share data .noop hnext
  refine ⟨h.join [t] hkeeps ?_ ?_ (List.Subset.refl held), rfl⟩
  · show Base.RefCounted _ (t.buffer :: held.map SharedTensor.buffer)
    rw [hbuffer]
    exact h.refCounted.shareBorrowed data
  · intro t' ht'
    obtain rfl := List.mem_singleton.mp ht'
    refine Or.inr ⟨hnbytes, fun howns ↦ ?_, fun _ ↦ ?_⟩
    · rw [hborrows] at howns
      cases howns
    · refine ⟨m.nextControl, ⟨1, data, .noop⟩, ?_, ?_, rfl⟩
      · rw [hbuffer]
        rfl
      · exact Function.update_self m.nextControl _ _

/-- Tensors that a call has built join. -/
theorem joined {α β : Type} {D : Base.Reading α β} {x : α} {v : β} {joined : List SharedTensor}
    (h : Holds m held) (hx : D.Joined m (held.map SharedTensor.buffer) m' x v)
    (howned : D.owned x = joined.map SharedTensor.buffer)
    (hviews : ∀ t ∈ joined, (t.view m').Own) : Holds m' (joined ++ held) := by
  have hcounted := hx.refCounted
  rw [howned, ← List.map_append] at hcounted
  apply h.join joined (h.refCounted.keeps_of_grows hx.grows) hcounted _ (List.Subset.refl held)
  intro t ht
  obtain ⟨howns, hnbytes, hblock⟩ := hviews t ht
  change t.ownsData = true at howns
  have hbuffer : t.buffer ∈ (joined ++ held).map SharedTensor.buffer :=
    List.mem_map_of_mem (List.mem_append_left held ht)
  have howning := hx.owning t.buffer <| by
    rw [howned]
    exact List.mem_map_of_mem ht
  refine Or.inr ⟨hnbytes, fun _ ↦ ?_, fun hborrows ↦ ?_⟩
  · rcases howning with hempty | ⟨c, k, hcontrol, hk, hfree⟩
    · have hnone : (t.view m').buffer = none := by
        rw [SharedTensor.view, hempty]
        rfl
      rw [hnone] at hblock
      exact Or.inl ⟨hblock, hempty⟩
    · obtain ⟨k', hk', hptr⟩ := hcounted.pointsTo t.buffer hbuffer c hcontrol
      rw [hk] at hk'
      cases hk'
      obtain ⟨a, ha, s, hs, -⟩ := hcounted.owned c k hk hfree
      have hlive : (t.view m').buffer = some s.block := by
        rw [SharedTensor.view, ← hptr, ha, m'.blockAt_start a s hs]
      rw [hlive] at hblock
      obtain ⟨hpos, hsize⟩ := hblock
      refine Or.inr ⟨hpos, c, k, a, s, ?_, hk, hfree, hs, hsize⟩
      rw [← hcontrol, ← ha, hptr]
  · rw [howns] at hborrows
    cases hborrows

/-! ### Storage that changes -/

/-- The host begins storage where there is none. -/
theorem hostBegin (h : Holds m held) {a : Nat} (block : Base.Block) (ha : m.storage a = none) :
    Holds (m.provide a ⟨block, .host⟩) held := by
  apply h.of_keeps _ (h.refCounted.provideHost block ha) (List.Subset.refl held)
  apply Base.Memory.keeps_provide
  intro old hold
  rw [ha] at hold
  cases hold

/-- The host ends storage of its own. -/
theorem hostEnd (h : Holds m held) {a : Nat} {s : Base.Storage} (ha : m.storage a = some s)
    (hhost : s.origin = .host) : Holds (m.withdraw a) held :=
  h.of_keeps (Base.Memory.keeps_withdraw a) (h.refCounted.withdrawHost ha hhost)
    (List.Subset.refl held)

/-- Bytes are written. -/
theorem overwrite (h : Holds m held) {a offset : Nat} {s : Base.Storage} {bytes : List UInt8}
    (ha : m.storage a = some s) (hfits : offset + bytes.length ≤ s.block.size) :
    Holds (m.provide a { s with block := s.block.overwrite offset bytes }) held := by
  apply h.of_keeps _ (h.refCounted.overwrite ha _) (List.Subset.refl held)
  apply Base.Memory.keeps_provide
  intro old hold
  rw [ha] at hold
  cases hold
  exact s.block.size_overwrite offset bytes hfits

end Holds

/-! ### Storage that a tensor owns -/

/-- The storage of a tensor that owns it. -/
structure SharedTensor.Owns (m : Base.Memory) (t : SharedTensor) (c a : Nat) (s : Base.Storage) :
    Prop where
  pos : t.nbytes ≠ 0
  buffer : t.buffer = ⟨some c, some (.start a)⟩
  control : ∃ k, m.controls c = some k ∧ k.deleter = .free ∧ k.ptr = some (.start a)
  storage : m.storage a = some s
  origin : s.origin = .allocated
  size : s.block.size = t.nbytes.toNat

namespace Holds

/-- A tensor that owns its data has no storage, because it is empty or has been moved from, or
owns all of its bytes. -/
theorem owns (h : Holds m held) (ht : t ∈ held) (howns : t.ownsData = true) :
    t.buffer = .empty ∧ (t.nbytes = 0 ∨ t.MovedFrom) ∨ ∃ c a s, t.Owns m c a s := by
  rcases h.backed t ht with hmoved | hbacked
  · exact Or.inl ⟨hmoved.buffer_eq, Or.inr hmoved⟩
  rcases hbacked.owns howns with
    ⟨hzero, hempty⟩ | ⟨hpos, c, k, a, s, hbuffer, hk, hfree, hs, hsize⟩
  · exact Or.inl ⟨hempty, Or.inl hzero⟩
  · have hcontrol : t.buffer.control = some c := by rw [hbuffer]
    obtain ⟨k', hk', hptr⟩ := h.refCounted.pointsTo t.buffer (List.mem_map_of_mem ht) c hcontrol
    rw [hk] at hk'
    cases hk'
    rw [hbuffer] at hptr
    obtain ⟨a', hptr', s', hs', horigin⟩ := h.refCounted.owned c k hk hfree
    rw [hptr] at hptr'
    cases hptr'
    rw [hs] at hs'
    cases hs'
    exact Or.inr ⟨c, a, s, hpos, hbuffer, ⟨k, hk, hfree, hptr⟩, hs, horigin, hsize⟩

/-- The storage behind a tensor that owns its data. -/
theorem owns_ptr (h : Holds m held) (ht : t ∈ held) (howns : t.ownsData = true) {q : Base.Pointer}
    (hptr : t.buffer.ptr = some q) : q = .start q.base ∧ ∃ c s, t.Owns m c q.base s := by
  rcases h.owns ht howns with ⟨hempty, -⟩ | ⟨c, a, s, howned⟩
  · rw [hempty] at hptr
    cases hptr
  · rw [howned.buffer] at hptr
    cases hptr
    exact ⟨rfl, c, s, howned⟩

/-- A control block in use belongs to a tensor in use. -/
theorem exists_owner (h : Holds m held) {c : Nat} {k : Base.Control} (hk : m.controls c = some k) :
    ∃ t ∈ held, t.buffer.control = some c := by
  obtain ⟨hcount, hpos⟩ := h.refCounted.counted c k hk
  rw [hcount, Base.ownerCount, List.countP_pos_iff] at hpos
  obtain ⟨q, hq, hcontrol⟩ := hpos
  obtain ⟨t, ht, rfl⟩ := List.mem_map.mp hq
  exact ⟨t, ht, of_decide_eq_true hcontrol⟩

/-- Owners of the same storage are copies of one tensor. -/
theorem ptr_eq_iff (h : Holds m held) (ht : t ∈ held) (hu : u ∈ held) (htowns : t.ownsData = true)
    (huowns : u.ownsData = true) :
    t.buffer.ptr = u.buffer.ptr ↔ t.buffer.control = u.buffer.control := by
  rcases h.owns ht htowns with ⟨htempty, -⟩ | ⟨c, a, s, htowned⟩ <;>
    rcases h.owns hu huowns with ⟨huempty, -⟩ | ⟨c', a', s', huowned⟩
  · rw [htempty, huempty]
    exact iff_of_true rfl rfl
  · rw [htempty, huowned.buffer]
    simp [Base.SharedPtr.empty]
  · rw [htowned.buffer, huempty]
    simp [Base.SharedPtr.empty]
  · obtain ⟨k, hk, hfree, hptr⟩ := htowned.control
    obtain ⟨k', hk', hfree', hptr'⟩ := huowned.control
    rw [htowned.buffer, huowned.buffer]
    simp only [Option.some.injEq]
    constructor
    · intro heq
      rw [← heq] at hptr'
      exact h.refCounted.ownedOnce c c' k k' hk hk' hfree hfree' (hptr.trans hptr'.symm)
    · rintro rfl
      rw [hk] at hk'
      cases hk'
      rw [hptr] at hptr'
      exact Option.some.inj hptr'

/-- Storage that a tensor owns before and after is the same, unless it has been written. -/
theorem turnover_kept {held' : List SharedTensor} (h : Holds m held) (h' : Holds m' held')
    (ht : t ∈ held) (ht' : t ∈ held') (howns : t.ownsData = true) {q : Base.Pointer}
    (hptr : t.buffer.ptr = some q) (hturnover : Base.Memory.Turnover m m' q.base) :
    m'.storage q.base = m.storage q.base := by
  obtain ⟨-, c, s, howned⟩ := h.owns_ptr ht howns hptr
  obtain ⟨-, c', s', howned'⟩ := h'.owns_ptr ht' howns hptr
  cases hturnover with
  | kept hsame => exact hsame
  | began hnone =>
    rw [howned.storage] at hnone
    cases hnone
  | freed _ hnone =>
    rw [howned'.storage] at hnone
    cases hnone

/-- What reads the bytes of such a tensor sees no other tensor go. -/
theorem blockAt_kept {held' : List SharedTensor} (h : Holds m held) (h' : Holds m' held')
    (ht : t ∈ held) (ht' : t ∈ held') (howns : t.ownsData = true) (hshrinks : m.Shrinks m') :
    m'.blockAt t.buffer.ptr = m.blockAt t.buffer.ptr := by
  apply Base.Memory.blockAt_congr
  intro q hptr
  exact h.turnover_kept h' ht ht' howns hptr (hshrinks.turnover (fun _ _ hs ↦ hs) q.base)

end Holds
end Eduort
