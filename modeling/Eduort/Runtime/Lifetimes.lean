import Eduort.Runtime.Ownership

/-!
# Lifetimes of buffers

What a program can rely on in every state that it reaches: no double release, no leak, owned
bytes that only writes through an alias change, and host storage that stays the host's.
-/

namespace Eduort

/-- An allocator with room for one request, at the address 0. -/
def HostAllocator.oneSlot : HostAllocator := fun m _ ↦ if m.storage 0 = none then some 0 else none

theorem HostAllocator.fresh_oneSlot : oneSlot.Fresh := by
  intro m nbytes a ha
  unfold oneSlot at ha
  split at ha
  · next hnone =>
    cases ha
    exact hnone
  · cases ha

namespace Program

variable {p p' : Program} {actions : List Action} {t u : SharedTensor} {x : String} {i : Member}
  {v : Object}

/-! ### A small program -/

/-- Two floats at the address 0. -/
def pairTensor : SharedTensor := ⟨.kFloat32, ⟨[2]⟩, .kCPU, ⟨some 0, some (.start 0)⟩, 8, true⟩

/-- `x` after `Tensor::Create`. -/
def createdPair : Program where
  memory := ((Base.Memory.empty.provide 0 ⟨Base.Block.uninit 8, .allocated⟩).share
    (some (.start 0)) .free).2
  scope := AList.insert "x" (.tensor pairTensor) ∅

/-- `y` is a copy of `x`. -/
def copiedPair : Program where
  memory := createdPair.memory.setControl 0 (some ⟨2, some (.start 0), .free⟩)
  scope := AList.insert "y" (.tensor pairTensor) createdPair.scope

/-- `x` has been moved to `y`. -/
def movedPair : Program where
  memory := createdPair.memory
  scope := AList.insert "y" (.tensor pairTensor)
    (AList.insert "x" (.tensor pairTensor.movedFrom) createdPair.scope)

private theorem reached_createdPair : createdPair.Reached := by
  have hcreate : step {} (.create "x" .oneSlot .kFloat32 ⟨[2]⟩ .kCPU) = .ok createdPair := rfl
  have hallowed : Allowed {} (.create "x" .oneSlot .kFloat32 ⟨[2]⟩ .kCPU) :=
    HostAllocator.fresh_oneSlot
  exact ⟨_, .next .start ⟨hallowed, trivial, hcreate⟩⟩

private theorem Reached.next (h : p.Reached) {action : Action} (hallowed : p.Allowed action)
    (hstep : p.step action = .ok p') : p'.Reached := by
  obtain ⟨actions, run⟩ := h
  exact ⟨_, run.next ⟨hallowed, trivial, hstep⟩⟩

private theorem reached_copiedPair : copiedPair.Reached := by
  have hcopy : createdPair.step (.copy "x" "y") = .ok copiedPair := rfl
  have hallowed : createdPair.Allowed (.copy "x" "y") := trivial
  exact reached_createdPair.next hallowed hcopy

private theorem reached_movedPair : movedPair.Reached := by
  have hmove : createdPair.step (.move "x" "y") = .ok movedPair := rfl
  have hallowed : createdPair.Allowed (.move "x" "y") := by
    show "x" ≠ "y"
    decide
  exact reached_createdPair.next hallowed hmove

private theorem find_movedPair_x : movedPair.find "x" .itself = some pairTensor.movedFrom := rfl

/-! ### Steps that go well -/

/-- The action writes bytes through the tensor. -/
def WritesThrough (p : Program) (action : Action) (t : SharedTensor) (offset : Nat)
    (bytes : List UInt8) : Prop :=
  ∃ x i, action = .write x i offset bytes ∧ p.find x i = some t

/-- In bounds is a property of each tensor that is written through. -/
theorem inBounds_iff (action : Action) : p.InBounds action ↔
    ∀ t offset bytes, p.WritesThrough action t offset bytes → ∃ q s, t.buffer.ptr = some q ∧
      p.memory.storage q.base = some s ∧ q.offset + offset + bytes.length ≤ s.block.size := by
  constructor
  · rintro hbounds t offset bytes ⟨x, i, rfl, hx⟩
    exact hbounds t hx
  · intro hall
    cases action with
    | write x i offset bytes => exact fun t hx ↦ hall t offset bytes ⟨x, i, rfl, hx⟩
    | _ => trivial

/-- For a tensor in use that owns its data, the fields tell which writes are in bounds. -/
theorem Sound.fits_iff (h : p.Sound) (ht : t ∈ p.held) (howns : t.ownsData = true)
    (offset n : Nat) : t.buffer.ptr ≠ none ∧ offset + n ≤ t.nbytes.toNat ↔
      ∃ q s, t.buffer.ptr = some q ∧ p.memory.storage q.base = some s ∧
        q.offset + offset + n ≤ s.block.size := by
  rcases Holds.owns h ht howns with ⟨hempty, -⟩ | ⟨c, a, s, howned⟩
  · rw [hempty]
    simp [Base.SharedPtr.empty]
  · have hptr : t.buffer.ptr = some (.start a) := by rw [howned.buffer]
    rw [hptr]
    constructor
    · rintro ⟨-, hfits⟩
      refine ⟨.start a, s, rfl, howned.storage, ?_⟩
      rw [howned.size, Base.Pointer.start, Nat.zero_add]
      exact hfits
    · rintro ⟨q, s', hq, hs', hfits⟩
      cases hq
      refine ⟨Option.some_ne_none _, ?_⟩
      change p.memory.storage a = some s' at hs'
      rw [howned.storage] at hs'
      cases hs'
      rw [howned.size, Base.Pointer.start, Nat.zero_add] at hfits
      exact hfits

/-- From every state that a program reaches, whatever it does next succeeds, except for a write
through a null pointer or behind the last byte of a tensor that owns its data; what a tensor that
borrows it accepts is up to the host. In particular, no buffer is released twice or after its
end. -/
theorem reached_step_isOk (h : p.Reached) {action : Action} (hallowed : p.Allowed action)
    (howns : ∀ t offset bytes, p.WritesThrough action t offset bytes → t.ownsData = true) :
    (∃ p', p.step action = .ok p') ↔
      ∀ t offset bytes, p.WritesThrough action t offset bytes →
        t.buffer.ptr ≠ none ∧ offset + bytes.length ≤ t.nbytes.toNat := by
  have hfits (t : SharedTensor) (offset : Nat) (bytes : List UInt8)
      (hwrites : p.WritesThrough action t offset bytes) :=
    h.sound.fits_iff (mem_held_of_find hwrites.choose_spec.choose_spec.2)
      (howns t offset bytes hwrites) offset bytes.length
  constructor
  · rintro ⟨p', hstep⟩ t offset bytes hwrites
    apply (hfits t offset bytes hwrites).mpr
    exact (inBounds_iff action).mp (inBounds_of_step hstep) t offset bytes hwrites
  · intro haccepts
    obtain ⟨p', hstep, -⟩ := h.sound.step_spec hallowed <| (inBounds_iff action).mpr <| by
      intro t offset bytes hwrites
      exact (hfits t offset bytes hwrites).mp (haccepts t offset bytes hwrites)
    exact ⟨p', hstep⟩

/-- After a move, `y` can be written to and `x` cannot, though it still says that it owns eight
bytes. -/
theorem reached_step_isOk_movedPair :
    (∃ p', movedPair.step (.write "y" .itself 4 [0, 0, 128, 63]) = .ok p') ∧
      ¬ ∃ p', movedPair.step (.write "x" .itself 4 [0, 0, 128, 63]) = .ok p' := by
  constructor
  · have hallowed : movedPair.Allowed (.write "y" .itself 4 [0, 0, 128, 63]) := trivial
    have htensor (t : SharedTensor) (offset : Nat) (bytes : List UInt8) (hwrites :
        movedPair.WritesThrough (.write "y" .itself 4 [0, 0, 128, 63]) t offset bytes) :
        t = pairTensor ∧ offset = 4 ∧ bytes.length = 4 := by
      obtain ⟨x, i, haction, hx⟩ := hwrites
      cases haction
      exact ⟨(Option.some.inj hx).symm, rfl, rfl⟩
    apply (reached_step_isOk reached_movedPair hallowed ?_).mpr
    · intro t offset bytes hwrites
      obtain ⟨rfl, rfl, hlength⟩ := htensor t offset bytes hwrites
      rw [hlength]
      exact ⟨by decide, by decide⟩
    · intro t offset bytes hwrites
      obtain ⟨rfl, -, -⟩ := htensor t offset bytes hwrites
      rfl
  · have hallowed : movedPair.Allowed (.write "x" .itself 4 [0, 0, 128, 63]) := trivial
    intro hstep
    refine ((reached_step_isOk reached_movedPair hallowed ?_).mp hstep pairTensor.movedFrom 4 _
      ⟨"x", .itself, rfl, find_movedPair_x⟩).1 rfl
    rintro t offset bytes ⟨x, i, haction, hx⟩
    cases haction
    obtain rfl := Option.some.inj hx
    rfl

/-! ### Lifetimes -/

/-- An action that is about a variable writes to no storage. -/
theorem not_writesTo_of_mem_targets {action : Action} (h : x ∈ action.targets) (a : Nat) :
    ¬ p.WritesTo action a := by
  rintro (⟨offset, bytes, rfl⟩ | ⟨y, i, offset, bytes, t, q, rfl, -⟩)
  · cases h
  · cases h

/-- The action leaves an object alone: it does not bind its variable anew, change or unbind it,
and does not write through a pointer to its storage. -/
def LeavesAlone (x : String) (v : Object) (p : Program) (action : Action) : Prop :=
  x ∉ action.targets ∧
    ∀ t ∈ v.tensors, ∀ q, t.buffer.ptr = some q → ¬ p.WritesTo action q.base

/-- Run lemma: an object that owns its data keeps its value while it is left alone. -/
theorem Leads.view_kept (run : Leads (LeavesAlone x v) p actions p') (h : p.Sound)
    (hx : p.scope.lookup x = some v) (howns : ∀ t ∈ v.tensors, t.ownsData = true) :
    p'.scope.lookup x = some v ∧ v.view p'.memory = v.view p.memory := by
  induction run with
  | start => exact ⟨hx, rfl⟩
  | @next _ q q' action run hdoes ih =>
    obtain ⟨hq, hview⟩ := ih
    obtain ⟨hallowed, ⟨hkept, hwrites⟩, hstep⟩ := hdoes
    have hsound : q.Sound := Leads.sound run h
    have houtcome := hsound.outcome hallowed hstep
    have hq' : q'.scope.lookup x = some v := (houtcome.lookup x hkept).trans hq
    refine ⟨hq', ?_⟩
    rw [← hview]
    apply Object.view_congr
    intro t ht
    apply Base.Memory.blockAt_congr
    intro q' hptr
    exact houtcome.owned_kept hsound hallowed (subset_heldIn hq ht) (subset_heldIn hq' ht)
      (howns t ht) hptr (hwrites t ht q' hptr)

/-- Along any run from a state that a program reaches, a tensor or graph that owns its data keeps
its value as long as its variable is left alone and nobody writes through a pointer to its
storage. -/
theorem reached_view_kept (h : p.Reached) (hx : p.scope.lookup x = some v)
    (howns : ∀ t ∈ v.tensors, t.ownsData = true) (run : Leads (LeavesAlone x v) p actions p') :
    p'.scope.lookup x = some v ∧ v.view p'.memory = v.view p.memory :=
  Leads.view_kept run h.sound hx howns

/-- A copy keeps its value when the tensor it was made of goes out of scope. -/
theorem reached_view_kept_copiedPair : ∃ p', copiedPair.step (.drop "x") = .ok p' ∧
    pairTensor.view p'.memory = pairTensor.view copiedPair.memory := by
  obtain ⟨p', hstep⟩ : ∃ p', copiedPair.step (.drop "x") = .ok p' := ⟨_, rfl⟩
  have hallowed : copiedPair.Allowed (.drop "x") := trivial
  have hy : copiedPair.scope.lookup "y" = some (.tensor pairTensor) := rfl
  have howns : ∀ t ∈ (ObjectOf.tensor pairTensor).tensors, t.ownsData = true := by
    intro t ht
    obtain rfl := List.mem_singleton.mp ht
    rfl
  refine ⟨p', hstep, ?_⟩
  apply Sum.inl.inj
  apply (reached_view_kept reached_copiedPair hy howns (.next .start ⟨hallowed, ?_, hstep⟩)).2
  exact ⟨by decide, fun _ _ q _ ↦ not_writesTo_of_mem_targets (List.mem_singleton_self "x") q.base⟩

/-- Along any run from a state that a program reaches, storage of the host stays as it is until
the host ends it or somebody writes to it: no tensor ever frees it. -/
theorem reached_host_kept (h : p.Reached) {a : Nat} {s : Base.Storage}
    (hs : p.memory.storage a = some s) (hhost : s.origin = .host)
    (run : Leads (fun q action ↦ action ≠ .hostEnd a ∧ ¬ q.WritesTo action a) p actions p') :
    p'.memory.storage a = some s := by
  induction run with
  | start => exact hs
  | next run hdoes ih =>
    obtain ⟨hallowed, ⟨hend, hwrites⟩, hstep⟩ := hdoes
    have houtcome := (Leads.sound run h.sound).outcome hallowed hstep
    exact houtcome.host_kept ih hhost hend hwrites

/-- The host's eight bytes at the address 0. -/
def hostedPair : Program where
  memory := Base.Memory.empty.provide 0 ⟨Base.Block.uninit 8, .host⟩

private theorem reached_hostedPair : hostedPair.Reached := by
  have hallowed : Allowed {} (.hostBegin 0 (Base.Block.uninit 8)) := rfl
  exact ⟨_, .next .start ⟨hallowed, trivial, rfl⟩⟩

/-- Storage of the host outlives the tensor that borrows it. -/
theorem reached_host_kept_hostedPair : ∃ q q',
    hostedPair.step (.fromHostBlob "x" .kFloat32 ⟨[2]⟩ (some (.start 0)) 8) = .ok q ∧
      q.step (.drop "x") = .ok q' ∧
        q'.memory.storage 0 = some ⟨Base.Block.uninit 8, .host⟩ := by
  obtain ⟨q, q', hstep, hstep'⟩ : ∃ q q',
      hostedPair.step (.fromHostBlob "x" .kFloat32 ⟨[2]⟩ (some (.start 0)) 8) = .ok q ∧
        q.step (.drop "x") = .ok q' := ⟨_, _, rfl, rfl⟩
  have hallowed : hostedPair.Allowed (.fromHostBlob "x" .kFloat32 ⟨[2]⟩ (some (.start 0)) 8) :=
    trivial
  have hallowed' : q.Allowed (.drop "x") := trivial
  refine ⟨q, q', hstep, hstep', ?_⟩
  apply reached_host_kept reached_hostedPair rfl rfl
    (.next (.next .start ⟨hallowed, ?_, hstep⟩) ⟨hallowed', ?_, hstep'⟩)
  · exact ⟨nofun, not_writesTo_of_mem_targets (List.mem_singleton_self "x") 0⟩
  · exact ⟨nofun, not_writesTo_of_mem_targets (List.mem_singleton_self "x") 0⟩

/-! ### What a write changes -/

/-- A write through any tensor is seen by exactly the tensors that point into the storage that it
goes to, wherever they are: at the same offset by those with the same pointer, and among those that
own their data by its copies. -/
theorem reached_write_view (h : p.Reached) (hx : p.find x i = some t) {offset : Nat}
    {bytes : List UInt8} (hstep : p.step (.write x i offset bytes) = .ok p') :
    p'.scope = p.scope ∧
      ∃ q s, t.buffer.ptr = some q ∧ p.memory.storage q.base = some s ∧
        ∀ u ∈ p.held,
          (∀ r, u.buffer.ptr = some r → r.base = q.base → u.view p'.memory =
            { u.view p.memory with
              buffer := some ((s.block.overwrite (q.offset + offset) bytes).drop r.offset) }) ∧
          (u.buffer.ptr = t.buffer.ptr → u.view p'.memory =
            { u.view p.memory with
              buffer := (u.view p.memory).buffer.map (·.overwrite offset bytes) }) ∧
          ((∀ r, u.buffer.ptr = some r → r.base ≠ q.base) →
            u.view p'.memory = u.view p.memory) ∧
          (t.ownsData = true → u.ownsData = true →
            ((∃ r, u.buffer.ptr = some r ∧ r.base = q.base) ↔
              u.buffer.control = t.buffer.control)) := by
  rw [step, hx] at hstep
  simp only [Base.bind_eq_ok] at hstep
  obtain ⟨m', hstore, hstep⟩ := hstep
  cases hstep
  obtain ⟨q, s, hq, hs, hfits, rfl⟩ := Base.Memory.store_eq_ok hstore
  have hblock := p.memory.blockAt_provide q.base
    { s with block := s.block.overwrite (q.offset + offset) bytes }
  refine ⟨rfl, q, s, hq, hs, fun u hu ↦
    ⟨fun r hr hbase ↦ ?_, fun hsame ↦ ?_, fun hother ↦ ?_, fun ht huowns ↦ ?_⟩⟩
  · rw [SharedTensor.view, hr, hblock, if_pos hbase]
    rfl
  · have hdrop := s.block.drop_overwrite q.offset offset bytes (by omega)
    simp only [SharedTensor.view, hsame, hq, hblock, if_true,
      p.memory.blockAt_of_storage s q hs, hdrop, Option.map_some]
  · cases hr : u.buffer.ptr with
    | none => simp only [SharedTensor.view, hr, Base.Memory.blockAt, Option.bind_none]
    | some r =>
      simp only [SharedTensor.view, hr, hblock, if_neg (hother r hr)]
  · rw [← Holds.ptr_eq_iff h.sound hu (mem_held_of_find hx) huowns ht, hq]
    constructor
    · rintro ⟨r, hr, hbase⟩
      obtain ⟨hstart, -⟩ := Holds.owns_ptr h.sound (mem_held_of_find hx) ht hq
      obtain ⟨hstart', -⟩ := Holds.owns_ptr h.sound hu huowns hr
      rw [hr, hstart, hstart', hbase]
    · intro hr
      exact ⟨q, hr, rfl⟩

/-- The second float of `x`, borrowed. -/
def secondFloat : SharedTensor :=
  ⟨.kFloat32, ⟨[1]⟩, .kCPU, ⟨some 1, some ⟨0, 4⟩⟩, 4, false⟩

/-- `z` borrows the second float of `x`. -/
def aliasedPair : Program where
  memory := (createdPair.memory.share (some ⟨0, 4⟩) .noop).2
  scope := AList.insert "z" (.tensor secondFloat) createdPair.scope

private theorem reached_aliasedPair : aliasedPair.Reached := by
  have hblob : createdPair.step (.fromHostBlob "z" .kFloat32 ⟨[1]⟩ (some ⟨0, 4⟩) 4) =
      .ok aliasedPair := rfl
  have hallowed : createdPair.Allowed (.fromHostBlob "z" .kFloat32 ⟨[1]⟩ (some ⟨0, 4⟩) 4) :=
    trivial
  exact reached_createdPair.next hallowed hblob

/-- What is written through `x` behind the first float is read through `z` from the start. -/
theorem reached_write_view_aliasedPair :
    ∃ p', aliasedPair.step (.write "x" .itself 4 [0, 0, 128, 63]) = .ok p' ∧
      (secondFloat.view p'.memory).buffer = some (Base.Block.ofBytes [0, 0, 128, 63]) := by
  obtain ⟨p', hstep⟩ : ∃ p', aliasedPair.step (.write "x" .itself 4 [0, 0, 128, 63]) = .ok p' :=
    ⟨_, rfl⟩
  have hx : aliasedPair.find "x" .itself = some pairTensor := rfl
  have hz : aliasedPair.find "z" .itself = some secondFloat := rfl
  obtain ⟨-, q, s, hq, hs, hseen⟩ := reached_write_view reached_aliasedPair hx hstep
  cases hq
  cases hs
  refine ⟨p', hstep, ?_⟩
  rw [(hseen secondFloat (mem_held_of_find hz)).1 ⟨0, 4⟩ rfl rfl]
  rfl

end Program
end Eduort
