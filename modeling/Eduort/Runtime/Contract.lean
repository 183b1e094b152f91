import Eduort.Runtime.Lifetimes

/-!
# The contract of the host

`Tensor::FromHostBlob` takes a pointer on trust: the storage has to be there, be as long as the
host says and outlive the tensors that borrow it. A host that keeps to this finds storage for every
byte of every tensor, however the tensors come and go.
-/

namespace Eduort

/-- What a tensor that does not own its data finds at its pointer: storage of the host for all of
its bytes. Without a pointer it is empty or has been moved from. -/
structure SharedTensor.Borrows (m : Base.Memory) (t : SharedTensor) : Prop where
  lent : ∀ q, t.buffer.ptr = some q → ∃ s, m.storage q.base = some s ∧ s.origin = .host ∧
    q.offset + t.nbytes.toNat ≤ s.block.size
  null : t.buffer.ptr = none → t.nbytes = 0 ∨ t.MovedFrom

namespace Program

/-- The host lends only storage of its own with as many bytes as it says, and ends none that a
tensor in use borrows; `docs/03-tensors-and-memory.md:87`. -/
def Honours (p : Program) : Action → Prop
  | .fromHostBlob _ _ _ data bytes => ∀ q, data = some q →
      ∃ s, p.memory.storage q.base = some s ∧ s.origin = .host ∧
        q.offset + bytes.toNat ≤ s.block.size
  | .hostEnd a => ∀ t ∈ p.held, t.ownsData = false → ∀ q, t.buffer.ptr = some q → q.base ≠ a
  | _ => True

/-- Every tensor in use that does not own its data has it lent. -/
def Lent (p : Program) : Prop := ∀ t ∈ p.held, t.ownsData = false → t.Borrows p.memory

variable {p p' : Program} {actions : List Action} {action : Action} {t : SharedTensor}

theorem lent_start : Lent {} := by
  intro t ht
  cases ht

/-- Step lemma: what has been lent stays so while the host keeps to its contract. -/
theorem Lent.step (h : p.Lent) (hhonours : Honours p action) (houtcome : p.Outcome action p') :
    p'.Lent := by
  intro t ht hborrows
  cases houtcome.held t ht with
  | held hold =>
    obtain ⟨hlent, hnull⟩ := h t hold hborrows
    refine ⟨fun q hptr ↦ ?_, hnull⟩
    obtain ⟨s, hs, hhost, hsize⟩ := hlent q hptr
    have hend : action ≠ .hostEnd q.base := by
      rintro rfl
      exact hhonours t hold hborrows q hptr rfl
    obtain ⟨s', hs', hhost', hsize'⟩ := houtcome.host_lives hs hhost hend
    exact ⟨s', hs', hhost', hsize' ▸ hsize⟩
  | movedFrom hmoved =>
    refine ⟨fun q hptr ↦ ?_, fun _ ↦ Or.inr hmoved⟩
    rw [hmoved.buffer_eq] at hptr
    cases hptr
  | owns howns =>
    rw [howns] at hborrows
    cases hborrows
  | blob haction hblob =>
    subst haction
    obtain ⟨-, -, ⟨hbytes, hnull⟩, hbuffer, -⟩ := SharedTensor.fromHostBlob_spec hblob
    have hptr : t.buffer.ptr = _ := congrArg Base.SharedPtr.ptr hbuffer
    refine ⟨fun q hq ↦ ?_, fun hnone ↦ Or.inl (hnull (hptr.symm.trans hnone))⟩
    obtain ⟨s, hs, hhost, hsize⟩ := hhonours q (hptr.symm.trans hq)
    obtain ⟨s', hs', hhost', hsize'⟩ := houtcome.host_lives hs hhost nofun
    rw [hbytes]
    exact ⟨s', hs', hhost', hsize' ▸ hsize⟩

/-- Run lemma. -/
theorem Leads.lent (run : Leads Honours p actions p') (hsound : p.Sound) (h : p.Lent) :
    p'.Lent := by
  have hinv : p'.Sound ∧ p'.Lent := by
    apply run.invariant ⟨hsound, h⟩
    rintro q action q' ⟨hq, hlent⟩ ⟨hallowed, hhonours, hstep⟩
    have houtcome := hq.outcome hallowed hstep
    exact ⟨houtcome.sound, hlent.step hhonours houtcome⟩
  exact hinv.2

end Program
end Eduort
