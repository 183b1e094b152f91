import Mathlib.Data.List.Induction
import Mathlib.Algebra.Group.Nat.Defs

/-!
# Allocated blocks and little-endian words

A block is one allocation, cell by cell; a cell that nobody has written holds no byte. A
pointer is a block or null. Stores and copies check what the hardware does not, so an
access outside the allocation is a fault instead of silence.
-/

namespace Eduort.Base

universe u

/-- One allocation; `none` marks a cell that has not been written. -/
structure Block where
  cells : List (Option UInt8)
  deriving DecidableEq, Repr

/-- Accesses that have no defined meaning. -/
inductive Fault where
  | nullPointer
  | outOfBounds
  | uninitialized
  deriving DecidableEq, Repr

namespace Block

/-- Number of bytes in the allocation. -/
def size (b : Block) : Nat := b.cells.length

/-- Fresh storage, not written anywhere. -/
def uninit (n : Nat) : Block := ⟨List.replicate n none⟩

/-- Storage that holds exactly these bytes. -/
def ofBytes (bytes : List UInt8) : Block := ⟨bytes.map some⟩

/-- Fresh storage of `n` bytes whose first cells have been written. -/
def filled (bytes : List UInt8) (n : Nat) : Block :=
  ⟨bytes.map some ++ List.replicate (n - bytes.length) none⟩

/-- The offset lies in the allocation and has been written. -/
def Written (b : Block) (i : Nat) : Prop := ∃ byte, b.cells[i]? = some (some byte)

/-- Overwrite a window of cells. -/
def overwrite (b : Block) (offset : Nat) (bytes : List UInt8) : Block :=
  ⟨b.cells.take offset ++ bytes.map some ++ b.cells.drop (offset + bytes.length)⟩

/-- The bytes from an offset on. -/
def drop (b : Block) (offset : Nat) : Block := ⟨b.cells.drop offset⟩

theorem size_drop (b : Block) (offset : Nat) : (b.drop offset).size = b.size - offset :=
  List.length_drop

theorem size_ofBytes (bytes : List UInt8) : (ofBytes bytes).size = bytes.length :=
  List.length_map some

/-- Nothing filled is fresh storage. -/
theorem filled_nil (n : Nat) : filled [] n = uninit n := rfl

/-- A block filled to its end holds exactly those bytes. -/
theorem filled_length (bytes : List UInt8) : filled bytes bytes.length = ofBytes bytes := by
  simp [filled, ofBytes]

private theorem size_filled (bytes : List UInt8) (n : Nat) (h : bytes.length ≤ n) :
    (filled bytes n).size = n := by
  simp [filled, size, h]

/-- Writing right behind the filled part extends it. -/
theorem overwrite_filled (bytes more : List UInt8) (n : Nat) :
    (filled bytes n).overwrite bytes.length more = filled (bytes ++ more) n := by
  simp only [filled, overwrite, List.map_append, List.length_append, mk.injEq]
  rw [List.take_left' (List.length_map some), List.drop_append,
    List.drop_of_length_le (by simp), List.drop_replicate]
  simp only [List.length_map, List.nil_append, List.append_cancel_left_eq]
  congr 1
  omega

/-- Overwriting a window inside the allocation keeps its size. -/
theorem size_overwrite (b : Block) (offset : Nat) (bytes : List UInt8)
    (h : offset + bytes.length ≤ b.size) : (b.overwrite offset bytes).size = b.size := by
  rw [size] at h
  simp only [overwrite, size, List.length_append, List.length_take, List.length_map,
    List.length_drop]
  omega

/-- Seen from an offset, a window behind it is overwritten. -/
theorem drop_overwrite (b : Block) (start offset : Nat) (bytes : List UInt8)
    (h : start ≤ b.size) :
    (b.overwrite (start + offset) bytes).drop start = (b.drop start).overwrite offset bytes := by
  rw [size] at h
  simp only [overwrite, drop, mk.injEq]
  rw [List.append_assoc, List.drop_append_of_le_length, List.drop_take, Nat.add_sub_cancel_left,
    List.drop_drop, List.append_assoc, Nat.add_assoc]
  rw [List.length_take]
  omega

theorem not_written_uninit (n i : Nat) : ¬ (uninit n).Written i := by
  rintro ⟨byte, hbyte⟩
  have hmem := List.mem_of_getElem? hbyte
  cases (List.mem_replicate.mp hmem).2

/-- Every offset of a block made of bytes is written, and no other offset is. -/
theorem written_ofBytes (bytes : List UInt8) (i : Nat) :
    (ofBytes bytes).Written i ↔ i < bytes.length := by
  simp [Written, ofBytes, List.getElem?_eq_some_iff]

end Block

/-- Store consecutive bytes through a pointer. -/
def store (p : Option Block) (offset : Nat) (bytes : List UInt8) :
    Except Fault (Option Block) :=
  match p with
  | none => .error .nullPointer
  | some b =>
    if offset + bytes.length ≤ b.size then .ok (some (b.overwrite offset bytes))
    else .error .outOfBounds

/-- Load consecutive bytes through a pointer. -/
def load (p : Option Block) (offset len : Nat) : Except Fault (List UInt8) :=
  match p with
  | none => .error .nullPointer
  | some b =>
    if offset + len ≤ b.size then
      match ((b.cells.drop offset).take len).mapM id with
      | none => .error .uninitialized
      | some bytes => .ok bytes
    else .error .outOfBounds

/-- Copy `n` bytes to the start of a block. -/
def memcpy (p : Option Block) (source : List UInt8) (n : Nat) :
    Except Fault (Option Block) :=
  if n ≤ source.length then store p 0 (source.take n) else .error .outOfBounds

/-- Store the elements of a list one after the other, `width` bytes apart. -/
def storeEach {α : Type} (width : Nat) (encode : α → List UInt8) (p : Option Block)
    (xs : List α) : Except Fault (Option Block) :=
  xs.zipIdx.foldlM (fun p e ↦ store p (width * e.2) (encode e.1)) p

/-- A store to a block goes well exactly when there is room. -/
theorem store_some_eq_ok {b : Block} {p : Option Block} {offset : Nat} {bytes : List UInt8} :
    store (some b) offset bytes = .ok p ↔
      offset + bytes.length ≤ b.size ∧ p = some (b.overwrite offset bytes) := by
  rw [store]
  split
  · next hfits => simp [hfits, eq_comm]
  · next hfits => simp [hfits]

/-- Loading from a block made of bytes returns the window of those bytes. -/
theorem load_ofBytes (bytes : List UInt8) (offset len : Nat) (h : offset + len ≤ bytes.length) :
    load (some (Block.ofBytes bytes)) offset len = .ok ((bytes.drop offset).take len) := by
  have hmap (xs : List UInt8) : (xs.map some).mapM id = some xs := by
    induction xs with
    | nil => rfl
    | cons x xs ih => simp [ih]
  simp only [load, Block.size_ofBytes, h, ↓reduceIte]
  rw [Block.ofBytes, ← List.map_drop, ← List.map_take, hmap]

/-- A store right behind the filled part of fresh storage extends it. -/
theorem store_filled (bytes more : List UInt8) (n : Nat) (h : bytes.length + more.length ≤ n) :
    store (some (Block.filled bytes n)) bytes.length more =
      .ok (some (Block.filled (bytes ++ more) n)) := by
  rw [store, Block.size_filled _ _ (by omega), if_pos h, Block.overwrite_filled]

/-- Copying a whole source over fresh storage of its size leaves exactly the source. -/
theorem memcpy_uninit (source : List UInt8) :
    memcpy (some (Block.uninit source.length)) source source.length =
      .ok (some (Block.ofBytes source)) := by
  have h := store_filled [] source source.length (by simp)
  rw [Block.filled_nil, List.nil_append, Block.filled_length] at h
  rw [memcpy, if_pos (Nat.le_refl _), List.take_length]
  exact h

/-- Storing elements of one width from the filled part on extends it by their bytes. -/
theorem storeEach_filled {α : Type} (width n : Nat) (encode : α → List UInt8)
    (hwidth : ∀ x, (encode x).length = width) (xs : List α) (bytes : List UInt8) (k : Nat)
    (hk : bytes.length = width * k) (hn : width * (k + xs.length) ≤ n) :
    (xs.zipIdx k).foldlM (fun p e ↦ store p (width * e.2) (encode e.1))
        (some (Block.filled bytes n)) =
      .ok (some (Block.filled (bytes ++ xs.flatMap encode) n)) := by
  induction xs generalizing bytes k with
  | nil => simp [pure, Except.pure]
  | cons x xs ih =>
    have hlen : (bytes ++ encode x).length = width * (k + 1) := by
      rw [List.length_append, hk, hwidth, Nat.mul_succ]
    have hstep : store (some (Block.filled bytes n)) (width * k) (encode x) =
        .ok (some (Block.filled (bytes ++ encode x) n)) := by
      rw [← hk]
      apply store_filled
      rw [← List.length_append, hlen]
      refine Nat.le_trans (Nat.mul_le_mul_left _ ?_) hn
      simp
    rw [List.zipIdx_cons, List.foldlM_cons, hstep]
    have hrest := ih (bytes ++ encode x) (k + 1) hlen
      (by rwa [Nat.add_assoc, Nat.add_comm 1, ← List.length_cons (a := x)])
    rw [List.append_assoc] at hrest
    exact hrest

/-- Fixed-width encodings take the width times the number of elements. -/
theorem length_flatMap_width {α : Type} (width : Nat) (encode : α → List UInt8)
    (hwidth : ∀ x, (encode x).length = width) (xs : List α) :
    (xs.flatMap encode).length = width * xs.length := by
  induction xs with
  | nil => rfl
  | cons x xs ih =>
    rw [List.flatMap_cons, List.length_append, hwidth, ih, List.length_cons, Nat.mul_succ,
      Nat.add_comm]

/-- The element loop over fresh storage of the right size leaves exactly the encodings. -/
theorem storeEach_uninit {α : Type} (width : Nat) (encode : α → List UInt8)
    (hwidth : ∀ x, (encode x).length = width) (xs : List α) :
    storeEach width encode (some (Block.uninit (width * xs.length))) xs =
      .ok (some (Block.ofBytes (xs.flatMap encode))) := by
  have h := storeEach_filled width (width * xs.length) encode hwidth xs [] 0 (by simp) (by simp)
  have hlen := length_flatMap_width width encode hwidth xs
  rw [Block.filled_nil, List.nil_append, ← hlen, Block.filled_length, hlen] at h
  exact h

/-- The `i`-th window of fixed-width encodings is the encoding of the `i`-th element. -/
theorem window_flatMap {α : Type} (width : Nat) (encode : α → List UInt8)
    (hwidth : ∀ x, (encode x).length = width) (xs : List α) (i : Nat) (hi : i < xs.length) :
    ((xs.flatMap encode).drop (width * i)).take width = encode xs[i] := by
  induction xs generalizing i with
  | nil => simp at hi
  | cons x xs ih =>
    rw [List.flatMap_cons]
    cases i with
    | zero => simp [hwidth]
    | succ i =>
      have hskip : width * (i + 1) = (encode x).length + width * i := by
        rw [hwidth, Nat.mul_succ, Nat.add_comm]
      rw [hskip, List.drop_append, List.drop_of_length_le (by omega), List.nil_append,
        Nat.add_sub_cancel_left]
      simpa using ih i (by simpa using hi)

/-! ### Little-endian words -/

/-- The low `width` bytes of a number, least significant first. -/
def leBytes : Nat → Nat → List UInt8
  | 0, _ => []
  | width + 1, n => UInt8.ofNat (n % 256) :: leBytes width (n / 256)

/-- The number whose little-endian bytes these are. -/
def leNat : List UInt8 → Nat
  | [] => 0
  | byte :: bytes => byte.toNat + 256 * leNat bytes

theorem length_leBytes (width n : Nat) : (leBytes width n).length = width := by
  induction width generalizing n with
  | zero => rfl
  | succ width ih => rw [leBytes, List.length_cons, ih]

/-- Reading back the bytes of a number that fits returns it. -/
theorem leNat_leBytes (width n : Nat) (h : n < 256 ^ width) : leNat (leBytes width n) = n := by
  induction width generalizing n with
  | zero =>
    rw [Nat.pow_zero] at h
    rw [leBytes, leNat]
    omega
  | succ width ih =>
    have hdiv : n / 256 < 256 ^ width := by
      rw [Nat.div_lt_iff_lt_mul (by decide), ← Nat.pow_succ]
      exact h
    have hbyte : (UInt8.ofNat (n % 256)).toNat = n % 256 :=
      UInt8.toNat_ofNat_of_lt' (Nat.mod_lt n (by decide))
    rw [leBytes, leNat, ih _ hdiv, hbyte]
    omega

end Eduort.Base
