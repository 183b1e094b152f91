import Eduort.Status
import Mathlib.Algebra.BigOperators.Group.List.Lemmas
import Mathlib.Algebra.BigOperators.Ring.List
import Mathlib.Algebra.Ring.Nat
import Mathlib.Data.List.TakeWhile

/-!
# Tensor shapes and their element count

Models `TensorShape` of `include/eduort/tensor.h:58` and `src/tensor.cpp:66–110`. Dims and
counts are `UInt64`, so products wrap as they do in the source. The checked product is
compared with the product over `Nat`.
-/

namespace Eduort

/-- `std::numeric_limits<uint64_t>::max()`, which is also the largest `size_t`. -/
def uint64Max : UInt64 := 0xFFFFFFFFFFFFFFFF

/-- Concrete dimension sizes; `include/eduort/tensor.h:58`. -/
structure TensorShape where
  dims : List UInt64
  deriving DecidableEq, Repr

namespace TensorShape

/-- The status for a negative dim; `src/tensor.cpp:73`. -/
def negativeDimStatus (d : Int64) : Status :=
  Status.error .kInvalidArgument
    s!"TensorShape dim must be >= 0 (got {d}); symbolic/negative dims are not supported"

/-- One iteration of the sign check; `src/tensor.cpp:71–79`. -/
def pushSignedDim (out : List UInt64) (d : Int64) : StatusOr (List UInt64) :=
  if d < 0 then .error (negativeDimStatus d) else .ok (out ++ [d.toUInt64])

/-- `TensorShape::FromSignedDims`; `src/tensor.cpp:66`. -/
def fromSignedDims (dims : List Int64) : StatusOr TensorShape := do
  let out ← dims.foldlM pushSignedDim []
  return ⟨out⟩

/-- The status of a count that does not fit; `src/tensor.cpp:91`. -/
def overflowStatus : Status :=
  Status.error .kInvalidArgument "TensorShape NumElements overflows uint64"

/-- The loop of `NumElementsChecked` with its running product; `src/tensor.cpp:86–95`. -/
def productLoop (product : UInt64) : List UInt64 → StatusOr UInt64
  | [] => .ok product
  | d :: dims =>
    if d = 0 then .ok 0
    else if uint64Max / d < product then .error overflowStatus
    else productLoop (product * d) dims

/-- `TensorShape::NumElementsChecked`; `src/tensor.cpp:83`. -/
def numElementsChecked (s : TensorShape) : StatusOr UInt64 := productLoop 1 s.dims

/-- `TensorShape::NumElements`, which aborts where the checked form fails;
`src/tensor.cpp:99`. -/
def numElements (s : TensorShape) : Outcome UInt64 :=
  match s.numElementsChecked with
  | .ok n => .ok n
  | .error st => .error (.abort
      s!"eduort::TensorShape::NumElements() on invalid shape: {st.toString}\n")

/-- The mathematical product of the dims. -/
def count (s : TensorShape) : Nat := (s.dims.map UInt64.toNat).prod

/-- The product of the dims in front of the first zero. -/
def leadingCount (s : TensorShape) : Nat :=
  ((s.dims.takeWhile (· ≠ 0)).map UInt64.toNat).prod

/-- The product of the dims other than zero. -/
def nonzeroCount (s : TensorShape) : Nat :=
  ((s.dims.filter (· ≠ 0)).map UInt64.toNat).prod

/-! ### Signed dims -/

/-- Signed dims convert exactly when none is negative, and each keeps its value. -/
theorem fromSignedDims_eq_ok (dims : List Int64) (s : TensorShape) :
    fromSignedDims dims = .ok s ↔
      (∀ d ∈ dims, 0 ≤ d) ∧ s = ⟨dims.map Int64.toUInt64⟩ := by
  have hloop (out : List UInt64) : dims.foldlM pushSignedDim [] = .ok out ↔
      (∀ d ∈ dims, 0 ≤ d) ∧ out = dims.map Int64.toUInt64 := by
    refine Base.foldlM_eq_ok_iff
      (fun ds out ↦ (∀ d ∈ ds, 0 ≤ d) ∧ out = ds.map Int64.toUInt64) ?_ ?_ dims out
    · intro out
      simp [eq_comm]
    · intro ds d out
      by_cases hd : d < 0
      · have hn : ¬ 0 ≤ d := Int64.not_le.mpr hd
        simp [pushSignedDim, hd]
      · have hn : 0 ≤ d := Int64.not_lt.mp hd
        simp [pushSignedDim, hd, hn, or_imp, forall_and, eq_comm]
  rw [fromSignedDims, Base.bind_eq_ok]
  constructor
  · rintro ⟨out, hout, hs⟩
    obtain ⟨hpos, rfl⟩ := (hloop out).mp hout
    exact ⟨hpos, (Except.ok.inj hs).symm⟩
  · rintro ⟨hpos, rfl⟩
    exact ⟨_, (hloop _).mpr ⟨hpos, rfl⟩, rfl⟩

/-! ### The running product -/

/-- The overflow guard holds back exactly the products that do not fit. -/
theorem guard_iff (product d : UInt64) (hd : d ≠ 0) :
    uint64Max / d < product ↔ 2 ^ 64 ≤ product.toNat * d.toNat := by
  have hpos : 0 < d.toNat := by
    rw [Nat.pos_iff_ne_zero]
    intro h
    exact hd (UInt64.toNat_inj.mp h)
  have hmax : uint64Max.toNat = 2 ^ 64 - 1 := rfl
  rw [UInt64.lt_iff_toNat_lt, UInt64.toNat_div, hmax, Nat.div_lt_iff_lt_mul hpos]
  omega

/-- A product of dims other than zero is positive. -/
theorem prod_pos_of_not_mem_zero (dims : List UInt64) (h : 0 ∉ dims) :
    0 < (dims.map UInt64.toNat).prod := by
  apply Nat.pos_of_ne_zero
  apply List.prod_ne_zero
  intro hmem
  obtain ⟨d, hd, hd0⟩ := List.mem_map.mp hmem
  have hzero : d = 0 := UInt64.toNat_inj.mp hd0
  exact h (hzero ▸ hd)

/-- There is no zero in front of the first zero. -/
theorem not_mem_zero_takeWhile (dims : List UInt64) : 0 ∉ dims.takeWhile (· ≠ 0) := by
  intro h
  simpa using List.mem_takeWhile_imp h

/-- The loop succeeds exactly when the dims in front of the first zero fit, and then
holds the product of all dims. -/
theorem productLoop_eq_ok (product n : UInt64) (dims : List UInt64) :
    productLoop product dims = .ok n ↔
      product.toNat * ((dims.takeWhile (· ≠ 0)).map UInt64.toNat).prod < 2 ^ 64 ∧
        n.toNat = product.toNat * (dims.map UInt64.toNat).prod := by
  induction dims generalizing product with
  | nil =>
    have := product.toNat_lt
    simp [productLoop, ← UInt64.toNat_inj, eq_comm, this]
  | cons d dims ih =>
    have hlt := product.toNat_lt
    by_cases hd : d = 0
    · simp [productLoop, hd, ← UInt64.toNat_inj, eq_comm, hlt]
    · rw [productLoop, if_neg hd, List.takeWhile_cons_of_pos (by simpa using hd)]
      simp only [List.map_cons, List.prod_cons, ← Nat.mul_assoc]
      have hpos := prod_pos_of_not_mem_zero _ (not_mem_zero_takeWhile dims)
      by_cases hguard : uint64Max / d < product
      · have hover := (guard_iff product d hd).mp hguard
        have := Nat.le_mul_of_pos_right (product.toNat * d.toNat) hpos
        simp only [hguard, ↓reduceIte, reduceCtorEq, false_iff, not_and]
        omega
      · have hfits : product.toNat * d.toNat < 2 ^ 64 := by
          rw [guard_iff product d hd] at hguard
          omega
        have hmul : (product * d).toNat = product.toNat * d.toNat := by
          rw [UInt64.toNat_mul, Nat.mod_eq_of_lt hfits]
        rw [if_neg hguard, ih, hmul]

/-- The loop fails only with the overflow status. -/
theorem productLoop_eq_error (product : UInt64) (dims : List UInt64) (st : Status)
    (h : productLoop product dims = .error st) : st = overflowStatus := by
  induction dims generalizing product with
  | nil => cases h
  | cons d dims ih =>
    rw [productLoop] at h
    split at h
    · cases h
    · split at h
      · exact (Except.error.inj h).symm
      · exact ih _ h

variable (s : TensorShape)

/-- `NumElementsChecked` returns the mathematical product, and succeeds exactly when the
dims in front of the first zero multiply to a `uint64_t`. -/
theorem numElementsChecked_eq_ok (n : UInt64) :
    s.numElementsChecked = .ok n ↔ s.leadingCount < 2 ^ 64 ∧ n.toNat = s.count := by
  rw [numElementsChecked, productLoop_eq_ok]
  simp [leadingCount, count]

/-- `NumElementsChecked` fails only with the overflow status. -/
theorem numElementsChecked_eq_error (st : Status) (h : s.numElementsChecked = .error st) :
    st = overflowStatus :=
  productLoop_eq_error 1 s.dims st h

/-- A zero dim makes the whole product zero. -/
theorem count_of_mem_zero (h : 0 ∈ s.dims) : s.count = 0 := by
  apply List.prod_eq_zero
  exact List.mem_map.mpr ⟨0, h, rfl⟩

/-- Without a zero dim the product in front of the first zero is the whole product. -/
theorem leadingCount_of_not_mem_zero (h : 0 ∉ s.dims) : s.leadingCount = s.count := by
  have hall : s.dims.takeWhile (· ≠ 0) = s.dims := by
    rw [List.takeWhile_eq_self_iff]
    intro d hd
    simp only [ne_eq, decide_eq_true_eq]
    rintro rfl
    exact h hd
  rw [leadingCount, hall, count]

/-- The dims in front of the first zero are some of the dims other than zero. -/
theorem leadingCount_le_nonzeroCount : s.leadingCount ≤ s.nonzeroCount := by
  have hself : (s.dims.takeWhile (· ≠ 0)).filter (· ≠ 0) = s.dims.takeWhile (· ≠ 0) := by
    rw [List.filter_eq_self]
    intro d hd
    simpa using List.mem_takeWhile_imp hd
  have hsub := (s.dims.takeWhile_sublist (· ≠ 0)).filter (· ≠ 0)
  rw [hself] at hsub
  apply Nat.le_of_dvd
  · exact prod_pos_of_not_mem_zero _ (by simp)
  · exact (hsub.map UInt64.toNat).prod_dvd_prod

/-- A successful check bounds the product itself. -/
theorem count_lt_of_leadingCount_lt (h : s.leadingCount < 2 ^ 64) : s.count < 2 ^ 64 := by
  by_cases hz : 0 ∈ s.dims
  · rw [count_of_mem_zero s hz]
    omega
  · rwa [← leadingCount_of_not_mem_zero s hz]

/-- The whole outcome of the check, from the two products. -/
theorem numElementsChecked_eq : s.numElementsChecked =
    if s.leadingCount < 2 ^ 64 then .ok (UInt64.ofNat s.count) else .error overflowStatus := by
  split
  · next h =>
    have hcount := count_lt_of_leadingCount_lt s h
    exact (s.numElementsChecked_eq_ok _).mpr ⟨h, UInt64.toNat_ofNat_of_lt' hcount⟩
  · next h =>
    cases hr : s.numElementsChecked with
    | ok n => exact absurd ((s.numElementsChecked_eq_ok n).mp hr).1 h
    | error st => rw [s.numElementsChecked_eq_error st hr]

/-- The check succeeds exactly when the dims in front of the first zero fit. -/
theorem numElementsChecked_isOk :
    (∃ n, s.numElementsChecked = .ok n) ↔ s.leadingCount < 2 ^ 64 := by
  rw [numElementsChecked_eq]
  split <;> simp_all

/-- `NumElements` returns exactly what the checked form returns. -/
theorem numElements_eq_ok (n : UInt64) :
    s.numElements = .ok n ↔ s.numElementsChecked = .ok n := by
  unfold numElements
  cases s.numElementsChecked <;> simp

/-! ### Exactness and the position of a zero dim -/

/-- The check succeeds exactly when the product of the dims fits, and returns it. -/
def CountExact : Prop :=
  ((∃ n, s.numElementsChecked = .ok n) ↔ s.count < 2 ^ 64) ∧
    ∀ n, s.numElementsChecked = .ok n → n.toNat = s.count

/-- Every order of the dims has the same outcome. -/
def CountOrderFree : Prop :=
  ∀ dims : List UInt64, dims.Perm s.dims →
    (⟨dims⟩ : TensorShape).numElementsChecked = s.numElementsChecked

/-- The check is exact unless nonzero dims that overflow stand in front of a zero. -/
theorem countExact_iff : s.CountExact ↔ 0 ∉ s.dims ∨ s.leadingCount < 2 ^ 64 := by
  rw [CountExact, numElementsChecked_isOk]
  constructor
  · rintro ⟨hiff, -⟩
    by_cases hz : 0 ∈ s.dims
    · right
      rw [hiff, count_of_mem_zero s hz]
      omega
    · exact Or.inl hz
  · intro h
    refine ⟨⟨count_lt_of_leadingCount_lt s, fun hcount ↦ ?_⟩, fun n hn ↦ ?_⟩
    · rcases h with hz | hlead
      · rwa [leadingCount_of_not_mem_zero s hz]
      · exact hlead
    · exact ((s.numElementsChecked_eq_ok n).mp hn).2

/-- Reordering dims without a zero leaves both products alone. -/
theorem numElementsChecked_perm (dims : List UInt64) (hperm : dims.Perm s.dims)
    (hz : 0 ∉ s.dims) : (⟨dims⟩ : TensorShape).numElementsChecked = s.numElementsChecked := by
  have hz' : 0 ∉ dims := fun h ↦ hz (hperm.mem_iff.mp h)
  have hcount : (⟨dims⟩ : TensorShape).count = s.count :=
    (hperm.map UInt64.toNat).prod_eq
  rw [numElementsChecked_eq, numElementsChecked_eq s, leadingCount_of_not_mem_zero ⟨dims⟩ hz',
    leadingCount_of_not_mem_zero s hz, hcount]

/-- With a zero dim somewhere and nonzero dims that fit, every order gives zero. -/
theorem numElementsChecked_of_nonzeroCount_lt (hz : 0 ∈ s.dims)
    (h : s.nonzeroCount < 2 ^ 64) : s.numElementsChecked = .ok 0 := by
  rw [numElementsChecked_eq_ok, count_of_mem_zero s hz]
  exact ⟨Nat.lt_of_le_of_lt s.leadingCount_le_nonzeroCount h, rfl⟩

/-- A leading zero decides the outcome, whatever follows. -/
theorem numElementsChecked_zero_cons (dims : List UInt64) :
    (⟨0 :: dims⟩ : TensorShape).numElementsChecked = .ok 0 := by
  simp [numElementsChecked, productLoop]

/-- Trailing zeros come too late to stop the running product. -/
theorem leadingCount_append_zeros (front zeros : List UInt64) (hfront : 0 ∉ front)
    (hzeros : ∀ d ∈ zeros, d = 0) :
    (⟨front ++ zeros⟩ : TensorShape).leadingCount = (front.map UInt64.toNat).prod := by
  have hall : ∀ d ∈ front, decide (d ≠ 0) = true := by
    intro d hd
    simp only [ne_eq, decide_eq_true_eq]
    rintro rfl
    exact hfront hd
  have hnone : zeros.takeWhile (· ≠ 0) = [] := by
    rw [List.eq_nil_iff_forall_not_mem]
    intro d hd
    have hne : d ≠ 0 := by simpa using List.mem_takeWhile_imp hd
    exact hne (hzeros d ((zeros.takeWhile_sublist _).subset hd))
  rw [leadingCount, List.takeWhile_append_of_pos hall, hnone, List.append_nil]

/-- The order of the dims matters exactly when there is a zero dim and the others overflow:
zeros first succeed, zeros last fail. -/
theorem countOrderFree_iff :
    s.CountOrderFree ↔ 0 ∉ s.dims ∨ s.nonzeroCount < 2 ^ 64 := by
  constructor
  · intro hfree
    by_contra hcon
    simp only [not_or, not_not, not_lt] at hcon
    obtain ⟨hz, hbig⟩ := hcon
    have hfirst : s.numElementsChecked = .ok 0 := by
      rw [← hfree _ (List.perm_cons_erase hz).symm, numElementsChecked_zero_cons]
    have hlead := leadingCount_append_zeros (s.dims.filter (· ≠ 0))
      (s.dims.filter fun d ↦ !decide (d ≠ 0)) (by simp) (by simp)
    have hlast := hfree _ (List.filter_append_perm (· ≠ 0) s.dims)
    rw [hfirst, numElementsChecked_eq_ok, hlead] at hlast
    exact absurd hlast.1 (Nat.not_lt.mpr hbig)
  · rintro (hz | hsmall) dims hperm
    · exact numElementsChecked_perm s dims hperm hz
    · by_cases hz : 0 ∈ s.dims
      · have hsame : (⟨dims⟩ : TensorShape).nonzeroCount = s.nonzeroCount :=
          ((hperm.filter _).map UInt64.toNat).prod_eq
        rw [numElementsChecked_of_nonzeroCount_lt s hz hsmall]
        apply numElementsChecked_of_nonzeroCount_lt
        · exact hperm.mem_iff.mpr hz
        · rwa [hsame]
      · exact numElementsChecked_perm s dims hperm hz

/-- Exactness and order independence of the count, each with its exact condition. -/
theorem numElementsChecked_exact_iff :
    (s.CountExact ↔ 0 ∉ s.dims ∨ s.leadingCount < 2 ^ 64) ∧
      (s.CountOrderFree ↔ 0 ∉ s.dims ∨ s.nonzeroCount < 2 ^ 64) :=
  ⟨s.countExact_iff, s.countOrderFree_iff⟩

/-- The dims `[2^63, 4, 0]` hold no element, yet the check reports an overflow, and it
would not had the zero come first. -/
theorem numElementsChecked_zero_last :
    ¬ (⟨[0x8000000000000000, 4, 0]⟩ : TensorShape).CountExact ∧
      ¬ (⟨[0x8000000000000000, 4, 0]⟩ : TensorShape).CountOrderFree := by
  rw [countExact_iff, countOrderFree_iff]
  decide

end TensorShape
end Eduort
