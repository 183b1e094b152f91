import Eduort.Runtime.Contract
import Eduort.Runtime.Ideal

/-!
# Programs do not notice lifetimes

A program that counts owners, frees buffers and uses addresses again computes what one without
lifetimes computes. A control block stands for the cell of the tensors that share it; its number
is never used again, unlike the address of the storage.
-/

namespace Eduort

open Onnx

/-- What a tensor refers to. -/
def SharedTensor.ref (t : SharedTensor) : Ref :=
  if t.ownsData then
    match t.buffer.control with
    | none => .null
    | some c => .cell c
  else .ofHost t.buffer.ptr

private theorem SharedTensor.ref_of_owns {t : SharedTensor} (howns : t.ownsData = true) :
    t.ref = match t.buffer.control with
      | none => .null
      | some c => .cell c := by
  rw [ref, if_pos howns]

private theorem SharedTensor.ref_of_borrows {t : SharedTensor} (hborrows : t.ownsData = false) :
    t.ref = .ofHost t.buffer.ptr := by
  rw [ref, hborrows]
  rfl

/-- The tensor without its pointer. -/
def SharedTensor.toRef (t : SharedTensor) : RefTensor :=
  ⟨t.dtype, t.shape, t.device, t.ref, t.nbytes, t.ownsData⟩

/-- What is left of it after a move is the same with and without the pointer. -/
theorem SharedTensor.toRef_movedFrom (t : SharedTensor) :
    t.movedFrom.toRef = t.toRef.movedFrom := by
  have href : t.movedFrom.ref = .null := by
    unfold ref
    split
    · rfl
    · rfl
  rw [toRef, href]
  rfl

private theorem Object.map_movedFrom (v : Object) :
    (v.movedFrom SharedTensor.movedFrom).map SharedTensor.toRef =
      (v.map SharedTensor.toRef).movedFrom RefTensor.movedFrom := by
  cases v with
  | tensor t => exact congrArg ObjectOf.tensor t.toRef_movedFrom
  | graph g => rfl

namespace Base.Memory

/-- The storage of the host at an address. -/
def hostAt (m : Memory) (a : Nat) : Option Block :=
  (m.storage a).bind fun s ↦ if s.origin = .host then some s.block else none

variable {m m' : Memory} {a : Nat}

private theorem hostAt_of_host {s : Storage} (hs : m.storage a = some s)
    (hhost : s.origin = .host) : m.hostAt a = some s.block := by
  rw [hostAt, hs]
  exact if_pos hhost

private theorem hostAt_of_allocated (h : m.Allocated a) : m.hostAt a = none := by
  obtain ⟨s, hs, horigin⟩ := h
  rw [hostAt, hs]
  apply if_neg
  rw [horigin]
  nofun

private theorem hostAt_of_none (h : m.storage a = none) : m.hostAt a = none := by
  rw [hostAt, h]
  rfl

/-- Allocating changes no storage of the host. -/
theorem Grows.hostAt_eq (h : m.Grows m') (a : Nat) : m'.hostAt a = m.hostAt a := by
  cases hs : m.storage a with
  | some s => rw [hostAt, hostAt, h.kept a s hs, hs]
  | none =>
    rw [hostAt_of_none hs]
    cases hs' : m'.storage a with
    | none => exact hostAt_of_none hs'
    | some s' => exact hostAt_of_allocated ⟨s', hs', h.began a s' hs hs'⟩

/-- Giving back what was allocated changes no storage of the host. -/
theorem Shrinks.hostAt_eq (h : m.Shrinks m') (a : Nat) : m'.hostAt a = m.hostAt a := by
  rcases h.storage a with hsame | ⟨halloc, hend⟩
  · rw [hostAt, hostAt, hsame]
  · rw [hostAt_of_allocated halloc]
    exact hostAt_of_none hend

end Base.Memory

namespace Ideal

/-- The cells of the tensors in use and the storage of the host hold what the memory does, and the
same requests have been refused. -/
structure Reflects (s : Ideal) (m : Base.Memory) (held : List SharedTensor) : Prop where
  cell : ∀ t ∈ held, t.ownsData = true → ∀ c, t.buffer.control = some c →
    s.cells c = m.blockAt t.buffer.ptr
  fresh : ∀ c, m.nextControl ≤ c → s.cells c = none
  host : ∀ a, s.hosts a = m.hostAt a
  refused_eq : s.refused = m.refused

/-- The cells with those of the control blocks since `m`. -/
def cellsSince (s : Ideal) (m m' : Base.Memory) (c : Nat) : Option Base.Block :=
  if c < m.nextControl then s.cells c else (m'.controls c).bind fun k ↦ m'.blockAt k.ptr

namespace Reflects

variable {s : Ideal} {m m' : Base.Memory} {held : List SharedTensor}

/-- Control blocks come and go, but storage and the tensors that own their data are the same. -/
theorem same_storage {held' : List SharedTensor} {log : List Nat} (h : s.Reflects m held)
    (hheld : ∀ t ∈ held', t.ownsData = true → t.buffer.control ≠ none → t ∈ held)
    (hstorage : m'.storage = m.storage) (hnext : m.nextControl ≤ m'.nextControl)
    (hlog : m'.refused = log) : Reflects { s with refused := log } m' held' where
  cell t ht howns c hc := by
    have hcontrol : t.buffer.control ≠ none := by
      rw [hc]
      exact Option.some_ne_none c
    refine (h.cell t (hheld t ht howns hcontrol) howns c hc).trans ?_
    exact (Base.Memory.blockAt_congr fun q _ ↦ congrFun hstorage q.base).symm
  fresh c hc := h.fresh c (Nat.le_trans hnext hc)
  host a := by
    refine (h.host a).trans ?_
    rw [Base.Memory.hostAt, Base.Memory.hostAt, hstorage]
  refused_eq := hlog.symm

/-- Variables are bound and unbound. -/
theorem assign (h : s.Reflects m held) (x : String) (v : Option (ObjectOf RefTensor)) :
    (s.assign x v).Reflects m held where
  cell := h.cell
  fresh := h.fresh
  host := h.host
  refused_eq := h.refused_eq

/-- Tensors go, and the storage that they alone owned. -/
theorem shrinks {held' : List SharedTensor} (h : s.Reflects m held) (hm : Holds m held)
    (hm' : Holds m' held') (hsub : held' ⊆ held) (hshrinks : m.Shrinks m') :
    s.Reflects m' held' where
  cell t ht howns c hc := by
    rw [h.cell t (hsub ht) howns c hc]
    exact (hm.blockAt_kept hm' (hsub ht) ht howns hshrinks).symm
  fresh c hc := by
    rw [hshrinks.next_eq] at hc
    exact h.fresh c hc
  host a := (h.host a).trans (hshrinks.hostAt_eq a).symm
  refused_eq := h.refused_eq.trans hshrinks.refused_eq.symm

/-- Tensors come, with control blocks and storage of their own. -/
theorem grows {joined : List SharedTensor} (h : s.Reflects m held) (hm : Holds m held)
    (hm' : Holds m' (joined ++ held)) (hgrows : m.Grows m') (hlog : m'.refused = m.refused)
    (hjoined : ∀ t ∈ joined, ∀ c, t.buffer.control = some c → m.nextControl ≤ c) :
    Reflects { s with cells := s.cellsSince m m' } m' (joined ++ held) where
  cell t ht howns c hc := by
    show s.cellsSince m m' c = _
    obtain ⟨k, hk, hptr⟩ := hm'.refCounted.pointsTo t.buffer (List.mem_map_of_mem ht) c hc
    rcases List.mem_append.mp ht with hnew | hold
    · rw [cellsSince, if_neg (Nat.not_lt_of_le (hjoined t hnew c hc)), hk, Option.bind_some, hptr]
    · obtain ⟨k₀, hk₀, -⟩ := hm.refCounted.pointsTo t.buffer (List.mem_map_of_mem hold) c hc
      rw [cellsSince, if_pos (hm.refCounted.lt_next hk₀), h.cell t hold howns c hc]
      symm
      apply hgrows.blockAt_eq
      intro q hq hnone
      obtain ⟨-, c', st, howned⟩ := hm.owns_ptr hold howns hq
      rw [howned.storage] at hnone
      cases hnone
  fresh c hc := by
    have hnext := Nat.le_trans hgrows.next_le hc
    show s.cellsSince m m' c = none
    rw [cellsSince, if_neg (Nat.not_lt_of_le hnext), hm'.refCounted.fresh c hc]
    rfl
  host a := (h.host a).trans (hgrows.hostAt_eq a).symm
  refused_eq := h.refused_eq.trans hlog.symm

section Storage

variable {a : Nat}

/-- What happens to storage of the host does not concern a tensor that owns its data. -/
theorem blockAt_owner (hm : Holds m held) (ha : ∀ st, m.storage a = some st → st.origin = .host)
    (hother : ∀ b, b ≠ a → m'.storage b = m.storage b) {t : SharedTensor} (ht : t ∈ held)
    (howns : t.ownsData = true) : m'.blockAt t.buffer.ptr = m.blockAt t.buffer.ptr := by
  apply Base.Memory.blockAt_congr
  intro q hptr
  apply hother
  rintro rfl
  obtain ⟨-, c, st, howned⟩ := hm.owns_ptr ht howns hptr
  have hhost := ha st howned.storage
  rw [howned.origin] at hhost
  cases hhost

/-- The host begins storage, or writes to it. -/
theorem provideHost (h : s.Reflects m held) (hm : Holds m held)
    (ha : ∀ st, m.storage a = some st → st.origin = .host) (block : Base.Block) :
    Reflects { s with hosts := Function.update s.hosts a (some block) }
      (m.provide a ⟨block, .host⟩) held where
  cell t ht howns c hc := by
    refine (h.cell t ht howns c hc).trans (blockAt_owner hm ha (fun b hne ↦ ?_) ht howns).symm
    rw [m.storage_provide, if_neg hne]
  fresh := h.fresh
  host b := by
    show Function.update s.hosts a _ b = _
    rw [Base.Memory.hostAt, m.storage_provide, Function.update_apply, h.host b]
    split
    · rfl
    · rfl
  refused_eq := h.refused_eq

/-- Storage of the host is written to. -/
theorem overwriteHost (h : s.Reflects m held) (hm : Holds m held) {q : Base.Pointer}
    {st : Base.Storage} (hst : m.storage q.base = some st) (hhost : st.origin = .host)
    (offset : Nat) (bytes : List UInt8) :
    (s.overwrite offset bytes (.host q)).Reflects
      (m.provide q.base { st with block := st.block.overwrite (q.offset + offset) bytes })
      held := by
  have hprovided := h.provideHost hm (a := q.base) (fun st' hst' ↦ by
    rw [hst] at hst'
    cases hst'
    exact hhost) (st.block.overwrite (q.offset + offset) bytes)
  have hblock : s.hosts q.base = some st.block := by
    rw [h.host q.base, Base.Memory.hostAt_of_host hst hhost]
  rw [Ideal.overwrite, hblock, hhost]
  exact hprovided

/-- The host ends storage. -/
theorem withdrawHost (h : s.Reflects m held) (hm : Holds m held)
    (ha : ∀ st, m.storage a = some st → st.origin = .host) :
    Reflects { s with hosts := Function.update s.hosts a none } (m.withdraw a) held where
  cell t ht howns c hc := by
    refine (h.cell t ht howns c hc).trans (blockAt_owner hm ha (fun b hne ↦ ?_) ht howns).symm
    rw [m.storage_withdraw, if_neg hne]
  fresh := h.fresh
  host b := by
    show Function.update s.hosts a _ b = _
    rw [Base.Memory.hostAt, m.storage_withdraw, Function.update_apply, h.host b]
    split
    · rfl
    · rfl
  refused_eq := h.refused_eq

/-- A tensor that owns its data is written to. -/
theorem overwriteCell (h : s.Reflects m held) (hm : Holds m held) {t : SharedTensor}
    (ht : t ∈ held) (howns : t.ownsData = true) {c : Nat} {st : Base.Storage}
    (howned : t.Owns m c a st) (offset : Nat) (bytes : List UInt8) :
    (s.overwrite offset bytes (.cell c)).Reflects
      (m.provide a { st with block := st.block.overwrite offset bytes }) held where
  cell u hu huowns c' hc' := by
    obtain ⟨q, hq⟩ : ∃ q, u.buffer.ptr = some q := by
      rcases hm.owns hu huowns with ⟨hempty, -⟩ | ⟨c₁, a₁, st₁, howned₁⟩
      · rw [hempty] at hc'
        cases hc'
      · exact ⟨.start a₁, by rw [howned₁.buffer]⟩
    obtain ⟨hstart, -⟩ := hm.owns_ptr hu huowns hq
    have hsame : q.base = a ↔ c' = c := by
      have hptrs := hm.ptr_eq_iff hu ht huowns howns
      rw [howned.buffer, hc', hq, Option.some.injEq, Option.some.injEq] at hptrs
      rw [← hptrs]
      constructor
      · intro hbase
        rw [hstart, hbase]
      · intro heq
        rw [heq]
        rfl
    show Function.update s.cells c _ c' = _
    rw [Function.update_apply, hq, m.blockAt_provide, ← hq, ← h.cell u hu huowns c' hc']
    by_cases heq : c' = c
    · have hbase := hsame.mpr heq
      have hcell : s.cells c = some st.block := by
        rw [← heq, h.cell u hu huowns c' hc', hq, hstart, hbase]
        exact m.blockAt_start a st howned.storage
      have hoffset : q.offset = 0 := by
        rw [hstart]
        rfl
      rw [if_pos heq, if_pos hbase, hcell, hoffset]
      rfl
    · rw [if_neg heq, if_neg (hsame.not.mpr heq)]
  fresh c' hc' := by
    obtain ⟨k, hk, -⟩ := howned.control
    have hne : c' ≠ c := Nat.ne_of_gt (Nat.lt_of_lt_of_le (hm.refCounted.lt_next hk) hc')
    show Function.update s.cells c _ c' = none
    rw [Function.update_of_ne hne]
    exact h.fresh c' hc'
  host b := by
    show s.hosts b = _
    rw [h.host b]
    by_cases heq : b = a
    · subst heq
      have hold : m.Allocated b := ⟨st, howned.storage, howned.origin⟩
      have hnew : (m.provide b { st with block := st.block.overwrite offset bytes }).Allocated b :=
        (m.allocated_provide b b _).mpr ((if_pos rfl).mpr howned.origin)
      rw [Base.Memory.hostAt_of_allocated hold, Base.Memory.hostAt_of_allocated hnew]
    · rw [Base.Memory.hostAt, Base.Memory.hostAt, m.storage_provide, if_neg heq]
  refused_eq := h.refused_eq

end Storage

/-! ### What tensors read as -/

/-- A pointer into storage of the host stands for what is behind it. -/
theorem blockAt_ofHost (h : s.Reflects m held) {q : Base.Pointer} {st : Base.Storage}
    (hst : m.storage q.base = some st) (hhost : st.origin = .host) :
    s.blockAt (.host q) = m.blockAt (some q) := by
  rw [blockAt, h.host q.base, Base.Memory.hostAt_of_host hst hhost, m.blockAt_of_storage st q hst]
  rfl

/-- A tensor reads the same with and without its pointer. -/
theorem view_toRef (h : s.Reflects m held) (hm : Holds m held) {t : SharedTensor} (ht : t ∈ held)
    (hlent : t.ownsData = false → t.Borrows m) : s.view t.toRef = t.view m := by
  have hblock : s.blockAt t.ref = m.blockAt t.buffer.ptr := by
    unfold SharedTensor.ref
    cases howns : t.ownsData with
    | true =>
      rw [if_pos rfl]
      cases hc : t.buffer.control with
      | none =>
        rw [hm.refCounted.emptyPtr t.buffer (List.mem_map_of_mem ht) hc]
        rfl
      | some c => exact h.cell t ht howns c hc
    | false =>
      rw [if_neg Bool.false_ne_true]
      cases hptr : t.buffer.ptr with
      | none => rfl
      | some q =>
        obtain ⟨st, hst, hhost, -⟩ := (hlent howns).lent q hptr
        exact h.blockAt_ofHost hst hhost
  rw [view, SharedTensor.view, SharedTensor.toRef, hblock]

/-! ### New objects -/

/-- New cells leave the old ones as they were. -/
theorem cellsSince_of_some (h : s.Reflects m held) {c : Nat} {b : Base.Block}
    (hc : s.cells c = some b) : s.cellsSince m m' c = some b := by
  rw [cellsSince, if_pos]
  · exact hc
  · apply Nat.lt_of_not_le
    intro hle
    rw [h.fresh c hle] at hc
    cases hc

/-- An object with control blocks and storage of its own is a new one. -/
theorem new {v : Object} (h : s.Reflects m held) (hm : Holds m held)
    (hm' : Holds m' (v.tensors ++ held)) (hgrows : m.Grows m') (hlog : m'.refused = m.refused)
    (howns : ∀ t ∈ v.tensors, t.ownsData = true)
    (hnew : ∀ t ∈ v.tensors, ∀ c, t.buffer.control = some c → m.nextControl ≤ c)
    (hdistinct : v.tensors.Pairwise fun t u ↦
      t.buffer.control = u.buffer.control → t.buffer.control = none) :
    s.New (v.map SharedTensor.toRef) (v.view m') (s.cellsSince m m') where
  kept _ _ hc := h.cellsSince_of_some hc
  fresh t ht := by
    rw [ObjectOf.tensors_map] at ht
    obtain ⟨u, hu, rfl⟩ := List.mem_map.mp ht
    show u.ref = .null ∨ ∃ id, u.ref = .cell id ∧ s.cells id = none
    rw [SharedTensor.ref_of_owns (howns u hu)]
    cases hc : u.buffer.control with
    | none => exact Or.inl rfl
    | some c => exact Or.inr ⟨c, rfl, h.fresh c (hnew u hu c hc)⟩
  distinct := by
    rw [ObjectOf.tensors_map, List.pairwise_map]
    apply hdistinct.imp_of_mem
    intro t u ht hu hcontrols heq
    show t.ref = .null
    change t.ref = u.ref at heq
    rw [SharedTensor.ref_of_owns (howns t ht)] at heq ⊢
    rw [SharedTensor.ref_of_owns (howns u hu)] at heq
    cases hc : t.buffer.control with
    | none => rfl
    | some c =>
      rw [hc] at heq hcontrols
      cases hc' : u.buffer.control with
      | none =>
        rw [hc'] at heq
        cases heq
      | some c' =>
        rw [hc'] at heq hcontrols
        cases heq
        cases hcontrols rfl
  view_eq := by
    rw [ObjectOf.view_map]
    apply ObjectOf.view_congr
    intro t ht
    apply (h.grows hm hm' hgrows hlog hnew).view_toRef hm' (List.mem_append_left held ht)
    intro hborrows
    rw [howns t ht] at hborrows
    cases hborrows

end Reflects

end Ideal

namespace Program

/-- The program has the same objects in scope as one without lifetimes, and they hold the same
bytes. -/
structure Refines (p : Program) (s : Ideal) : Prop where
  sound : p.Sound
  lent : p.Lent
  reflects : s.Reflects p.memory p.held
  scope : ∀ x, s.scope x = (p.scope.lookup x).map (ObjectOf.map SharedTensor.toRef)

variable {p p' : Program} {s : Ideal} {x : String} {v : Object}

namespace Refines

private theorem start : Refines {} {} where
  sound := sound_start
  lent := lent_start
  reflects := by
    refine ⟨fun t ht ↦ ?_, fun _ _ ↦ rfl, fun _ ↦ rfl, rfl⟩
    cases ht
  scope _ := rfl

private theorem view_toRef (h : p.Refines s) {t : SharedTensor} (ht : t ∈ p.held) :
    s.view t.toRef = t.view p.memory :=
  h.reflects.view_toRef h.sound ht (h.lent t ht)

/-- Variables read the same. -/
theorem view_eq (h : p.Refines s) (x : String) :
    (s.scope x).map (ObjectOf.view s.view) =
      (p.scope.lookup x).map (Object.view p.memory) := by
  rw [h.scope x]
  cases hx : p.scope.lookup x with
  | none => rfl
  | some v =>
    apply congrArg some
    rw [ObjectOf.view_map]
    apply ObjectOf.view_congr
    intro t ht
    exact h.view_toRef (subset_heldIn hx ht)

private theorem find_eq (h : p.Refines s) (x : String) (i : Member) :
    s.find x i = (p.find x i).map SharedTensor.toRef := by
  rw [Ideal.find, h.scope x, find]
  cases p.scope.lookup x with
  | none => rfl
  | some v => exact v.find_map SharedTensor.toRef i

/-- A variable is bound anew, in whichever scope. -/
theorem rebind {scope : NameMap Object} {s₁ : Ideal}
    (hscope : ∀ x, s₁.scope x = (scope.lookup x).map (ObjectOf.map SharedTensor.toRef)) (x : String)
    (v : Object) (y : String) : (s₁.assign x (some (v.map SharedTensor.toRef))).scope y =
      ((scope.insert x v).lookup y).map (ObjectOf.map SharedTensor.toRef) := by
  show Function.update s₁.scope x _ y = _
  rw [Function.update_apply]
  by_cases heq : y = x
  · rw [if_pos heq, heq, AList.lookup_insert]
    rfl
  · rw [if_neg heq, AList.lookup_insert_ne heq]
    exact hscope y

/-- A variable is bound in both programs. -/
theorem assign {m' : Base.Memory} {scope : NameMap Object} {y : String} {s₁ : Ideal}
    (hholds : Holds m' (v.tensors ++ heldIn scope))
    (hassign : Program.assign scope y v m' = .ok p') (hlent : p'.Lent)
    (hreflects : s₁.Reflects m' (v.tensors ++ heldIn scope))
    (hscope : ∀ x, s₁.scope x = (scope.lookup x).map (ObjectOf.map SharedTensor.toRef)) :
    p'.Refines (s₁.assign y (some (v.map SharedTensor.toRef))) := by
  obtain ⟨p'', hassign', hsound, hbound, hshrinks⟩ := assign_spec hholds y
  rw [hassign] at hassign'
  cases hassign'
  refine ⟨hsound, hlent, ?_, fun x ↦ ?_⟩
  · have hsub : p'.held ⊆ v.tensors ++ heldIn scope := by
      rw [held, hbound, heldIn_insert]
      exact List.append_subset.mpr ⟨List.subset_append_left _ _,
        fun t ht ↦ List.mem_append_right _ (heldIn_erase_subset ht)⟩
    exact (hreflects.shrinks hholds hsound hsub hshrinks).assign y _
  · rw [hbound]
    exact rebind hscope y v x

/-! ### One step -/

/-- A call makes the cells of an object, or returns an error. -/
theorem receive (h : p.Refines s) {Refusal : Base.Memory → Nat → Stop → Prop}
    {call : Base.Call Stop Object} {answer : Except Stop (Tensor ⊕ Graph)}
    (hmakes : Makes Refusal call answer) (hlent : p'.Lent)
    (hstep : p.receive x call = .ok p') :
    ∃ s', s.Receives Refusal answer x s' ∧ p'.Refines s' := by
  have hsound : Holds p.memory p.held := h.sound
  have hreceived := h.sound.received hmakes
  rw [Program.receive] at hstep
  generalize call.execute p.memory = r at hreceived hstep
  cases hreceived with
  | @error stop m' hfails hsound' hstorage hgrows =>
    cases hstep
    have hreflects {log : List Nat} (hlog : m'.refused = log) :
        Ideal.Reflects { s with refused := log } m' p.held :=
      h.reflects.same_storage (fun _ ht _ _ ↦ ht) hstorage hgrows.next_le hlog
    cases hfails with
    | error hanswer hlog =>
      exact ⟨s, .error hanswer, hsound', hlent,
        hreflects (hlog.trans h.reflects.refused_eq.symm), h.scope⟩
    | refused m₁ n _ hrefusal hlog =>
      rw [← h.reflects.refused_eq] at hlog
      exact ⟨_, .refused hrefusal, hsound', hlent, hreflects hlog, h.scope⟩
  | @ok v m' hanswer hjoined hholds howns =>
    have hnew (t : SharedTensor) (ht : t ∈ v.tensors) (c : Nat) (hc : t.buffer.control = some c) :
        p.memory.nextControl ≤ c :=
      hjoined.next_le hsound.refCounted (List.mem_map_of_mem ht) hc
    have hobject := h.reflects.new hsound hholds hjoined.grows hjoined.refused_eq howns hnew
      (List.pairwise_map.mp hjoined.distinct_controls)
    have hreflects := h.reflects.grows hsound hholds hjoined.grows hjoined.refused_eq hnew
    exact ⟨_, .ok hanswer ⟨_, _, hobject, rfl⟩, assign hholds hstep hlent hreflects h.scope⟩

/-- `FromHostBlob` refers to what the host lends. -/
theorem fromHostBlob (h : p.Refines s) {dt : DataType} {shape : TensorShape}
    {data : Option Base.Pointer} {bytes : UInt64}
    (hhonours : p.Honours (.fromHostBlob x dt shape data bytes)) (hlent : p'.Lent)
    (hstep : p.step (.fromHostBlob x dt shape data bytes) = .ok p') :
    ∃ s', s.Step (.fromHostBlob x dt shape data bytes) s' ∧ p'.Refines s' := by
  have hlive (q : Base.Pointer) (hq : data = some q) : p.memory.storage q.base ≠ none := by
    obtain ⟨st, hst, -⟩ := hhonours q hq
    rw [hst]
    exact Option.some_ne_none st
  have hvalue := SharedTensor.fromHostBlob_view p.memory dt shape data bytes hlive
  have hblock : s.blockAt (.ofHost data) = p.memory.blockAt data := by
    cases data with
    | none => rfl
    | some q =>
      obtain ⟨st, hst, hhost, -⟩ := hhonours q rfl
      exact h.reflects.blockAt_ofHost hst hhost
  rw [step] at hstep
  cases hblob : SharedTensor.fromHostBlob p.memory dt shape data bytes with
  | error st =>
    rw [hblob] at hstep hvalue
    cases hstep
    refine ⟨s, ?_, h⟩
    rw [Ideal.Step, hblock, ← hvalue]
    rfl
  | ok result =>
    obtain ⟨t, m'⟩ := result
    rw [hblob] at hstep hvalue
    obtain ⟨hholds, hstorage⟩ := Holds.fromHostBlob h.sound hblob
    obtain ⟨hborrows, -, -, hbuffer, rfl⟩ := SharedTensor.fromHostBlob_spec hblob
    have href : t.toRef = .ofValue (t.view (p.memory.share data .noop).2) (.ofHost data) := by
      rw [SharedTensor.toRef, SharedTensor.ref_of_borrows hborrows, hbuffer]
      rfl
    have hreflects : s.Reflects (p.memory.share data .noop).2 ([t] ++ p.held) := by
      apply h.reflects.same_storage _ hstorage (Nat.le_succ _) h.reflects.refused_eq.symm
      intro u hu howns _
      rcases List.mem_append.mp hu with hnew | hold
      · obtain rfl := List.mem_singleton.mp hnew
        rw [hborrows] at howns
        cases howns
      · exact hold
    refine ⟨_, ?_, assign (v := .tensor t) hholds hstep hlent hreflects h.scope⟩
    rw [Ideal.Step, hblock, ← hvalue]
    show s.assign x (some (.tensor t.toRef)) = _
    rw [href]

/-- Preparing a graph reads it and touches no tensor. -/
theorem prepare (h : p.Refines s) (hlent : p'.Lent) (hsound : p'.Sound)
    (hstep : p.step (.prepare x) = .ok p') : ∃ s', s.Step (.prepare x) s' ∧ p'.Refines s' := by
  have hscope := h.scope x
  rw [step] at hstep
  cases hx : p.scope.lookup x with
  | none =>
    rw [hx] at hstep hscope
    cases hstep
    refine ⟨s, ?_, h⟩
    rw [Ideal.Step, hscope]
    rfl
  | some v =>
    rw [hx] at hstep hscope
    cases v with
    | tensor t =>
      cases hstep
      refine ⟨s, ?_, h⟩
      rw [Ideal.Step, hscope]
      rfl
    | graph g =>
      cases hstep
      have hprepared : ((g.map SharedTensor.toRef).prepare s.view).2 =
          (SharedGraph.prepare p.memory g).2.map SharedTensor.toRef := by
        rw [GraphOf.prepare_map]
        have hcongr := g.prepare_congr (f := s.view ∘ SharedTensor.toRef) fun t ht ↦
          h.view_toRef (subset_heldIn hx ht)
        rw [hcongr]
        rfl
      refine ⟨s.assign x (some (.graph ((g.map SharedTensor.toRef).prepare s.view).2)), ?_, hsound,
        hlent, ?_, fun y ↦ ?_⟩
      · rw [Ideal.Step, hscope]
        rfl
      · have hheld (t : SharedTensor) (ht : t ∈ heldIn (p.scope.insert x
            (.graph (SharedGraph.prepare p.memory g).2))) : t ∈ p.held := by
          rw [held, (heldIn_perm hx).mem_iff]
          exact ht
        apply Ideal.Reflects.assign
        exact h.reflects.same_storage (fun t ht _ _ ↦ hheld t ht) rfl (Nat.le_refl _)
          h.reflects.refused_eq.symm
      · rw [hprepared]
        exact rebind h.scope x (.graph _) y

/-- Copies of tensors in use share their cells. -/
theorem copies (h : p.Refines s) {y : String} {m' : Base.Memory} (hv : v.tensors ⊆ p.held)
    (hacquire : p.memory.acquireAll v.buffers = .ok m')
    (hassign : Program.assign p.scope y v m' = .ok p') (hlent : p'.Lent) :
    p'.Refines (s.assign y (some (v.map SharedTensor.toRef))) := by
  obtain ⟨m'', hacquire', hholds, hshrinks, hstorage⟩ := Holds.acquireAll h.sound hv
  rw [← Object.buffers, hacquire] at hacquire'
  cases hacquire'
  apply assign hholds hassign hlent _ h.scope
  apply h.reflects.same_storage _ hstorage (Nat.le_of_eq hshrinks.next_eq.symm)
    (hshrinks.refused_eq.trans h.reflects.refused_eq.symm)
  intro t ht _ _
  exact (List.mem_append.mp ht).elim (@hv t) id

/-- An object is moved, and what is left of it refers to nothing. -/
theorem move (h : p.Refines s) {y : String} (hx : p.scope.lookup x = some v)
    (hassign : Program.assign (p.scope.insert x (v.movedFrom SharedTensor.movedFrom)) y v p.memory =
      .ok p') (hlent : p'.Lent) :
    p'.Refines ((s.assign x (some ((v.movedFrom SharedTensor.movedFrom).map
      SharedTensor.toRef))).assign y (some (v.map SharedTensor.toRef))) := by
  apply assign (h.sound.holds_move hx) hassign hlent _ (rebind h.scope x _)
  apply Ideal.Reflects.assign
  apply h.reflects.same_storage _ rfl (Nat.le_refl _) h.reflects.refused_eq.symm
  intro t ht _ hcontrol
  rw [heldIn_insert] at ht
  rcases List.mem_append.mp ht with hmoving | ht
  · exact subset_heldIn hx hmoving
  rcases List.mem_append.mp ht with hmoved | hold
  · rw [(movedFrom_of_mem hmoved).buffer_eq] at hcontrol
    exact absurd rfl hcontrol
  · exact heldIn_erase_subset hold

/-- A variable is unbound. -/
theorem unbind (h : p.Refines s) (x : String) (y : String) :
    (s.assign x none).scope y =
      ((p.scope.erase x).lookup y).map (ObjectOf.map SharedTensor.toRef) := by
  show Function.update s.scope x none y = _
  rw [Function.update_apply]
  by_cases heq : y = x
  · rw [if_pos heq, heq, AList.lookup_erase]
    rfl
  · rw [if_neg heq, AList.lookup_erase_ne heq]
    exact h.scope y

/-- An object goes out of scope. -/
theorem drop (h : p.Refines s) (hlent : p'.Lent) (hstep : p.step (.drop x) = .ok p') :
    p'.Refines (s.assign x none) := by
  have hunbound := h.unbind x
  rw [step] at hstep
  cases hx : p.scope.lookup x with
  | none =>
    rw [hx] at hstep
    rw [NameMap.erase_of_lookup_none hx] at hunbound
    cases hstep
    exact ⟨h.sound, hlent, h.reflects.assign x none, hunbound⟩
  | some v =>
    obtain ⟨m', hrelease, hholds, hshrinks⟩ := (Holds.perm h.sound (heldIn_perm hx)).releaseAll
    rw [hx] at hstep
    simp only [Object.buffers, hrelease] at hstep
    cases hstep
    have hreflects := h.reflects.shrinks h.sound hholds heldIn_erase_subset hshrinks
    exact ⟨hholds, hlent, hreflects.assign x none, hunbound⟩

/-- A write goes to the cell or to the storage of the host. -/
theorem write (h : p.Refines s) {i : Member} {offset : Nat} {bytes : List UInt8} (hlent : p'.Lent)
    (hsound : p'.Sound) (hstep : p.step (.write x i offset bytes) = .ok p') :
    ∃ s', s.Step (.write x i offset bytes) s' ∧ p'.Refines s' := by
  have hfind := h.find_eq x i
  have hbounds := inBounds_of_step hstep
  rw [step] at hstep
  cases hx : p.find x i with
  | none =>
    rw [hx] at hstep hfind
    cases hstep
    refine ⟨s, ?_, h⟩
    rw [Ideal.Step, hfind]
    rfl
  | some t =>
    rw [hx] at hfind
    obtain ⟨q, st, hptr, hst, hfits⟩ := hbounds t hx
    have ht : t ∈ p.held := mem_held_of_find hx
    have hview : s.blockAt t.ref = some (st.block.drop q.offset) := by
      refine (congrArg Tensor.buffer (h.view_toRef ht)).trans ?_
      show p.memory.blockAt t.buffer.ptr = _
      rw [hptr]
      exact p.memory.blockAt_of_storage st q hst
    have hfits' : offset + bytes.length ≤ (st.block.drop q.offset).size := by
      rw [Base.Block.size_drop]
      omega
    have hstore : p.memory.store t.buffer.ptr offset bytes = .ok (p.memory.provide q.base
        { st with block := st.block.overwrite (q.offset + offset) bytes }) := by
      rw [hptr]
      exact Base.Memory.store_of_fits hst hfits
    rw [hx] at hstep
    simp only [hstore] at hstep
    cases hstep
    refine ⟨s.overwrite offset bytes t.ref, ?_, ?_⟩
    · rw [Ideal.Step, hfind]
      exact ⟨⟨_, hview, hfits'⟩, rfl⟩
    · refine ⟨hsound, hlent, ?_, fun y ↦ ?_⟩
      · cases howns : t.ownsData with
        | true =>
          obtain ⟨hstart, c, st', howned⟩ := Holds.owns_ptr h.sound ht howns hptr
          have hst' := howned.storage
          rw [hst] at hst'
          cases hst'
          have hoffset : q.offset + offset = offset := by
            rw [hstart, Base.Pointer.start, Nat.zero_add]
          rw [SharedTensor.ref_of_owns howns, howned.buffer, hoffset]
          exact h.reflects.overwriteCell h.sound ht howns howned offset bytes
        | false =>
          obtain ⟨st', hst', hhost, -⟩ := (h.lent t ht howns).lent q hptr
          rw [hst] at hst'
          cases hst'
          rw [SharedTensor.ref_of_borrows howns, hptr]
          exact h.reflects.overwriteHost h.sound hst hhost offset bytes
      · rw [Ideal.scope_overwrite]
        exact h.scope y

/-- Step lemma: while the host keeps to its contract, a step is one of a program without
lifetimes. -/
theorem step_refines {action : Action} (h : p.Refines s) (hdoes : Does Honours p action p') :
    ∃ s', s.Step action s' ∧ p'.Refines s' := by
  obtain ⟨hallowed, hhonours, hstep⟩ := hdoes
  have houtcome := h.sound.outcome hallowed hstep
  have hsound : p'.Sound := houtcome.sound
  have hlent : p'.Lent := h.lent.step hhonours houtcome
  cases action with
  | hostBegin a block =>
    cases hstep
    have hnone : p.memory.storage a = none := hallowed
    have hfree : s.hosts a = none := (h.reflects.host a).trans (Base.Memory.hostAt_of_none hnone)
    refine ⟨_, ⟨hfree, rfl⟩, hsound, hlent, ?_, h.scope⟩
    apply h.reflects.provideHost h.sound _ block
    intro st hst
    rw [hnone] at hst
    cases hst
  | hostWrite a offset bytes =>
    obtain ⟨st, hst, hhost, hfits⟩ := hallowed
    have hfits' : (Base.Pointer.start a).offset + offset + bytes.length ≤ st.block.size := by
      rw [Base.Pointer.start, Nat.zero_add]
      exact hfits
    have hstore := Base.Memory.store_of_fits (q := .start a) hst hfits'
    rw [step, hstore] at hstep
    cases hstep
    have hblock : s.blockAt (.host (.start a)) = some st.block :=
      (h.reflects.blockAt_ofHost hst hhost).trans (p.memory.blockAt_start a st hst)
    exact ⟨_, ⟨⟨st.block, hblock, hfits⟩, rfl⟩, hsound, hlent,
      h.reflects.overwriteHost (q := .start a) h.sound hst hhost offset bytes, h.scope⟩
  | hostEnd a =>
    obtain ⟨st, hst, hhost⟩ := hallowed
    cases hstep
    have hsome : s.hosts a ≠ none := by
      rw [h.reflects.host a, Base.Memory.hostAt_of_host hst hhost]
      exact Option.some_ne_none _
    refine ⟨_, ⟨hsome, rfl⟩, hsound, hlent, ?_, h.scope⟩
    apply h.reflects.withdrawHost h.sound
    intro st' hst'
    rw [hst] at hst'
    cases hst'
    exact hhost
  | create x alloc dt shape device =>
    exact h.receive (makes_create hallowed dt shape device) hlent hstep
  | fromHostBlob x dt shape data bytes => exact h.fromHostBlob hhonours hlent hstep
  | load x alloc source => exact h.receive (makes_load hallowed source) hlent hstep
  | build x g =>
    have hresolve : (g.resolve fun r ↦ s.find r.1 r.2) =
        (g.resolve fun r ↦ p.find r.1 r.2).map (GraphOf.map SharedTensor.toRef) := by
      simp only [h.find_eq]
      exact GraphOf.resolve_map SharedTensor.toRef _ g
    rw [step] at hstep
    cases hg : g.resolve fun r ↦ p.find r.1 r.2 with
    | none =>
      rw [hg] at hstep hresolve
      cases hstep
      refine ⟨s, ?_, h⟩
      rw [Ideal.Step, hresolve]
      rfl
    | some g' =>
      rw [hg] at hstep hresolve
      obtain ⟨m', hacquire, hassign⟩ := Base.bind_eq_ok.mp hstep
      refine ⟨s.assign x (some (.graph (g'.map SharedTensor.toRef))), ?_,
        h.copies (v := .graph g') (subset_of_resolve hg) hacquire hassign hlent⟩
      rw [Ideal.Step, hresolve]
      rfl
  | prepare x => exact h.prepare hlent hsound hstep
  | copy x y =>
    have hscope := h.scope x
    rw [step] at hstep
    cases hx : p.scope.lookup x with
    | none =>
      rw [hx] at hstep hscope
      cases hstep
      refine ⟨s, ?_, h⟩
      rw [Ideal.Step, hscope]
      rfl
    | some v =>
      rw [hx] at hstep hscope
      obtain ⟨m', hacquire, hassign⟩ := Base.bind_eq_ok.mp hstep
      refine ⟨s.assign y (some (v.map SharedTensor.toRef)), ?_,
        h.copies (subset_heldIn hx) hacquire hassign hlent⟩
      rw [Ideal.Step, hscope]
      rfl
  | copyMember x i y =>
    have hfind := h.find_eq x i
    rw [step] at hstep
    cases hx : p.find x i with
    | none =>
      rw [hx] at hstep hfind
      cases hstep
      refine ⟨s, ?_, h⟩
      rw [Ideal.Step, hfind]
      rfl
    | some t =>
      rw [hx] at hstep hfind
      obtain ⟨m', hacquire, hassign⟩ := Base.bind_eq_ok.mp hstep
      have hmem : [t] ⊆ p.held := List.cons_subset.mpr ⟨mem_held_of_find hx, List.nil_subset _⟩
      have hacquire' : p.memory.acquireAll (Object.buffers (.tensor t)) = .ok m' := by
        rw [← hacquire]
        exact bind_pure _
      refine ⟨s.assign y (some (.tensor t.toRef)), ?_,
        h.copies (v := .tensor t) hmem hacquire' hassign hlent⟩
      rw [Ideal.Step, hfind]
      rfl
  | move x y =>
    have hscope := h.scope x
    rw [step] at hstep
    cases hx : p.scope.lookup x with
    | none =>
      rw [hx] at hstep hscope
      cases hstep
      refine ⟨s, ?_, h⟩
      rw [Ideal.Step, hscope]
      rfl
    | some v =>
      rw [hx] at hstep hscope
      refine ⟨_, ?_, h.move hx hstep hlent⟩
      rw [Ideal.Step, hscope, Object.map_movedFrom]
      rfl
  | drop x => exact ⟨s.assign x none, rfl, h.drop hlent hstep⟩
  | write x i offset bytes => exact h.write hlent hsound hstep

/-- No tensor points behind the storage that it points into. -/
theorem offset_le (h : p.Refines s) {t : SharedTensor} (ht : t ∈ p.held) {q : Base.Pointer}
    (hptr : t.buffer.ptr = some q) {st : Base.Storage} (hst : p.memory.storage q.base = some st) :
    q.offset ≤ st.block.size := by
  cases howns : t.ownsData with
  | true =>
    obtain ⟨hstart, -⟩ := Holds.owns_ptr h.sound ht howns hptr
    rw [hstart]
    exact Nat.zero_le _
  | false =>
    obtain ⟨st', hst', -, hsize⟩ := (h.lent t ht howns).lent q hptr
    rw [hst] at hst'
    cases hst'
    omega

/-- A step succeeds if and only if it does without lifetimes. -/
theorem step_iff {action : Action} (h : p.Refines s) (hallowed : p.Allowed action)
    (hhonours : p.Honours action) :
    (∃ p', p.step action = .ok p') ↔ ∃ s', s.Step action s' := by
  constructor
  · rintro ⟨p', hstep⟩
    obtain ⟨s', hs', -⟩ := h.step_refines ⟨hallowed, hhonours, hstep⟩
    exact ⟨s', hs'⟩
  · rintro ⟨s', hs'⟩
    have hbounds : p.InBounds action := by
      cases action with
      | write x i offset bytes =>
        intro t hx
        have hfind := h.find_eq x i
        rw [hx] at hfind
        rw [Ideal.Step, hfind] at hs'
        obtain ⟨⟨b, hb, hfits⟩, -⟩ := hs'
        have hblock : p.memory.blockAt t.buffer.ptr = some b :=
          (congrArg Tensor.buffer (h.view_toRef (mem_held_of_find hx))).symm.trans hb
        obtain ⟨q, hptr, hblock⟩ := Option.bind_eq_some_iff.mp hblock
        obtain ⟨st, hst, rfl⟩ := Option.map_eq_some_iff.mp hblock
        have hinside := h.offset_le (mem_held_of_find hx) hptr hst
        rw [Base.Block.size_drop] at hfits
        exact ⟨q, st, hptr, hst, by omega⟩
      | _ => trivial
    obtain ⟨p', hstep, -⟩ := h.sound.step_spec hallowed hbounds
    exact ⟨p', hstep⟩

end Refines

private theorem simulates : Base.Simulates (Does Honours) Ideal.Step Refines :=
  fun _ _ _ _ h hdoes ↦ h.step_refines hdoes

/-- If the host keeps to its contract, a program that counts the owners of its buffers, frees them
and uses their addresses again does what it does without lifetimes: the same actions lead to a
state where all variables read the same, and the same actions can follow. -/
theorem reached_refines {actions : List Action} (run : Leads Honours {} actions p) :
    ∃ s, Base.Trace Ideal.Step {} actions s ∧
      (∀ x, (s.scope x).map (ObjectOf.view s.view) =
        (p.scope.lookup x).map (Object.view p.memory)) ∧
      s.refused = p.memory.refused ∧
      ∀ action, p.Allowed action → p.Honours action →
        ((∃ p', p.step action = .ok p') ↔ ∃ s', s.Step action s') := by
  obtain ⟨s, hrun, hrefines⟩ := simulates.run Refines.start run
  exact ⟨s, hrun, hrefines.view_eq, hrefines.reflects.refused_eq, fun _ ↦ hrefines.step_iff⟩

/-- `y` gets the address that `x` had, but a cell of its own; then there is no room for `z`. -/
theorem reached_refines_reused : ∃ (p : Program) (s : Ideal),
    Base.Trace Ideal.Step {} [.create "x" .oneSlot .kFloat32 ⟨[2]⟩ .kCPU, .drop "x",
      .create "y" .oneSlot .kFloat32 ⟨[2]⟩ .kCPU, .create "z" .oneSlot .kInt64 ⟨[]⟩ .kCPU] s ∧
      (p.find "y" .itself).map (fun t ↦ t.buffer) = some ⟨some 1, some (.start 0)⟩ ∧
        (s.scope "y").map (ObjectOf.view s.view) =
          (p.scope.lookup "y").map (Object.view p.memory) ∧ s.refused = [8] := by
  obtain ⟨p₁, p₂, p₃, p₄, hcreate, hdrop, hcreate', hfull, hbuffer, hlog⟩ : ∃ p₁ p₂ p₃ p₄,
      step {} (.create "x" .oneSlot .kFloat32 ⟨[2]⟩ .kCPU) = .ok p₁ ∧
        p₁.step (.drop "x") = .ok p₂ ∧
          p₂.step (.create "y" .oneSlot .kFloat32 ⟨[2]⟩ .kCPU) = .ok p₃ ∧
            p₃.step (.create "z" .oneSlot .kInt64 ⟨[]⟩ .kCPU) = .ok p₄ ∧
              (p₄.find "y" .itself).map (fun t ↦ t.buffer) = some ⟨some 1, some (.start 0)⟩ ∧
                p₄.memory.refused = [8] :=
    ⟨_, _, _, _, rfl, rfl, rfl, rfl, rfl, rfl⟩
  have hallowed (q : Program) (x : String) (dt : DataType) (shape : TensorShape) :
      q.Allowed (.create x .oneSlot dt shape .kCPU) := HostAllocator.fresh_oneSlot
  have hallowed' : p₁.Allowed (.drop "x") := trivial
  have hrun : Leads Honours {} ([] ++ [.create "x" .oneSlot .kFloat32 ⟨[2]⟩ .kCPU] ++
      [.drop "x"] ++ [.create "y" .oneSlot .kFloat32 ⟨[2]⟩ .kCPU] ++
      [.create "z" .oneSlot .kInt64 ⟨[]⟩ .kCPU]) p₄ :=
    .next (.next (.next (.next .start ⟨hallowed _ _ _ _, trivial, hcreate⟩)
      ⟨hallowed', trivial, hdrop⟩) ⟨hallowed _ _ _ _, trivial, hcreate'⟩)
      ⟨hallowed _ _ _ _, trivial, hfull⟩
  obtain ⟨s, hideal, hview, hrefused, -⟩ := reached_refines hrun
  exact ⟨p₄, s, hideal, hbuffer, hview "y", hrefused.trans hlog⟩

end Program
end Eduort
