import Eduort.Base.Growth
import Mathlib.Data.List.Nodup

/-!
# Calls that own storage

A call runs in a memory that others use too. What it returns owns storage of its own; if it
returns an error, its local variables have let go of theirs. The rules here compare a call with a
computation on values: the call ends like the computation or with a request that has been refused,
the result reads as the value, and nothing else has happened to the memory.
-/

namespace Eduort.Base

/-- A routine on a memory: it returns a value or an error, unless it goes wrong. -/
abbrev Call (ε α : Type) := ExceptT ε (StateT Memory (Except HeapFault)) α

namespace Call

variable {ε α β : Type}

/-- What a call returns and the memory it leaves. -/
def execute (x : Call ε α) (m : Memory) : Except HeapFault (Except ε α × Memory) :=
  StateT.run (ExceptT.run x) m

/-- A routine that returns no error. -/
def onMemory (f : Memory → Except HeapFault Memory) : Call ε PUnit :=
  ExceptT.mk fun m ↦ do
    let m ← f m
    return (.ok ⟨⟩, m)

/-- A routine that always returns. -/
def modifyGet (f : Memory → α × Memory) : Call ε α :=
  ExceptT.mk fun m ↦
    let (a, m) := f m
    .ok (.ok a, m)

/-- A computation on values. -/
def ofExcept (x : Except ε α) : Call ε α := ExceptT.mk fun m ↦ .ok (x, m)

/-- While local variables are in scope: they let go if an error is returned. -/
def holding (locals : List SharedPtr) (x : Call ε α) : Call ε α :=
  ExceptT.mk fun m ↦ do
    let (result, m) ← x.execute m
    match result with
    | .ok a => return (.ok a, m)
    | .error e =>
      let m ← m.releaseAll locals
      return (.error e, m)

/-- An error that is returned while local variables are in scope. -/
def exit (locals : List SharedPtr) (e : ε) : Call ε α := holding locals (ofExcept (.error e))

/-- The memory of a sequence goes from one part to the next. -/
theorem execute_bind (x : Call ε α) (f : α → Call ε β) (m : Memory) :
    (x >>= f).execute m =
      match x.execute m with
      | .error fault => .error fault
      | .ok (.error e, m') => .ok (.error e, m')
      | .ok (.ok a, m') => (f a).execute m' := by
  show (StateT.bind (ExceptT.run x) _ m : Except HeapFault _) = _
  unfold StateT.bind
  cases hx : x.execute m with
  | error fault =>
    have hrun : ExceptT.run x m = .error fault := hx
    rw [hrun]
    rfl
  | ok result =>
    have hrun : ExceptT.run x m = .ok result := hx
    rw [hrun]
    obtain ⟨result, m'⟩ := result
    cases result with
    | error e => rfl
    | ok a => rfl

theorem execute_map (f : α → β) (x : Call ε α) (m : Memory) :
    (f <$> x).execute m =
      match x.execute m with
      | .error fault => .error fault
      | .ok (.error e, m') => .ok (.error e, m')
      | .ok (.ok a, m') => .ok (.ok (f a), m') := by
  rw [map_eq_pure_bind, execute_bind]
  rfl

theorem execute_modifyGet (f : Memory → α × Memory) (m : Memory) :
    (modifyGet f : Call ε α).execute m = .ok (.ok (f m).1, (f m).2) := rfl

theorem execute_ofExcept (x : Except ε α) (m : Memory) : (ofExcept x).execute m = .ok (x, m) := rfl

private theorem execute_holding (locals : List SharedPtr) (x : Call ε α) (m : Memory) :
    (holding locals x).execute m =
      match x.execute m with
      | .error fault => .error fault
      | .ok (.ok a, m') => .ok (.ok a, m')
      | .ok (.error e, m') => (m'.releaseAll locals).map fun m ↦ (.error e, m) := by
  show (x.execute m >>= _ : Except HeapFault _) = _
  cases x.execute m with
  | error fault => rfl
  | ok result =>
    obtain ⟨result, m'⟩ := result
    cases result with
    | ok a => rfl
    | error e =>
      show (m'.releaseAll locals >>= _ : Except HeapFault _) =
        (m'.releaseAll locals).map fun m ↦ (Except.error e, m)
      cases m'.releaseAll locals with
      | error fault => rfl
      | ok m'' => rfl

end Call

/-! ### Reading what is owned -/

/-- The addresses of the storage behind shared pointers. -/
def addresses (owners : List SharedPtr) : List Nat :=
  owners.filterMap fun p ↦ p.ptr.map Pointer.base

private theorem mem_addresses {owners : List SharedPtr} {p : SharedPtr} {q : Pointer}
    (hp : p ∈ owners) (hq : p.ptr = some q) : q.base ∈ addresses owners := by
  apply List.mem_filterMap.mpr
  refine ⟨p, hp, ?_⟩
  rw [hq]
  rfl

private theorem addresses_append (owners owners' : List SharedPtr) :
    addresses (owners ++ owners') = addresses owners ++ addresses owners' :=
  List.filterMap_append

/-- Values that own storage, and what they look like to a reader of the memory. -/
structure Reading (α β : Type) where
  owned : α → List SharedPtr
  view : Memory → α → β
  view_congr : ∀ m m' a, (∀ p ∈ owned a, m'.blockAt p.ptr = m.blockAt p.ptr) →
    view m' a = view m a

namespace Reading

variable {α β σ τ : Type}

/-- Two values side by side. -/
def pair (D : Reading α β) (D' : Reading σ τ) : Reading (α × σ) (β × τ) where
  owned x := D.owned x.1 ++ D'.owned x.2
  view m x := (D.view m x.1, D'.view m x.2)
  view_congr m m' x h := by
    rw [D.view_congr m m' x.1 fun p hp ↦ h p (List.mem_append_left _ hp),
      D'.view_congr m m' x.2 fun p hp ↦ h p (List.mem_append_right _ hp)]

/-- The pointer is empty, or the last of its group gives storage back. -/
def Owning (m : Memory) (p : SharedPtr) : Prop :=
  p = .empty ∨ ∃ c k, p.control = some c ∧ m.controls c = some k ∧ k.deleter = .free

/-- A pointer goes on owning its storage while the memory grows around it. -/
theorem Owning.of_grows {m m' : Memory} {p : SharedPtr} {owners owners' : List SharedPtr}
    (h : Owning m p) (hcounted : RefCounted m owners) (hgrows : m.Grows m')
    (hcounted' : RefCounted m' owners') (hp : p ∈ owners') : Owning m' p := by
  rcases h with hempty | ⟨c, k, hcontrol, hk, hfree⟩
  · exact Or.inl hempty
  · obtain ⟨k', hk', -⟩ := hcounted'.pointsTo p hp c hcontrol
    have hdeleter := (hcounted.keeps_of_grows hgrows).deleter c k k' hk hk'
    exact Or.inr ⟨c, k', hcontrol, hk', hdeleter.trans hfree⟩

/-- A value has joined the owners that there were in `m₀`, with storage of its own, and reads
as `b`. -/
structure Joined (D : Reading α β) (m₀ : Memory) (owners : List SharedPtr) (m : Memory) (a : α)
    (b : β) : Prop where
  refCounted : RefCounted m (D.owned a ++ owners)
  grows : m₀.Grows m
  owning : ∀ p ∈ D.owned a, Owning m p
  live : ∀ addr ∈ addresses (D.owned a), m.storage addr ≠ none
  fresh : ∀ addr ∈ addresses (D.owned a), m₀.storage addr = none
  distinct : (addresses (D.owned a)).Nodup
  refused_eq : m.refused = m₀.refused
  view_eq : D.view m a = b

namespace Joined

variable {D : Reading α β} {D' : Reading σ τ} {m₀ m m' : Memory} {owners : List SharedPtr}
  {a : α} {b : β} {s : σ} {t : τ}

/-- A value that owns nothing. -/
theorem start (hcounted : RefCounted m owners) (hnone : D.owned a = []) :
    D.Joined m owners m a (D.view m a) where
  refCounted := by rwa [hnone]
  grows := Memory.Grows.refl m
  owning p hp := by
    rw [hnone] at hp
    cases hp
  live addr haddr := by
    rw [hnone] at haddr
    cases haddr
  fresh addr haddr := by
    rw [hnone] at haddr
    cases haddr
  distinct := by
    rw [hnone]
    exact List.nodup_nil
  refused_eq := rfl
  view_eq := rfl

/-- A value with an empty pointer. -/
theorem empty (hcounted : RefCounted m owners) (howned : D.owned a = [.empty]) :
    D.Joined m owners m a (D.view m a) where
  refCounted := by
    rw [howned]
    exact hcounted.addEmpty
  grows := Memory.Grows.refl m
  owning p hp := by
    rw [howned] at hp
    exact Or.inl (List.mem_singleton.mp hp)
  live addr haddr := by
    rw [howned] at haddr
    cases haddr
  fresh addr haddr := by
    rw [howned] at haddr
    cases haddr
  distinct := by
    rw [howned]
    exact List.nodup_nil
  refused_eq := rfl
  view_eq := rfl

/-- A value that owns newly allocated storage. -/
theorem allocated (hcounted : RefCounted m owners) {addr : Nat} (block : Block)
    (hnone : m.storage addr = none)
    (hm' : m' = ((m.provide addr ⟨block, .allocated⟩).share (some (.start addr)) .free).2)
    (howned : D.owned a = [⟨some m.nextControl, some (.start addr)⟩]) (hview : D.view m' a = b) :
    D.Joined m owners m' a b := by
  subst hm'
  have haddr : addresses (D.owned a) = [addr] := by
    rw [howned]
    rfl
  constructor
  · rw [howned]
    exact hcounted.shareAllocated block hnone
  · exact Memory.grows_shareAllocated block hnone
  · intro p hp
    rw [howned] at hp
    obtain rfl := List.mem_singleton.mp hp
    refine Or.inr ⟨m.nextControl, ⟨1, some (.start addr), .free⟩, rfl, ?_, rfl⟩
    exact Function.update_self m.nextControl _ _
  · rw [haddr]
    intro addr' haddr'
    obtain rfl := List.mem_singleton.mp haddr'
    have hlive := m.storage_provide addr' addr' ⟨block, .allocated⟩
    rw [if_pos rfl] at hlive
    intro hended
    cases hlive.symm.trans hended
  · rw [haddr]
    intro addr' haddr'
    obtain rfl := List.mem_singleton.mp haddr'
    exact hnone
  · rw [haddr]
    exact List.nodup_singleton addr
  · rfl
  · exact hview

/-- The same storage under another type. -/
theorem map (h : D.Joined m₀ owners m a b) (hperm : (D'.owned s).Perm (D.owned a))
    (hview : D'.view m s = t) : D'.Joined m₀ owners m s t := by
  have haddr : (addresses (D'.owned s)).Perm (addresses (D.owned a)) := hperm.filterMap _
  constructor
  · exact h.refCounted.perm (hperm.symm.append_right owners)
  · exact h.grows
  · intro p hp
    exact h.owning p (hperm.mem_iff.mp hp)
  · intro addr haddr'
    exact h.live addr (haddr.mem_iff.mp haddr')
  · intro addr haddr'
    exact h.fresh addr (haddr.mem_iff.mp haddr')
  · exact haddr.nodup_iff.mpr h.distinct
  · exact h.refused_eq
  · exact hview

/-- What reads as a value goes on doing so while the memory grows. -/
theorem view_of_grows (h : D.Joined m₀ owners m a b) (hgrows : m.Grows m') :
    D.view m' a = b := by
  rw [← h.view_eq]
  apply D.view_congr
  intro p hp
  apply hgrows.blockAt_eq
  intro q hq
  exact h.live q.base (mem_addresses hp hq)

/-- A pointer of the value that is not empty, its control block and its storage. -/
theorem exists_control (h : D.Joined m₀ owners m a b) {p : SharedPtr} (hp : p ∈ D.owned a) {c : Nat}
    (hc : p.control = some c) : ∃ k addr, m.controls c = some k ∧ k.deleter = .free ∧
      k.ptr = some (.start addr) ∧ p.ptr = some (.start addr) := by
  rcases h.owning p hp with hempty | ⟨c', k, hc', hk, hfree⟩
  · rw [hempty] at hc
    cases hc
  · rw [hc] at hc'
    cases hc'
    obtain ⟨k', hk', hptr⟩ := h.refCounted.pointsTo p (List.mem_append_left owners hp) c hc
    rw [hk] at hk'
    cases hk'
    obtain ⟨addr, haddr, -⟩ := h.refCounted.owned c k hk hfree
    exact ⟨k, addr, hk, hfree, haddr, hptr.symm.trans haddr⟩

/-- A pointer of the value that is not null points to all of its storage. -/
theorem exists_storage (h : D.Joined m₀ owners m a b) {p : SharedPtr} (hp : p ∈ D.owned a)
    {q : Pointer} (hq : p.ptr = some q) :
    ∃ addr s, p.ptr = some (.start addr) ∧ m.storage addr = some s := by
  rcases h.owning p hp with hempty | ⟨c, k, hc, -, -⟩
  · rw [hempty] at hq
    cases hq
  · obtain ⟨-, addr, -, -, -, hptr⟩ := h.exists_control hp hc
    obtain ⟨s, hs⟩ := Option.ne_none_iff_exists'.mp (h.live addr (mem_addresses hp hptr))
    exact ⟨addr, s, hptr, hs⟩

/-- The control blocks are new, like the storage. -/
theorem next_le (h : D.Joined m₀ owners m a b) (h₀ : RefCounted m₀ owners) {p : SharedPtr}
    (hp : p ∈ D.owned a) {c : Nat} (hc : p.control = some c) : m₀.nextControl ≤ c := by
  apply Nat.le_of_not_lt
  intro hlt
  obtain ⟨k, addr, hk, hfree, hptr, haddr⟩ := h.exists_control hp hc
  obtain ⟨k₀, hk₀, hptr₀, hfree₀⟩ := h.grows.controls c k hlt hk
  obtain ⟨addr₀, haddr₀, st, hst, -⟩ := h₀.owned c k₀ hk₀ (hfree₀.trans hfree)
  rw [hptr₀, hptr] at haddr₀
  cases haddr₀
  rw [h.fresh addr (mem_addresses hp haddr)] at hst
  cases hst

/-- No two pointers of what has joined share a control block. -/
theorem distinct_controls (h : D.Joined m₀ owners m a b) :
    (D.owned a).Pairwise fun p q ↦ p.control = q.control → p.control = none := by
  have hdistinct := List.pairwise_filterMap.mp h.distinct
  apply hdistinct.imp_of_mem
  intro p q hp hq hne heq
  cases hc : p.control with
  | none => rfl
  | some c =>
    obtain ⟨k, addr, hk, -, hptr, haddr⟩ := h.exists_control hp hc
    obtain ⟨k', addr', hk', -, hptr', haddr'⟩ := h.exists_control hq (heq.symm.trans hc)
    rw [hk] at hk'
    cases hk'
    rw [hptr] at hptr'
    cases hptr'
    rw [haddr, haddr'] at hne
    exact absurd rfl (hne addr rfl addr rfl)

/-- A value that joins beside another one. -/
theorem pair (h : D.Joined m (D'.owned s ++ owners) m' a b) (hs : D'.Joined m₀ owners m s t) :
    (D.pair D').Joined m₀ owners m' (a, s) (b, t) := by
  have haddr (addr : Nat) : addr ∈ addresses ((D.pair D').owned (a, s)) ↔
      addr ∈ addresses (D.owned a) ∨ addr ∈ addresses (D'.owned s) := by
    rw [Reading.pair, addresses_append, List.mem_append]
  constructor
  · have hcounted := h.refCounted
    rwa [← List.append_assoc] at hcounted
  · exact hs.grows.trans h.grows
  · intro p hp
    rcases List.mem_append.mp hp with hnew | hold
    · exact h.owning p hnew
    · apply (hs.owning p hold).of_grows hs.refCounted h.grows h.refCounted
      exact List.mem_append_right _ (List.mem_append_left _ hold)
  · intro addr hmem
    rcases (haddr addr).mp hmem with hnew | hold
    · exact h.live addr hnew
    · obtain ⟨st, hst⟩ := Option.ne_none_iff_exists'.mp (hs.live addr hold)
      rw [h.grows.kept addr st hst]
      exact Option.some_ne_none st
  · intro addr hmem
    rcases (haddr addr).mp hmem with hnew | hold
    · have hnone := h.fresh addr hnew
      cases hst : m₀.storage addr with
      | none => rfl
      | some st =>
        rw [hs.grows.kept addr st hst] at hnone
        cases hnone
    · exact hs.fresh addr hold
  · rw [Reading.pair, addresses_append, List.nodup_append']
    refine ⟨h.distinct, hs.distinct, fun addr hnew hold ↦ ?_⟩
    exact hs.live addr hold (h.fresh addr hnew)
  · exact h.refused_eq.trans hs.refused_eq
  · show (D.view m' a, D'.view m' s) = (b, t)
    rw [h.view_eq, hs.view_of_grows h.grows]

end Joined

end Reading

/-! ### How calls end -/

section Ends

variable {ε α β σ τ ι : Type} (Refusal : Memory → Nat → ε → Prop) (m₀ : Memory)
  (owners : List SharedPtr)

/-- Where the error of a call comes from: it is that of the computation on values, or that of a
request of its own, in a memory on its way, that has been refused. -/
inductive Fails (answer : Except ε β) (m : Memory) (e : ε) : Prop
  | error (hanswer : answer = .error e) (hlog : m.refused = m₀.refused)
  | refused (m₁ : Memory) (n : Nat) (hasked : m₀.Grows m₁) (hrefusal : Refusal m₁ n e)
      (hlog : m.refused = n :: m₀.refused)

/-- A call has ended like a computation on values, or because a request has been refused. After
an error the owners are those that there were before. -/
inductive Ends (answer : Except ε β) (Post : Memory → α → β → Prop) :
    Except HeapFault (Except ε α × Memory) → Prop
  | value {a : α} {b : β} {m : Memory} (hanswer : answer = .ok b) (h : Post m a b) :
      Ends answer Post (.ok (.ok a, m))
  | error {e : ε} {m : Memory} (he : Fails Refusal m₀ answer m e)
      (hcounted : RefCounted m owners) (hgrows : m₀.Grows m) : Ends answer Post (.ok (.error e, m))

/-- Whoever else owns storage, the call ends like the computation and returns a value of its
own. -/
def Realizes (x : Call ε α) (D : Reading α β) (answer : Except ε β) : Prop :=
  ∀ m owners, RefCounted m owners →
    Ends Refusal m owners answer (D.Joined m owners) (x.execute m)

namespace Fails

variable {Refusal m₀} {answer : Except ε β} {m m' : Memory} {e : ε}

/-- A computation on values that fails with the same error. -/
theorem imp {answer' : Except ε τ} (h : Fails Refusal m₀ answer m e)
    (himp : answer = .error e → answer' = .error e) : Fails Refusal m₀ answer' m e := by
  cases h with
  | error hanswer hlog => exact .error (himp hanswer) hlog
  | refused m₁ n hasked hrefusal hlog => exact .refused m₁ n hasked hrefusal hlog

/-- Letting go of what is held asks for nothing. -/
theorem of_refused_eq (h : Fails Refusal m₀ answer m e) (hlog' : m'.refused = m.refused) :
    Fails Refusal m₀ answer m' e := by
  cases h with
  | error hanswer hlog => exact .error hanswer (hlog'.trans hlog)
  | refused m₁ n hasked hrefusal hlog => exact .refused m₁ n hasked hrefusal (hlog'.trans hlog)

/-- A call inside another one, which has been refused nothing so far. -/
theorem of_grows (h : Fails Refusal m answer m' e) (hgrows : m₀.Grows m)
    (hlog' : m.refused = m₀.refused) : Fails Refusal m₀ answer m' e := by
  cases h with
  | error hanswer hlog => exact .error hanswer (hlog.trans hlog')
  | refused m₁ n hasked hrefusal hlog =>
    refine .refused m₁ n (hgrows.trans hasked) hrefusal ?_
    rw [hlog, hlog']

end Fails

namespace Ends

variable {Refusal m₀ owners} {answer : Except ε β} {Post : Memory → α → β → Prop} {m : Memory}

theorem pure {a : α} {b : β} (h : Post m a b) :
    Ends Refusal m₀ owners (.ok b) Post ((Pure.pure a : Call ε α).execute m) := .value rfl h

/-- A computation on values that goes on to build its result. -/
theorem image {build : β → τ} {Post' : Memory → α → τ → Prop}
    {r : Except HeapFault (Except ε α × Memory)}
    (h : Ends Refusal m₀ owners answer (fun m a b ↦ Post' m a (build b)) r) :
    Ends Refusal m₀ owners (answer >>= fun b ↦ .ok (build b)) Post' r := by
  cases h with
  | value hanswer h =>
    refine .value ?_ h
    rw [hanswer]
    rfl
  | error he hcounted hgrows =>
    refine .error (he.imp fun hanswer ↦ ?_) hcounted hgrows
    rw [hanswer]
    rfl

/-- One call after the other. -/
theorem bind {x : Call ε α} {f : α → Call ε σ} {answer' : β → Except ε τ}
    {Post' : Memory → σ → τ → Prop} (h : Ends Refusal m₀ owners answer Post (x.execute m))
    (next : ∀ a b m', answer = .ok b → Post m' a b →
      Ends Refusal m₀ owners (answer' b) Post' ((f a).execute m')) :
    Ends Refusal m₀ owners (answer >>= answer') Post' ((x >>= f).execute m) := by
  rw [Call.execute_bind]
  generalize x.execute m = r at h
  cases h with
  | value hanswer h =>
    rw [hanswer]
    exact next _ _ _ hanswer h
  | error he hcounted hgrows =>
    refine .error (he.imp fun hanswer ↦ ?_) hcounted hgrows
    rw [hanswer]
    rfl

/-- A computation on values at the start. -/
theorem ofExcept {x : Except ε β} {f : β → Call ε σ} {answer' : β → Except ε τ}
    {Post' : Memory → σ → τ → Prop} (hcounted : RefCounted m₀ owners)
    (next : ∀ b, x = .ok b → Ends Refusal m₀ owners (answer' b) Post' ((f b).execute m₀)) :
    Ends Refusal m₀ owners (x >>= answer') Post' ((Call.ofExcept x >>= f).execute m₀) := by
  rw [Call.execute_bind, Call.execute_ofExcept]
  cases x with
  | ok b => exact next b rfl
  | error e => exact .error (.error rfl rfl) hcounted (Memory.Grows.refl m₀)

/-- An error at the start. -/
theorem exitNil {e : ε} (hcounted : RefCounted m₀ owners) :
    Ends Refusal m₀ owners (.error e) Post ((Call.exit [] e : Call ε α).execute m₀) :=
  .error (.error rfl rfl) hcounted (Memory.Grows.refl m₀)

/-- Loop rule. -/
theorem foldlM {f : σ → ι → Call ε σ} {f' : τ → ι → Except ε τ} (Inv : Memory → σ → τ → Prop)
    (xs : List ι) (step : ∀ x ∈ xs, ∀ m s t, Inv m s t →
      Ends Refusal m₀ owners (f' t x) Inv ((f s x).execute m)) {s : σ} {t : τ} (start : Inv m s t) :
    Ends Refusal m₀ owners (xs.foldlM f' t) Inv ((xs.foldlM f s).execute m) := by
  induction xs generalizing m s t with
  | nil => exact .pure start
  | cons x xs ih =>
    rw [List.foldlM_cons, List.foldlM_cons]
    apply (step x List.mem_cons_self m s t start).bind
    intro s' t' m' _ hinv
    exact ih (fun y hy ↦ step y (List.mem_cons_of_mem x hy)) hinv

section Locals

variable {D : Reading σ τ} {D' : Reading α β} {s : σ} {t : τ} (h₀ : RefCounted m₀ owners)
include h₀

/-- A call while a value is held. -/
theorem holding {x : Call ε α} (hx : Realizes Refusal x D' answer)
    (hs : D.Joined m₀ owners m s t) : Ends Refusal m₀ owners answer
      (fun m' a b ↦ (D'.pair D).Joined m₀ owners m' (a, s) (b, t))
      ((Call.holding (D.owned s) x).execute m) := by
  rw [Call.execute_holding]
  have hends := hx m (D.owned s ++ owners) hs.refCounted
  generalize x.execute m = r at hends
  cases hends with
  | value hanswer h => exact .value hanswer (h.pair hs)
  | error he hcounted hgrows =>
    obtain ⟨m', hrelease, hcounted', hgrows', hlog⟩ :=
      h₀.releaseAll_grows (hs.grows.trans hgrows) hcounted
    dsimp only
    rw [hrelease]
    exact .error ((he.of_grows hs.grows hs.refused_eq).of_refused_eq hlog) hcounted' hgrows'

/-- A computation on values that changes the parts of a value that own nothing. -/
theorem update {x : Except ε σ} (hs : D.Joined m₀ owners m s t)
    (hx : ∀ s', x = .ok s' → D.owned s' = D.owned s) :
    Ends Refusal m₀ owners (x.map (D.view m)) (D.Joined m₀ owners)
      ((Call.holding (D.owned s) (Call.ofExcept x)).execute m) := by
  rw [Call.execute_holding, Call.execute_ofExcept]
  cases x with
  | ok s' =>
    refine .value rfl (hs.map ?_ rfl)
    rw [hx s' rfl]
  | error e =>
    obtain ⟨m', hrelease, hcounted, hgrows, hlog⟩ := h₀.releaseAll_grows hs.grows hs.refCounted
    dsimp only
    rw [hrelease]
    exact .error (.error rfl (hlog.trans hs.refused_eq)) hcounted hgrows

/-- An error while a value is held. -/
theorem exit {e : ε} (hs : D.Joined m₀ owners m s t) : Ends Refusal m₀ owners (.error e) Post
      ((Call.exit (D.owned s) e : Call ε α).execute m) := by
  rw [Call.exit, Call.execute_holding, Call.execute_ofExcept]
  obtain ⟨m', hrelease, hcounted, hgrows, hlog⟩ := h₀.releaseAll_grows hs.grows hs.refCounted
  dsimp only
  rw [hrelease]
  exact .error (.error rfl (hlog.trans hs.refused_eq)) hcounted hgrows

end Locals

end Ends

/-- A call whose result is converted. -/
theorem Realizes.map {Refusal : Memory → Nat → ε → Prop} {x : Call ε α} {D : Reading α β}
    {D' : Reading σ τ} {answer : Except ε β} (h : Realizes Refusal x D answer) (f : α → σ)
    (g : β → τ) (howned : ∀ a, D'.owned (f a) = D.owned a)
    (hview : ∀ m a, D'.view m (f a) = g (D.view m a)) :
    Realizes Refusal (f <$> x) D' (answer.map g) := by
  intro m owners hcounted
  have hanswer : answer.map g = answer >>= fun b ↦ .ok (g b) := by
    cases answer with
    | error e => rfl
    | ok b => rfl
  rw [hanswer, map_eq_pure_bind]
  apply (h m owners hcounted).bind
  intro a b m' _ ha
  apply Ends.pure
  apply ha.map
  · rw [howned]
  · rw [hview, ha.view_eq]

end Ends

end Eduort.Base
