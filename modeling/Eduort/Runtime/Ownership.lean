import Eduort.Onnx.LoaderRange
import Eduort.Runtime.Program

/-!
# What a step does to the objects in scope

Every action keeps the objects in scope and the memory together. It goes wrong only if it writes
where nothing lives, binds no variable but its targets, and changes no storage that somebody else
needs.
-/

namespace Eduort

open Onnx

/-! ### The tensors of a loaded graph -/

/-- A tensor that the decoder returns has a buffer to itself. -/
theorem Tensor.Decoded.own {hostNew : UInt64 → Bool} {v : Tensor} (h : v.Decoded hostNew) :
    v.Own := by
  refine ⟨h.ownsData_eq, (computeNBytes_toNat h.nbytes_eq).2, ?_⟩
  have hstorage := h.storage
  cases hbuffer : v.buffer with
  | none =>
    rw [hbuffer] at hstorage
    exact hstorage
  | some b =>
    rw [hbuffer] at hstorage
    obtain ⟨hpos, -, bytes, rfl, hlength⟩ := hstorage
    refine ⟨hpos, ?_⟩
    rw [Base.Block.size_ofBytes]
    exact hlength

/-- A tensor in an attribute that the loader leaves is one that the decoder returns. -/
theorem Attribute.Mapped.tensor_decoded {hostNew : UInt64 → Bool} {a : Attribute}
    (h : a.Mapped hostNew) {t : Tensor} (ht : a.tensor = some t) : t.Decoded hostNew := by
  unfold Attribute.Mapped at h
  cases hkind : a.kind with
  | kTensor =>
    rw [hkind] at h
    obtain ⟨t', hdecoded, ha⟩ := h
    rw [ha] at ht
    cases ht
    exact hdecoded
  | _ =>
    rw [hkind] at h
    rw [h] at ht
    cases ht

namespace SharedGraph

variable {hostNew : UInt64 → Bool} {m : Base.Memory} {g : SharedGraph}

/-- The tensors of a graph that reads as a loaded one are those that the decoder returns. -/
theorem tensors_decoded (h : (g.view m).Loaded hostNew) {t : SharedTensor} (ht : t ∈ g.tensors) :
    (t.view m).Decoded hostNew := by
  rcases List.mem_append.mp ht with hinit | hnode
  · obtain ⟨e, he, rfl⟩ := List.mem_map.mp hinit
    exact (h.initializers ⟨e.1, e.2.view m⟩ (List.mem_map_of_mem he)).2
  · obtain ⟨n, hn, hattr⟩ := List.mem_flatMap.mp hnode
    obtain ⟨a, ha, htensor⟩ := List.mem_flatMap.mp hattr
    have hmapped := h.nodes (SharedNode.view m n) (List.mem_map_of_mem hn)
    have hattribute := hmapped.attributes (SharedAttribute.view m a) (List.mem_map_of_mem ha)
    apply hattribute.tensor_decoded
    show a.tensor.map (SharedTensor.view m) = some (t.view m)
    rw [Option.mem_toList.mp htensor]
    rfl

end SharedGraph

namespace Source

variable (source : Source)

/-- A load ends like the load on values, or the allocator refuses what a tensor asks for. -/
theorem load_realizes {alloc : HostAllocator} (h : alloc.Fresh) :
    Base.Realizes (alloc.Refuses source.Requests) (source.load alloc) SharedGraph.reading
      source.graph := by
  cases source with
  | message model => exact SharedGraph.fromModelProto_realizes h model fun _ hn ↦ hn
  | file files parse vectorNew path maxBytes =>
    apply SharedGraph.fromFile_realizes h files parse vectorNew path maxBytes
    intro model hmodel n hn
    exact ⟨model, hmodel, hn⟩

private theorem graph_loaded {v : Graph} (h : source.graph = .ok v) : v.Loaded fun _ ↦ true := by
  cases source with
  | message model => exact loadGraphFromModelProto_loaded _ model v h
  | file files parse vectorNew path maxBytes =>
    obtain ⟨model, -, hload⟩ := Base.bind_eq_ok.mp h
    exact loadGraphFromModelProto_loaded _ model v hload

end Source

/-! ### Calls that make objects -/

/-- A call that returns an object of its own: it ends like a computation on values, and every
tensor of the object has a buffer to itself. -/
structure Makes (Refusal : Base.Memory → Nat → Stop → Prop) (call : Base.Call Stop Object)
    (answer : Outcome (Tensor ⊕ Graph)) : Prop where
  realizes : Base.Realizes Refusal call Object.reading answer
  own : ∀ v m, answer = .ok (Object.view m v) → ∀ t ∈ v.tensors, (t.view m).Own

theorem makes_create {alloc : HostAllocator} (h : alloc.Fresh) (dt : DataType)
    (shape : TensorShape) (device : DeviceKind) :
    Makes (alloc.Refuses fun n ↦ n = Tensor.byteSize dt shape)
      (ObjectOf.tensor <$> SharedTensor.create alloc dt shape device)
      (((Tensor.create (fun _ ↦ true) dt shape device).mapError Stop.status).map Sum.inl) where
  realizes := by
    have hcreate : Base.Realizes (alloc.Refuses fun n ↦ n = Tensor.byteSize dt shape) _ _ _ :=
      SharedTensor.create_realizes h dt shape device rfl
    exact hcreate.map ObjectOf.tensor Sum.inl (fun _ ↦ rfl) fun _ _ ↦ rfl
  own v m hanswer := by
    obtain ⟨t', hcreate, hview⟩ := Base.map_eq_ok.mp hanswer
    intro t ht
    cases v with
    | graph g => cases hview
    | tensor u =>
      obtain rfl := List.mem_singleton.mp ht
      rw [show t.view m = t' from (Sum.inl.inj hview).symm]
      exact Tensor.own_of_create (Base.mapError_eq_ok.mp hcreate)

theorem makes_load {alloc : HostAllocator} (h : alloc.Fresh) (source : Source) :
    Makes (alloc.Refuses source.Requests) (ObjectOf.graph <$> source.load alloc)
      (source.graph.map Sum.inr) where
  realizes := (source.load_realizes h).map ObjectOf.graph Sum.inr (fun _ ↦ rfl) fun _ _ ↦ rfl
  own v m hanswer := by
    obtain ⟨g', hload, hview⟩ := Base.map_eq_ok.mp hanswer
    intro t ht
    cases v with
    | tensor u => cases hview
    | graph g =>
      have hloaded := source.graph_loaded hload
      rw [show g' = SharedGraph.view m g from Sum.inr.inj hview] at hloaded
      exact (SharedGraph.tensors_decoded hloaded ht).own

namespace Program

variable {p : Program} {m' : Base.Memory} {scope : NameMap Object} {v : Object} {x : String}

/-! ### One step -/

/-- An assignment never fails, and ends no storage but what nobody owns any more. -/
theorem assign_spec (h : Holds m' (v.tensors ++ heldIn scope)) (x : String) :
    ∃ p', assign scope x v m' = .ok p' ∧ p'.Sound ∧ p'.scope = scope.insert x v ∧
      m'.Shrinks p'.memory := by
  cases hx : scope.lookup x with
  | none =>
    refine ⟨⟨m', scope.insert x v⟩, by rw [assign, hx], ?_, rfl, .refl m'⟩
    show Holds m' (heldIn (scope.insert x v))
    rw [heldIn_insert, NameMap.erase_of_lookup_none hx]
    exact h
  | some old =>
    have hperm : (v.tensors ++ heldIn scope).Perm
        (old.tensors ++ heldIn (scope.insert x v)) := by
      rw [heldIn_insert]
      apply ((heldIn_perm hx).append_left v.tensors).trans
      rw [← List.append_assoc, ← List.append_assoc]
      exact List.perm_append_comm.append_right _
    obtain ⟨m'', hrelease, hholds, hshrinks⟩ := (h.perm hperm).releaseAll
    refine ⟨⟨m'', scope.insert x v⟩, ?_, hholds, rfl, hshrinks⟩
    rw [assign, hx]
    simp only [Object.buffers, hrelease]
    rfl

/-- The write goes to live storage, inside its bounds. -/
def InBounds (p : Program) : Action → Prop
  | .write x i offset bytes => ∀ t, p.find x i = some t → ∃ q s, t.buffer.ptr = some q ∧
      p.memory.storage q.base = some s ∧ q.offset + offset + bytes.length ≤ s.block.size
  | _ => True

/-- Where a tensor in use comes from: it was in use before, has just been moved from, owns its
data, or wraps what the host lends. -/
inductive Arrives (p : Program) (action : Action) (t : SharedTensor) : Prop
  | held (h : t ∈ p.held)
  | movedFrom (h : t.MovedFrom)
  | owns (h : t.ownsData = true)
  | blob {x : String} {dt : DataType} {shape : TensorShape} {data : Option Base.Pointer}
      {bytes : UInt64} {m' : Base.Memory} (haction : action = .fromHostBlob x dt shape data bytes)
      (h : SharedTensor.fromHostBlob p.memory dt shape data bytes = .ok (t, m'))

/-- What an action leads to. -/
structure Outcome (p : Program) (action : Action) (p' : Program) : Prop where
  sound : p'.Sound
  held : ∀ t ∈ p'.held, p.Arrives action t
  lookup : ∀ x ∉ action.targets, p'.scope.lookup x = p.scope.lookup x
  storage : ∀ a, Base.Memory.Turnover p.memory p'.memory a ∨ action = .hostEnd a ∨
    p.WritesTo action a ∧ ∃ s b, p.memory.storage a = some s ∧
      p'.memory.storage a = some { s with block := b } ∧ b.size = s.block.size

/-- An action that changes nothing. -/
theorem Sound.outcome_refl (h : p.Sound) (action : Action) : p.Outcome action p where
  sound := h
  held _ ht := .held ht
  lookup _ _ := rfl
  storage _ := Or.inl (.kept rfl)

/-- An action that binds a variable. -/
theorem outcome_assign (h : Holds m' (v.tensors ++ heldIn scope))
    (hbegan : ∀ a s, p.memory.storage a = some s → m'.storage a = some s) {y : String}
    {action : Action} (hv : ∀ t ∈ v.tensors, p.Arrives action t)
    (hscope : ∀ t ∈ heldIn scope, p.Arrives action t) (hy : y ∈ action.targets)
    (hother : ∀ x ∉ action.targets, scope.lookup x = p.scope.lookup x) :
    ∃ p', assign scope y v m' = .ok p' ∧ p.Outcome action p' := by
  obtain ⟨p', hassign, hsound, hbound, hshrinks⟩ := assign_spec h y
  refine ⟨p', hassign, hsound, fun t ht ↦ ?_, fun x hx ↦ ?_,
    fun a ↦ Or.inl (hshrinks.turnover hbegan a)⟩
  · rw [held, hbound, heldIn_insert] at ht
    rcases List.mem_append.mp ht with hnew | hold
    · exact hv t hnew
    · exact hscope t (heldIn_erase_subset hold)
  · have hne : x ≠ y := by
      rintro rfl
      exact hx hy
    rw [hbound, AList.lookup_insert_ne hne]
    exact hother x hx

/-- The host begins storage where there is none. -/
theorem Sound.outcome_hostBegin (h : p.Sound) {a : Nat} (block : Base.Block)
    (ha : p.memory.storage a = none) :
    p.Outcome (.hostBegin a block) { p with memory := p.memory.provide a ⟨block, .host⟩ } where
  sound := Holds.hostBegin h block ha
  held _ ht := .held ht
  lookup _ _ := rfl
  storage a' := by
    refine Or.inl ?_
    by_cases heq : a' = a
    · exact .began (heq ▸ ha)
    · exact .kept ((p.memory.storage_provide a a' _).trans (if_neg heq))

/-- A store to live storage, by the host or through a tensor. -/
theorem Sound.outcome_store (h : p.Sound) {q : Base.Pointer} {offset : Nat} {bytes : List UInt8}
    {s : Base.Storage} (hs : p.memory.storage q.base = some s)
    (hfits : q.offset + offset + bytes.length ≤ s.block.size) {action : Action}
    (hwrites : p.WritesTo action q.base) :
    ∃ m', p.memory.store (some q) offset bytes = .ok m' ∧ p.Outcome action ⟨m', p.scope⟩ := by
  refine ⟨_, Base.Memory.store_of_fits hs hfits, Holds.overwrite h hs hfits,
    fun _ ht ↦ .held ht, fun _ _ ↦ rfl, fun a' ↦ ?_⟩
  by_cases heq : a' = q.base
  · subst heq
    refine Or.inr (Or.inr ⟨hwrites, s, _, hs, ?_, s.block.size_overwrite _ bytes hfits⟩)
    exact (p.memory.storage_provide q.base q.base _).trans (if_pos rfl)
  · exact Or.inl (.kept ((p.memory.storage_provide q.base a' _).trans (if_neg heq)))

/-- The host ends storage of its own. -/
theorem Sound.outcome_hostEnd (h : p.Sound) {a : Nat} {s : Base.Storage}
    (ha : p.memory.storage a = some s) (hhost : s.origin = .host) :
    p.Outcome (.hostEnd a) { p with memory := p.memory.withdraw a } where
  sound := Holds.hostEnd h ha hhost
  held _ ht := .held ht
  lookup _ _ := rfl
  storage a' := by
    by_cases heq : a' = a
    · exact Or.inr (Or.inl (heq ▸ rfl))
    · exact Or.inl (.kept ((p.memory.storage_withdraw a a').trans (if_neg heq)))

/-- How a call that makes an object ends in a sound state: either the storage is as it was, or the
object has joined those in scope. -/
inductive Received (Refusal : Base.Memory → Nat → Stop → Prop) (p : Program)
    (answer : Except Stop (Tensor ⊕ Graph)) :
    Except Base.HeapFault (Except Stop Object × Base.Memory) → Prop
  | error {stop : Stop} {m' : Base.Memory} (hfails : Base.Fails Refusal p.memory answer m' stop)
      (hsound : Sound ⟨m', p.scope⟩) (hstorage : m'.storage = p.memory.storage)
      (hgrows : p.memory.Grows m') : Received Refusal p answer (.ok (.error stop, m'))
  | ok {v : Object} {m' : Base.Memory} (hanswer : answer = .ok (v.view m'))
      (hjoined : Object.reading.Joined p.memory (p.held.map SharedTensor.buffer) m' v (v.view m'))
      (hholds : Holds m' (v.tensors ++ p.held)) (howns : ∀ t ∈ v.tensors, t.ownsData = true) :
      Received Refusal p answer (.ok (.ok v, m'))

theorem Sound.received (h : p.Sound) {Refusal : Base.Memory → Nat → Stop → Prop}
    {call : Base.Call Stop Object} {answer : Except Stop (Tensor ⊕ Graph)}
    (hmakes : Makes Refusal call answer) : p.Received Refusal answer (call.execute p.memory) := by
  have hholds : Holds p.memory p.held := h
  have hends := hmakes.realizes p.memory _ hholds.refCounted
  generalize call.execute p.memory = r at hends
  cases hends with
  | @value v b m' hanswer hjoined =>
    obtain rfl : v.view m' = b := hjoined.view_eq
    have hown := hmakes.own v m' hanswer
    exact .ok hanswer hjoined (hholds.joined hjoined rfl hown) fun t ht ↦ (hown t ht).ownsData_eq
  | @error stop m' hfails hcounted hgrows =>
    refine .error hfails ?_ (hholds.refCounted.storage_eq hgrows hcounted) hgrows
    exact hholds.of_keeps (hholds.refCounted.keeps_of_grows hgrows) hcounted (List.Subset.refl _)

/-- Such a call is made and its object assigned. -/
theorem Sound.outcome_receive (h : p.Sound) {Refusal : Base.Memory → Nat → Stop → Prop}
    {call : Base.Call Stop Object} {answer : Except Stop (Tensor ⊕ Graph)}
    (hmakes : Makes Refusal call answer) {action : Action} (hx : x ∈ action.targets) :
    ∃ p', p.receive x call = .ok p' ∧ p.Outcome action p' := by
  have hreceived := h.received hmakes
  rw [receive]
  generalize call.execute p.memory = r at hreceived
  cases hreceived with
  | error _ hsound hstorage _ =>
    exact ⟨_, rfl, hsound, fun _ ht ↦ .held ht, fun _ _ ↦ rfl,
      fun a ↦ Or.inl (.kept (congrFun hstorage a))⟩
  | ok _ hjoined hholds howns =>
    exact outcome_assign hholds hjoined.grows.kept (fun t ht ↦ .owns (howns t ht))
      (fun _ ht ↦ .held ht) hx fun _ _ ↦ rfl

/-- Preparing a graph touches no tensor. -/
theorem Sound.outcome_prepare (h : p.Sound) {g : SharedGraph}
    (hx : p.scope.lookup x = some (.graph g)) (result : SharedGraph)
    (hresult : result.tensors = g.tensors) :
    p.Outcome (.prepare x) { p with scope := p.scope.insert x (.graph result) } where
  sound := by
    apply Holds.perm h
    apply (heldIn_perm hx).trans
    show (g.tensors ++ heldIn (p.scope.erase x)).Perm (heldIn (p.scope.insert x (.graph result)))
    rw [heldIn_insert, ← hresult]
    exact List.Perm.refl _
  held t ht := by
    refine .held ?_
    rw [held, heldIn_insert] at ht
    rcases List.mem_append.mp ht with hnew | hold
    · apply subset_heldIn hx
      show t ∈ g.tensors
      rw [← hresult]
      exact hnew
    · exact heldIn_erase_subset hold
  lookup y hy := AList.lookup_insert_ne (List.ne_of_not_mem_cons hy)
  storage _ := Or.inl (.kept rfl)

/-- An object goes out of scope. -/
theorem Sound.outcome_drop (h : p.Sound) (hx : p.scope.lookup x = some v) :
    ∃ m', p.memory.releaseAll v.buffers = .ok m' ∧ p.Outcome (.drop x) ⟨m', p.scope.erase x⟩ := by
  obtain ⟨m', hrelease, hholds, hshrinks⟩ := (Holds.perm h (heldIn_perm hx)).releaseAll
  refine ⟨m', hrelease, hholds, fun t ht ↦ .held (heldIn_erase_subset ht), fun y hy ↦ ?_,
    fun a ↦ Or.inl ?_⟩
  · exact AList.lookup_erase_ne (List.ne_of_not_mem_cons hy)
  · exact hshrinks.turnover (fun _ _ hs ↦ hs) a

/-- A tensor that can be named is in use. -/
theorem mem_held_of_find {i : Member} {t : SharedTensor} (h : p.find x i = some t) :
    t ∈ p.held := by
  obtain ⟨v, hx, ht⟩ := Option.bind_eq_some_iff.mp h
  exact subset_heldIn hx (ObjectOf.mem_tensors_of_find ht)

/-- Tensors in use are copied, and the copy is assigned. -/
theorem Sound.outcome_copies (h : p.Sound) (hv : v.tensors ⊆ p.held) {y : String} {action : Action}
    (hy : y ∈ action.targets) :
    ∃ m' p', p.memory.acquireAll v.buffers = .ok m' ∧ assign p.scope y v m' = .ok p' ∧
      p.Outcome action p' := by
  obtain ⟨m', hacquire, hholds, -, hstorage⟩ := Holds.acquireAll h hv
  have hbegan (a : Nat) (s : Base.Storage) (hs : p.memory.storage a = some s) :
      m'.storage a = some s := by
    rw [hstorage]
    exact hs
  obtain ⟨p', hassign, houtcome⟩ := outcome_assign hholds hbegan (fun _ ht ↦ .held (hv ht))
    (fun _ ht ↦ .held ht) hy fun _ _ ↦ rfl
  exact ⟨m', p', hacquire, hassign, houtcome⟩

/-- What is left of an object has been moved from. -/
theorem movedFrom_of_mem {t : SharedTensor}
    (ht : t ∈ (v.movedFrom SharedTensor.movedFrom).tensors) : t.MovedFrom := by
  cases v with
  | tensor u =>
    obtain rfl := List.mem_singleton.mp ht
    exact ⟨rfl, rfl⟩
  | graph g => cases ht

/-- The tensors in use when an object is moved out of a variable. -/
theorem Sound.holds_move (h : p.Sound) (hx : p.scope.lookup x = some v) :
    Holds p.memory
      (v.tensors ++ heldIn (p.scope.insert x (v.movedFrom SharedTensor.movedFrom))) := by
  apply ((Holds.perm h (heldIn_perm hx)).addMovedFrom fun _ ↦ movedFrom_of_mem (v := v)).perm
  rw [heldIn_insert, ← List.append_assoc, ← List.append_assoc]
  exact List.perm_append_comm.append_right _

/-- An object is moved from one variable to another. -/
theorem Sound.outcome_move (h : p.Sound) (hx : p.scope.lookup x = some v) (y : String) :
    ∃ p', assign (p.scope.insert x (v.movedFrom SharedTensor.movedFrom)) y v p.memory = .ok p' ∧
      p.Outcome (.move x y) p' := by
  apply outcome_assign (h.holds_move hx) (fun _ _ hs ↦ hs) (fun _ ht ↦ .held (subset_heldIn hx ht))
  · intro t ht
    rw [heldIn_insert] at ht
    rcases List.mem_append.mp ht with hmoved | hold
    · exact .movedFrom (movedFrom_of_mem hmoved)
    · exact .held (heldIn_erase_subset hold)
  · exact List.mem_cons_of_mem x List.mem_cons_self
  · intro z hz
    exact AList.lookup_insert_ne (List.ne_of_not_mem_cons hz)

/-- The tensors that a graph is built of are in use. -/
theorem subset_of_resolve {g : GraphOf (String × Member)} {g' : SharedGraph}
    (h : (g.resolve fun r ↦ p.find r.1 r.2) = some g') : g'.tensors ⊆ p.held := by
  intro t ht
  obtain ⟨r, hr⟩ := GraphOf.exists_of_resolve h ht
  exact mem_held_of_find hr

/-- Step lemma: an action goes wrong only if it writes out of bounds. -/
theorem Sound.step_spec (h : p.Sound) {action : Action} (hallowed : p.Allowed action)
    (hbounds : p.InBounds action) : ∃ p', p.step action = .ok p' ∧ p.Outcome action p' := by
  cases action with
  | hostBegin a block => exact ⟨_, rfl, h.outcome_hostBegin block hallowed⟩
  | hostWrite a offset bytes =>
    obtain ⟨s, hs, -, hfits⟩ := hallowed
    have hwrites : p.WritesTo (.hostWrite a offset bytes) a := Or.inl ⟨offset, bytes, rfl⟩
    have hfits' : (Base.Pointer.start a).offset + offset + bytes.length ≤ s.block.size := by
      rw [Base.Pointer.start, Nat.zero_add]
      exact hfits
    obtain ⟨m', hstore, houtcome⟩ := h.outcome_store (q := .start a) hs hfits' hwrites
    rw [step, hstore]
    exact ⟨_, rfl, houtcome⟩
  | hostEnd a =>
    obtain ⟨s, hs, hhost⟩ := hallowed
    exact ⟨_, rfl, h.outcome_hostEnd hs hhost⟩
  | create x alloc dt shape device =>
    exact h.outcome_receive (makes_create hallowed dt shape device) List.mem_cons_self
  | fromHostBlob x dt shape data bytes =>
    rw [step]
    cases hblob : SharedTensor.fromHostBlob p.memory dt shape data bytes with
    | error st => exact ⟨p, rfl, h.outcome_refl _⟩
    | ok result =>
      obtain ⟨t, m'⟩ := result
      obtain ⟨hholds, hstorage⟩ := Holds.fromHostBlob h hblob
      apply outcome_assign (v := .tensor t) hholds _ _ (fun _ ht ↦ .held ht) List.mem_cons_self
        fun _ _ ↦ rfl
      · intro a s hs
        rw [hstorage]
        exact hs
      · intro u hu
        obtain rfl := List.mem_singleton.mp hu
        exact .blob rfl hblob
  | load x alloc source =>
    exact h.outcome_receive (makes_load hallowed source) List.mem_cons_self
  | build x g =>
    rw [step]
    cases hresolve : g.resolve fun r ↦ p.find r.1 r.2 with
    | none => exact ⟨p, rfl, h.outcome_refl _⟩
    | some g' =>
      have htarget : x ∈ (Action.build x g).targets := List.mem_cons_self
      obtain ⟨m', p', hacquire, hassign, houtcome⟩ :=
        h.outcome_copies (v := .graph g') (subset_of_resolve hresolve) htarget
      change p.memory.acquireAll (SharedGraph.buffers g') = .ok m' at hacquire
      simp only [hacquire]
      exact ⟨p', hassign, houtcome⟩
  | prepare x =>
    rw [step]
    split
    · next g hx => exact ⟨_, rfl, h.outcome_prepare hx _ rfl⟩
    · exact ⟨p, rfl, h.outcome_refl _⟩
  | copy x y =>
    rw [step]
    cases hx : p.scope.lookup x with
    | none => exact ⟨p, rfl, h.outcome_refl _⟩
    | some v =>
      have htarget : y ∈ (Action.copy x y).targets := List.mem_cons_self
      obtain ⟨m', p', hacquire, hassign, houtcome⟩ :=
        h.outcome_copies (subset_heldIn hx) htarget
      simp only [hacquire]
      exact ⟨p', hassign, houtcome⟩
  | copyMember x i y =>
    rw [step]
    cases hx : p.find x i with
    | none => exact ⟨p, rfl, h.outcome_refl _⟩
    | some t =>
      have hmem : [t] ⊆ p.held := List.cons_subset.mpr ⟨mem_held_of_find hx, List.nil_subset _⟩
      have htarget : y ∈ (Action.copyMember x i y).targets := List.mem_cons_self
      obtain ⟨m', p', hacquire, hassign, houtcome⟩ :=
        h.outcome_copies (v := .tensor t) hmem htarget
      have hacquire' : p.memory.acquire t.buffer = .ok m' := by
        rw [← hacquire]
        exact (bind_pure _).symm
      simp only [hacquire']
      exact ⟨p', hassign, houtcome⟩
  | move x y =>
    rw [step]
    cases hx : p.scope.lookup x with
    | none => exact ⟨p, rfl, h.outcome_refl _⟩
    | some v => exact h.outcome_move hx y
  | drop x =>
    rw [step]
    cases hx : p.scope.lookup x with
    | none => exact ⟨p, rfl, h.outcome_refl _⟩
    | some v =>
      obtain ⟨m', hrelease, houtcome⟩ := h.outcome_drop hx
      simp only [hrelease]
      exact ⟨_, rfl, houtcome⟩
  | write x i offset bytes =>
    rw [step]
    cases hx : p.find x i with
    | none => exact ⟨p, rfl, h.outcome_refl _⟩
    | some t =>
      obtain ⟨q, s, hptr, hs, hfits⟩ := hbounds t hx
      have hwrites : p.WritesTo (.write x i offset bytes) q.base :=
        Or.inr ⟨x, i, offset, bytes, t, q, rfl, hx, hptr, rfl⟩
      obtain ⟨m', hstore, houtcome⟩ := h.outcome_store hs hfits hwrites
      simp only [hptr, hstore]
      exact ⟨_, rfl, houtcome⟩

/-- A store that succeeds was inside live storage. -/
theorem inBounds_of_step {action : Action} {p' : Program} (hstep : p.step action = .ok p') :
    p.InBounds action := by
  cases action with
  | write x i offset bytes =>
    intro t hx
    rw [step, hx] at hstep
    obtain ⟨m', hstore, -⟩ := Base.bind_eq_ok.mp hstep
    obtain ⟨q, s, hq, hs, hfits, -⟩ := Base.Memory.store_eq_ok hstore
    exact ⟨q, s, hq, hs, hfits⟩
  | _ => trivial

/-- What every successful step from a sound state does. -/
theorem Sound.outcome (h : p.Sound) {action : Action} (hallowed : p.Allowed action) {p' : Program}
    (hstep : p.step action = .ok p') : p.Outcome action p' := by
  obtain ⟨q, hq, houtcome⟩ := h.step_spec hallowed (inBounds_of_step hstep)
  rw [hq] at hstep
  cases hstep
  exact houtcome

/-! ### Runs -/

theorem sound_start : Sound {} := Holds.empty

/-- Run lemma: a run keeps the invariant. -/
theorem Leads.sound {cond : Program → Action → Prop} {actions : List Action} {p' : Program}
    (run : Leads cond p actions p') (h : p.Sound) : p'.Sound := by
  apply run.invariant h
  intro q action q' hq hdoes
  exact (hq.outcome hdoes.allowed hdoes.step).sound

theorem Reached.sound (h : p.Reached) : p.Sound := by
  obtain ⟨actions, run⟩ := h
  exact Leads.sound run sound_start

/-! ### What a step leaves alone -/

/-- Step lemma: only a write through a pointer to it changes storage that a tensor owns. -/
theorem Outcome.owned_kept {action : Action} {p' : Program} (houtcome : p.Outcome action p')
    (h : p.Sound) (hallowed : p.Allowed action) {t : SharedTensor} (ht : t ∈ p.held)
    (ht' : t ∈ p'.held) (howns : t.ownsData = true) {q : Base.Pointer}
    (hptr : t.buffer.ptr = some q) (hwrites : ¬ p.WritesTo action q.base) :
    p'.memory.storage q.base = p.memory.storage q.base := by
  rcases houtcome.storage q.base with hturnover | hend | ⟨hwrite, -⟩
  · exact Holds.turnover_kept h houtcome.sound ht ht' howns hptr hturnover
  · obtain ⟨-, c, s, howned⟩ := Holds.owns_ptr h ht howns hptr
    rw [hend] at hallowed
    obtain ⟨s', hs', hhost⟩ := hallowed
    rw [howned.storage] at hs'
    cases hs'
    rw [howned.origin] at hhost
    cases hhost
  · exact absurd hwrite hwrites

/-- Step lemma: only the host ends its storage, and only a write changes it. -/
theorem Outcome.host_kept {action : Action} {p' : Program} (houtcome : p.Outcome action p')
    {a : Nat} {s : Base.Storage} (hs : p.memory.storage a = some s) (hhost : s.origin = .host)
    (hend : action ≠ .hostEnd a) (hwrites : ¬ p.WritesTo action a) :
    p'.memory.storage a = some s := by
  rcases houtcome.storage a with hturnover | hended | ⟨hwrite, -⟩
  · exact hturnover.host_kept hs hhost
  · exact absurd hended hend
  · exact absurd hwrite hwrites

/-- Step lemma: storage of the host that it does not end is there afterwards, with its size. -/
theorem Outcome.host_lives {action : Action} {p' : Program} (houtcome : p.Outcome action p')
    {a : Nat} {s : Base.Storage} (hs : p.memory.storage a = some s) (hhost : s.origin = .host)
    (hend : action ≠ .hostEnd a) : ∃ s', p'.memory.storage a = some s' ∧ s'.origin = .host ∧
      s'.block.size = s.block.size := by
  rcases houtcome.storage a with hturnover | hended | ⟨-, s₁, b, hs₁, hs', hsize⟩
  · exact ⟨s, hturnover.host_kept hs hhost, hhost, rfl⟩
  · exact absurd hended hend
  · rw [hs] at hs₁
    cases hs₁
    exact ⟨_, hs', hhost, hsize⟩

end Program
end Eduort
