import Eduort.Runtime.Lifetimes

/-!
# Loading in a program

A graph may be loaded in any state that a program reaches. The loader goes through whatever the
allocator answers, leaves nothing behind when it fails, and what it returns stays what the loader
on values returns, whatever else the program does.
-/

namespace Eduort

open Onnx

/-- The objects in scope stand on a memory that has only grown around them. -/
theorem Program.Sound.of_grows {p : Program} (hp : p.Sound) {m : Base.Memory}
    (hcounted : Base.RefCounted m (p.held.map SharedTensor.buffer)) (hgrows : p.memory.Grows m) :
    Program.Sound ⟨m, p.scope⟩ :=
  Holds.of_keeps hp (hp.refCounted.keeps_of_grows hgrows) hcounted (List.Subset.refl _)

namespace Source

variable {alloc : HostAllocator}

/-- A model with some weights that hold one float each. -/
def weights (names : List String) : Source := .message {
  opsetImport := [{ domain := "", version := 13 }]
  graph := some {
    initializer := names.map fun name ↦
      { name, dims := [1], dataType := kOnnxFloat, rawData := [0, 0, 128, 63] } } }

/-- A load that fails, and one whose graph is destroyed, leave the storage exactly as it was, and
a state from which the program can go on. -/
theorem load_undone (h : alloc.Fresh) (source : Source) {p : Program} (hp : p.Reached) :
    ∃ result m', (source.load alloc).execute p.memory = .ok (result, m') ∧
      ∃ m'', (match result with
          | .ok g => m'.releaseAll g.buffers
          | .error _ => .ok m') = .ok m'' ∧
        m''.storage = p.memory.storage ∧ Program.Sound ⟨m'', p.scope⟩ := by
  have hcounted := hp.sound.refCounted
  have hends := source.load_realizes h p.memory _ hcounted
  generalize (source.load alloc).execute p.memory = r at hends
  cases hends with
  | @value g v m' _ hg =>
    obtain ⟨m'', hrelease, hcounted'', hgrows'', -⟩ :=
      hcounted.releaseAll_grows hg.grows hg.refCounted
    exact ⟨.ok g, m', rfl, m'', hrelease, hcounted.storage_eq hgrows'' hcounted'',
      hp.sound.of_grows hcounted'' hgrows''⟩
  | @error stop m' _ hcounted' hgrows' =>
    exact ⟨.error stop, m', rfl, m', rfl, hcounted.storage_eq hgrows' hcounted',
      hp.sound.of_grows hcounted' hgrows'⟩

/-- A second weight does not, and the first one gives its storage back. -/
theorem load_undone_weights : ∃ stop m',
    ((weights ["W", "B"]).load .oneSlot).execute .empty = .ok (.error stop, m') ∧
      m'.storage = Base.Memory.empty.storage := by
  obtain ⟨stop, m', hrun⟩ : ∃ stop m',
      ((weights ["W", "B"]).load .oneSlot).execute .empty = .ok (.error stop, m') := ⟨_, _, rfl⟩
  have hreached : Program.Reached {} := ⟨[], .start⟩
  obtain ⟨result, m₁, hrun', m'', hm'', hstorage, -⟩ :=
    load_undone HostAllocator.fresh_oneSlot (weights ["W", "B"]) hreached
  change ((weights ["W", "B"]).load .oneSlot).execute .empty = _ at hrun'
  rw [hrun] at hrun'
  cases hrun'
  cases hm''
  exact ⟨stop, m', hrun, hstorage⟩

end Source

/-! ### Loaded graphs in a run -/

namespace Program

variable {p p₁ : Program} {x : String}

/-- What the loader leaves in a variable: nothing new after an error, else a graph of tensors that
own their data and that reads as the one on values. -/
theorem Sound.load_spec (h : p.Sound) {alloc : HostAllocator} (halloc : alloc.Fresh)
    (source : Source) (hload : p.step (.load x alloc source) = .ok p₁) :
    ∃ result m', (source.load alloc).execute p.memory = .ok (result, m') ∧
      match result with
      | .error stop =>
        Base.Fails (alloc.Refuses source.Requests) p.memory source.graph m' stop ∧
          p₁ = ⟨m', p.scope⟩ ∧ m'.storage = p.memory.storage
      | .ok g =>
        source.graph = .ok (g.view p₁.memory) ∧ p₁.scope = p.scope.insert x (.graph g) ∧
          ∀ t ∈ g.tensors, t.ownsData = true := by
  have hreceived := h.received (makes_load halloc source)
  rw [step, receive] at hload
  rw [Base.Call.execute_map] at hload hreceived
  generalize (source.load alloc).execute p.memory = r at hload hreceived
  cases r with
  | error fault => cases hload
  | ok r =>
    obtain ⟨result, m'⟩ := r
    refine ⟨result, m', rfl, ?_⟩
    cases result with
    | error stop =>
      cases hreceived with
      | error hfails _ hstorage _ =>
        refine ⟨hfails.imp fun hanswer ↦ ?_, (Except.ok.inj hload).symm, hstorage⟩
        exact Base.map_eq_error.mp hanswer
    | ok g =>
      cases hreceived with
      | ok hanswer _ hholds howns =>
        obtain ⟨v, hv, hview⟩ := Base.map_eq_ok.mp hanswer
        obtain ⟨p', hassign, hsound, hscope, hshrinks⟩ := assign_spec hholds x
        have hp' : p' = p₁ := Except.ok.inj (hassign.symm.trans hload)
        subst hp'
        refine ⟨?_, hscope, howns⟩
        -- the object that was in `x` may have given storage back, but none of the graph's
        have hkept : SharedGraph.view p'.memory g = SharedGraph.view m' g := by
          apply SharedGraph.reading.view_congr
          intro q hq
          obtain ⟨t, ht, rfl⟩ := List.mem_map.mp hq
          have hlookup : p'.scope.lookup x = some (.graph g) := by
            rw [hscope]
            exact AList.lookup_insert _
          exact hholds.blockAt_kept hsound (List.mem_append_left _ ht) (subset_heldIn hlookup ht)
            (howns t ht) hshrinks
        rw [hv, hkept]
        exact congrArg Except.ok (Sum.inr.inj hview)

/-- What is loaded in any state that a program reaches goes on reading as the graph of the loader
on values while it is left alone, and once it has been prepared, as that graph prepared, however
loading, preparing and everything else are interleaved. A load that returns an error leaves the
variables and the storage as they were. -/
theorem reached_load_prepare (h : p.Reached) {alloc : HostAllocator} (halloc : alloc.Fresh)
    (source : Source) (hload : p.step (.load x alloc source) = .ok p₁) :
    ∃ result m', (source.load alloc).execute p.memory = .ok (result, m') ∧
      match result with
      | .error stop =>
        Base.Fails (alloc.Refuses source.Requests) p.memory source.graph m' stop ∧
          p₁.scope = p.scope ∧ p₁.memory = m' ∧ m'.storage = p.memory.storage
      | .ok g => ∃ v, source.graph = .ok v ∧
        p₁.scope = p.scope.insert x (.graph g) ∧
          ∀ p₂ actions, Leads (LeavesAlone x (.graph g)) p₁ actions p₂ →
            p₂.scope.lookup x = some (.graph g) ∧ g.view p₂.memory = v ∧
              ∀ p₃ p₄ actions', p₂.step (.prepare x) = .ok p₃ →
                Leads (LeavesAlone x (.graph g)) p₃ actions' p₄ →
                (g.prepare p₂.memory).1 = (prepareGraphStructure v).1 ∧
                  ∃ g' : SharedGraph, p₄.scope.lookup x = some (.graph g') ∧
                    g'.view p₄.memory = (prepareGraphStructure v).2 := by
  obtain ⟨result, m', hrun, hresult⟩ := h.sound.load_spec halloc source hload
  refine ⟨result, m', hrun, ?_⟩
  cases result with
  | error stop =>
    obtain ⟨hfails, rfl, hstorage⟩ := hresult
    exact ⟨hfails, rfl, rfl, hstorage⟩
  | ok g =>
    obtain ⟨hanswer, hscope, howns⟩ := hresult
    refine ⟨_, hanswer, hscope, fun p₂ _ run ↦ ?_⟩
    have hlookup : p₁.scope.lookup x = some (.graph g) := by
      rw [hscope]
      exact AList.lookup_insert _
    have hallowed : p.Allowed (.load x alloc source) := halloc
    have hsound₁ : p₁.Sound := (h.sound.outcome hallowed hload).sound
    have hsound₂ : p₂.Sound := Leads.sound run hsound₁
    obtain ⟨hlookup₂, hview₂⟩ := Leads.view_kept run hsound₁ hlookup howns
    have hv : g.view p₂.memory = g.view p₁.memory := Sum.inr.inj hview₂
    refine ⟨hlookup₂, hv, fun p₃ p₄ _ hprepare run' ↦ ?_⟩
    have hallowed₂ : p₂.Allowed (.prepare x) := trivial
    have hsound₃ : p₃.Sound := (hsound₂.outcome hallowed₂ hprepare).sound
    rw [step, hlookup₂] at hprepare
    cases hprepare
    obtain ⟨hlookup₄, hview₄⟩ := Leads.view_kept (v := .graph (g.prepare p₂.memory).2) run'
      hsound₃ (AList.lookup_insert _) howns
    refine ⟨?_, (g.prepare p₂.memory).2, hlookup₄, (Sum.inr.inj hview₄).trans ?_⟩
    · rw [← hv]
      rfl
    · rw [← hv]
      exact GraphOf.view_prepare _ g

/-- A graph is copied, prepared and outlives its copy. -/
theorem reached_load_prepare_weight : ∃ p₁ p₂ p₃ p₄ v, ∃ g' : SharedGraph,
    step {} (.load "g" .oneSlot (Source.weights ["W"])) = .ok p₁ ∧
      p₁.step (.copy "g" "h") = .ok p₂ ∧ p₂.step (.prepare "g") = .ok p₃ ∧
        p₃.step (.drop "h") = .ok p₄ ∧
          (Source.weights ["W"]).graph = .ok v ∧
            p₄.scope.lookup "g" = some (.graph g') ∧
              g'.view p₄.memory = (prepareGraphStructure v).2 := by
  obtain ⟨p₁, p₂, p₃, p₄, hload, hbound, hcopy, hprepare, hdrop⟩ : ∃ p₁ p₂ p₃ p₄,
      step {} (.load "g" .oneSlot (Source.weights ["W"])) = .ok p₁ ∧
        "g" ∈ p₁.scope ∧ p₁.step (.copy "g" "h") = .ok p₂ ∧ p₂.step (.prepare "g") = .ok p₃ ∧
          p₃.step (.drop "h") = .ok p₄ :=
    ⟨_, _, _, _, rfl, by decide, rfl, rfl, rfl⟩
  have hreached : Program.Reached {} := ⟨[], .start⟩
  obtain ⟨result, m', -, hresult⟩ :=
    reached_load_prepare hreached HostAllocator.fresh_oneSlot _ hload
  cases result with
  | error stop =>
    obtain ⟨-, hscope, -⟩ := hresult
    rw [hscope] at hbound
    exact absurd hbound (by decide)
  | ok g =>
    obtain ⟨v, hv, -, hcarried⟩ := hresult
    have hcopied : Leads (LeavesAlone "g" (.graph g)) p₁ ([] ++ [.copy "g" "h"]) p₂ := by
      have hallowed : p₁.Allowed (.copy "g" "h") := trivial
      refine .next .start ⟨hallowed, ⟨by decide, fun _ _ q _ ↦ ?_⟩, hcopy⟩
      exact not_writesTo_of_mem_targets (List.mem_singleton_self "h") q.base
    have hdropped : Leads (LeavesAlone "g" (.graph g)) p₃ ([] ++ [.drop "h"]) p₄ := by
      have hallowed : p₃.Allowed (.drop "h") := trivial
      refine .next .start ⟨hallowed, ⟨by decide, fun _ _ q _ ↦ ?_⟩, hdrop⟩
      exact not_writesTo_of_mem_targets (List.mem_singleton_self "h") q.base
    obtain ⟨-, -, hcarried₂⟩ := hcarried p₂ _ hcopied
    obtain ⟨-, g', hlookup, hview⟩ := hcarried₂ p₃ p₄ _ hprepare hdropped
    exact ⟨p₁, p₂, p₃, p₄, v, g', hload, hcopy, hprepare, hdrop, hv, hlookup, hview⟩

end Program

end Eduort
