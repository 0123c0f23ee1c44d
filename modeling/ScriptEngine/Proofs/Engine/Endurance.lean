import ScriptEngine.Proofs.Engine.Likeness
import ScriptEngine.Proofs.Engine.Native
import ScriptEngine.Proofs.Heap.Endurance

namespace ScriptEngine

namespace Engine

variable {α : Type} {e e' : Engine} {v : Value} {n : Nat}

section Roots

theorem mem_roots {a : Handle} : a ∈ e.roots ↔
    a = e.registry ∨ a = e.global ∨ a = e.globalEnv ∨ a ∈ e.level.scopes ++ [e.level.env] ∨
      (∃ f ∈ e.level.frames, f.env = a) ∨ ∃ v ∈ e.level.stack, v.handle? = some a := by
  simp only [roots, level, List.mem_append, List.mem_cons, List.mem_map, List.mem_filterMap, List.not_mem_nil,
    or_false, or_assoc, or_left_comm (b := a ∈ e.scopes.toList)]

theorem roots_subset (hf : e'.fixed = e.fixed) (hs : e.level.stack ⊆ e'.level.stack)
    (hc : e.level.scopes ++ [e.level.env] ⊆ e'.level.scopes ++ [e'.level.env])
    (hfr : e.level.frames ⊆ e'.level.frames) : e.roots ⊆ e'.roots := by
  simp only [fixed, Prod.mk.injEq] at hf
  obtain ⟨-, -, hregistry, hglobal, hglobalEnv⟩ := hf
  intro a ha
  rw [mem_roots, hregistry, hglobal, hglobalEnv]
  rcases mem_roots.mp ha with ha | ha | ha | ha | ⟨f, hf, ha⟩ | ⟨v, hv, ha⟩
  · exact .inl ha
  · exact .inr (.inl ha)
  · exact .inr (.inr (.inl ha))
  · exact .inr (.inr (.inr (.inl (hc ha))))
  · exact .inr (.inr (.inr (.inr (.inl ⟨f, hfr hf, ha⟩))))
  · exact .inr (.inr (.inr (.inr (.inr ⟨v, hs hv, ha⟩))))

theorem roots_beginProtected {id : ScopeId} (hb : beginProtected e = .ok id e') : e.roots ⊆ e'.roots := by
  obtain ⟨frame, -, -, ha, hl⟩ := beginProtected_ok hb
  refine roots_subset ha.fixed ?_ ?_ ?_ <;> rw [hl]
  · exact fun _ h => h
  · exact fun _ h => h
  · exact List.subset_cons_self _ _

theorem roots_restored {frame : ProtectedFrame} (hm : frame.Marks e.level) (hf : e'.fixed = e.fixed)
    (hl : e'.level = { e.level with frames := frame :: e.level.frames }) (h : Heap) (v : Value) :
    e.roots ⊆ (restore frame v { e' with frames := e.frames, heap := h }).roots := by
  have hstack : e'.stack.toList = e.level.stack := congrArg Level.stack hl
  have hscopes : e'.scopes.toList = e.level.scopes := congrArg Level.scopes hl
  refine roots_subset hf ?_ ?_ fun f hf => hf
  · simp only [level, restore, Array.toList_push, Array.toList_shrink, hstack, hm.stackDepth, List.take_length]
    exact List.subset_append_left _ _
  · simp only [level, restore, Array.toList_shrink, hscopes, hm.scopeDepth, List.take_length, hm.env]
    exact fun _ ha => ha

end Roots

section Preserving

variable {roots : List Handle}

theorem exceptionValue_preserves (error : Error) (ht : e.heap.Tidy) :
    e.heap.Preserves roots (e.exceptionValue error).2.heap := by
  simp only [exceptionValue]
  split
  · exact .refl _ _
  · split
    · exact .alloc ht _
    · exact .refl _ _

theorem compile_heap (name source : String) (e : Engine) :
    Ensures (compile name source) (fun _ e' => e'.heap = e.heap) (fun _ e' => e'.heap = e.heap) e := by
  refine .get ?_
  generalize SyntaxTree.acquire name source e.ledger = acquired
  obtain ⟨parsed, ledger⟩ := acquired
  refine .bind (.set ?_)
  cases parsed with
  | error d => exact .throw rfl
  | ok tree =>
    refine .bind (.modified ?_)
    cases tree.compile e.strict with
    | error d => exact .throw rfl
    | ok unit => exact .pure rfl

theorem bindSource_preserves (name source : String) (mode : LoadMode) (ht : e.heap.Tidy) :
    e.heap.Preserves roots (stateOf (bindSource name source mode e)).heap := by
  refine Ensures.state (P := fun e' : Engine => e.heap.Preserves roots e'.heap) ?_
  refine .bind ((compile_heap name source e).mono (fun unit e₁ hh => ?_) fun _ e₁ hh => hh ▸ .refl _ _)
  refine .bind (.modifyGet (.modifyGet ?_))
  rw [← hh] at ht ⊢
  simp only [target]
  split
  · exact (Heap.Preserves.environment ht _ _).trans (.alloc (ht.environment _ _) _)
  · exact .alloc ht _

theorem unwind_preserves {frame : ProtectedFrame} {k : Nat} (hm : frame.Marks e.level) (hf : e'.fixed = e.fixed)
    (hl : e'.level = { e.level with frames := frame :: e.level.frames }) (hp : e.heap.Preserves e.roots e'.heap)
    (ht : e'.heap.Tidy) (hd : e'.heap.Dated k) (hk : k + 2 < 2 ^ 32) (error : Error) :
    e.heap.Preserves e.roots (e'.unwind frame.id error).2.heap := by
  have hfound : findFrame frame.id e'.frames = some (frame, e.frames) := by
    rw [show e'.frames = frame :: e.frames from congrArg Level.frames hl]
    exact findFrame_top frame e.frames
  obtain ⟨v, h, hh, hv⟩ := exceptionValue_spec error { e' with frames := e.frames }
  have hvalue : e'.heap.Preserves e.roots h := by
    have hpv : e'.heap.Preserves e.roots _ := exceptionValue_preserves (e := { e' with frames := e.frames }) error ht
    rwa [hv] at hpv
  have hu : h.Unnumbered := by
    obtain ⟨j, hj, -, hdate⟩ := hh.numbers
    obtain rfl : j = 0 := by omega
    exact (hdate k hd (by omega)).unnumbered (by omega)
  simp only [unwind, hfound, hv]
  exact (hp.trans hvalue).trans (.collectSince hu _ (roots_restored hm hf hl h v))

theorem guarding_preserves {body : EngineM α} (hk : ∀ e, Ensures body (fun _ => e.Keeps n) (e.KeepsFailing n) e)
    (ht : e.heap.Tidy) (hp : ∀ id e₁, beginProtected e = .ok id e₁ →
      e.heap.Preserves e.roots (stateOf (body e₁)).heap ∧ ∃ k, (stateOf (body e₁)).heap.Dated k ∧ k + 2 < 2 ^ 32) :
    e.heap.Preserves e.roots (stateOf (guarding body e)).heap := by
  simp only [guarding, protect]
  cases hb : beginProtected e with
  | error error e₁ =>
    obtain ⟨-, rfl⟩ := (beginProtected_ensures e).error hb
    simp only [carried, stateOf, carry_heap]
    exact exceptionValue_preserves error ht
  | ok id e₁ =>
    obtain ⟨frame, rfl, hm, ha, hl⟩ := beginProtected_ok hb
    obtain ⟨hpres, k, hd, hk₂⟩ := hp frame.id e₁ hb
    have hx := hk e₁
    simp only
    cases hbody : body e₁ with
    | ok a e₂ =>
      obtain ⟨-, hl₂⟩ := hx.ok hbody
      rw [hbody] at hpres
      have hf : e₂.frames = frame :: e.frames := congrArg Level.frames (hl₂.trans hl)
      simp only [endProtected, leaveProtected_top hf, carried]
      exact hpres
    | error error e₂ =>
      obtain ⟨-, ha₂, hl₂⟩ := hx.error hbody
      rw [hbody] at hpres hd
      have ht₂ : e₂.heap.Tidy := ht.evolves (ha.after ha₂).heap
      simp only [endProtected, carried, stateOf, carry_heap]
      exact unwind_preserves hm (ha₂.fixed.trans ha.fixed) (hl₂.trans hl) hpres ht₂ hd hk₂ error

theorem load_preserves (name source : String) (mode : LoadMode) (ht : e.heap.Tidy) (hd : e.heap.Dated n)
    (hn : n + 2 < 2 ^ 32) : e.heap.Preserves e.roots (stateOf (load name source mode e)).heap := by
  refine guarding_preserves (bindSource_ensures name source mode) ht ?_
  intro id e₁ hb
  rw [← beginProtected_heap hb] at ht hd ⊢
  refine ⟨bindSource_preserves name source mode ht, n, ?_, hn⟩
  have hages : e₁.Ages 0 (stateOf (bindSource name source mode e₁)) :=
    ((bindSource_ensures name source mode e₁).mono (fun _ _ h => h.1) fun _ _ h => h.2.1).state
  obtain ⟨j, hj, -, hdate⟩ := hages.heap.numbers
  obtain rfl : j = 0 := by omega
  exact hdate n hd (by omega)

theorem native_preserves (f : Builtin) (args : List Value) (ht : e.heap.Tidy) (hd : e.heap.Dated n)
    (hn : n + 2 < 2 ^ 32) : e.heap.Preserves e.roots (stateOf (native f args e)).heap := by
  have hkeep : e.heap.Preserves e.roots e.heap := .refl _ _
  refine Ensures.state (P := fun e' : Engine => e.heap.Preserves e.roots e'.heap) (.get ?_)
  cases f with
  | print =>
    have hprint : Ensures (print args) (fun _ e' => e'.heap = e.heap) (fun _ e' => e'.heap = e.heap) e := by
      refine .get ?_
      split
      · rfl
      · exact .fault rfl
    exact .bind (hprint.mono (fun _ e' hh => .pure (by rwa [hh])) fun _ e' hh => by rwa [hh])
  | makeError name =>
    refine .bind (.modifyGet (.pure ?_))
    simp only [makeError]
    split <;> exact .alloc ht _
  | string => cases args <;> exact .pure hkeep
  | number => cases args <;> exact .pure hkeep
  | isNaN => exact .pure hkeep
  | isFinite => exact .pure hkeep
  | eval =>
    cases args with
    | nil => exact .pure hkeep
    | cons value args =>
      cases value with
      | string source =>
        have hload := Ensures.of_state (P := fun e' : Engine => e.heap.Preserves e.roots e'.heap)
          (load_preserves "(eval)" source .eval ht hd hn)
        exact .bind (hload.mono (fun _ _ h => .pure h) fun _ _ h => h)
      | undefined | null | boolean | number | object => exact .pure hkeep
  | gc => exact .bind (.modified (.pure (.collectSince (hd.unnumbered hn) 0 fun _ ha => ha)))
  | math function => exact .pure hkeep

theorem callNative_preserves (f : Builtin) (args : List Value) (ht : e.heap.Tidy) (hd : e.heap.Dated n)
    (hn : n + 2 < 2 ^ 32) : e.heap.Preserves e.roots (stateOf (callNative f args e)).heap := by
  have hentered := enterTrace_ensures ⟨f.name, "native", 0⟩ e
  simp only [callNative]
  cases hx : enterTrace ⟨f.name, "native", 0⟩ e with
  | error error e₁ =>
    obtain ⟨-, rfl⟩ := hentered.error hx
    exact .refl _ _
  | ok _ e₁ =>
    obtain rfl := hentered.ok hx
    have hnative : e.heap.Preserves e.roots _ :=
      native_preserves (e := { e with trace := e.trace.push ⟨f.name, "native", 0⟩ }) f args ht hd hn
    simp only
    cases hr : native f args { e with trace := e.trace.push ⟨f.name, "native", 0⟩ } with
    | error error e₂ => rw [hr] at hnative; exact hnative
    | ok result e₂ =>
      rw [hr] at hnative
      cases result with
      | value v => exact hnative
      | run closure => exact hnative

end Preserving

end Engine

end ScriptEngine
