import ScriptEngine.Host
import ScriptEngine.Proofs.Machine.Soundness

namespace ScriptEngine

open Engine

namespace Machine

variable {L₀ : Level} {fl : List Nat} {m : Machine}

theorem Fits.level_of_result {e : Engine} {result : Except Error Value}
    (h : Fits L₀ fl ⟨e, [], .returning result⟩) : e.level = L₀ := by
  cases result with
  | ok v =>
    generalize hM : e.level = M at h
    have hst : Stacked L₀ [] fl M := hM ▸ h
    cases hst
    rfl
  | error error =>
    obtain ⟨_, L, extra, hst, he, hx⟩ := h
    obtain rfl : extra = [] := hx.resolve_right (by rintro ⟨_, _, hg⟩; cases hg)
    have hst : Stacked L₀ [] fl L := hst
    cases hst
    rw [he, List.append_nil]

theorem stateOf_resultIn (e : Engine) (result : Except Error Value) : stateOf (resultIn e result) = e := by
  cases result <;> rfl

theorem run_level {fuel : Nat} {r : EStateM.Result Error Engine Value} (hh : m.engine.heap.OnlyCompiled)
    (h : Fits L₀ fl m) (hr : run fuel m = some r) :
    (stateOf r).level = L₀ ∧ (stateOf r).heap.OnlyCompiled := by
  fun_induction run fuel m generalizing fl with
  | case1 fuel e result =>
    obtain rfl := Option.some.inj hr
    rw [stateOf_resultIn]
    exact ⟨h.level_of_result, hh⟩
  | case2 => cases hr
  | case3 m fuel hne ih => exact ih (hh.evolves (steps_step hh h).1.heap) (h.step hh) hr

end Machine

theorem Engine.call_level {fuel : Nat} {receiver callee : Value} {args : List Value} {e : Engine}
    {r : EStateM.Result Error Engine Value} (hh : e.heap.OnlyCompiled)
    (hr : e.call fuel receiver callee args = some r) :
    (stateOf r).level = e.level ∧ (stateOf r).heap.OnlyCompiled := by
  have hstart : Machine.Fits e.level [] ⟨e, [], .calling receiver callee args⟩ := .host
  exact Machine.run_level hh hstart hr

namespace Host

variable {κ χ : Type}

theorem throw_level {handlers : Handlers κ χ} {error error' : Error} {h h' : Host κ χ}
    (hn : h.handler = none) (ht : throw handlers error h = some (error', h')) :
    h'.engine.level = h.engine.level := by
  simp only [throw] at ht
  split at ht
  · obtain ⟨-, rfl⟩ := Prod.mk.inj (Option.some.inj ht)
    rfl
  · obtain ⟨v, heap, -, hv⟩ := exceptionValue_spec error h.engine
    simp only [hv, panic, hn, Option.map_some, Option.some.injEq, Prod.mk.injEq] at ht
    obtain ⟨-, rfl⟩ := ht
    simp [update, cutStack, reportUncaught, report, pushThrown, level]

theorem surface_level {α : Type} {handlers : Handlers κ χ} {h : Host κ χ} (hn : h.handler = none)
    {r : EStateM.Result Error Engine α} {outcome : Outcome κ χ α}
    (hs : surface handlers h r = some outcome) : (stateOf outcome).engine.level = (stateOf r).level := by
  cases r with
  | ok a e =>
    obtain rfl := Option.some.inj hs
    rfl
  | error error e =>
    simp only [surface, Option.map_eq_some_iff] at hs
    obtain ⟨⟨error', h'⟩, ht, rfl⟩ := hs
    have hl := throw_level (h := { h with engine := e }) hn ht
    exact hl

/-- Whatever is called, with whatever receiver and arguments, and whatever comes of it: when the
call is over, the value stack, the trace, the saved scopes, the current scope, the protected scopes
and the number of open loops are what they were before. -/
theorem call_neutral {fuel : Nat} {handlers : Handlers κ χ} {receiver callee : Value} {args : List Value}
    {h : Host κ χ} {outcome : Outcome κ χ Value} (hh : h.engine.heap.OnlyCompiled) (hn : h.handler = none)
    (hc : call fuel handlers receiver callee args h = some outcome) :
    (stateOf outcome).engine.level = h.engine.level := by
  simp only [call, Option.bind_eq_some_iff] at hc
  obtain ⟨r, hr, hs⟩ := hc
  rw [surface_level hn hs]
  exact (Engine.call_level hh hr).1

theorem call_of_missing_name_neutral :
    ∃ e closure e₁ outcome, create? .none {} = some e ∧
      Engine.load "sample" "f();" .program e = .ok closure e₁ ∧
      call 20 (fun (_ : Unit) h => some h) .undefined closure [] (ofEngine e₁ : Host Unit Unit) =
        some outcome ∧
      (stateOf outcome).engine.level = e₁.level := by
  have hok : (create? .none {}).any (fun e =>
      (valueOf? (Engine.load "sample" "f();" .program e)).any fun loaded =>
        (call 20 (fun (_ : Unit) h => some h) .undefined loaded.1 []
          (ofEngine loaded.2 : Host Unit Unit)).isSome) = true := by decide +kernel
  obtain ⟨e, he, hl⟩ := (Option.any_eq_true _ _).mp hok
  obtain ⟨⟨closure, e₁⟩, hv, hc⟩ := (Option.any_eq_true _ _).mp hl
  have hload := eq_ok_of_valueOf? hv
  obtain ⟨outcome, hc⟩ := Option.isSome_iff_exists.mp hc
  have hh := (onlyCompiled_create he).evolves ((load_ensures _ _ _ e).ok hload).1.heap
  exact ⟨e, closure, e₁, outcome, he, hload, hc, call_neutral hh rfl hc⟩

end Host

end ScriptEngine
