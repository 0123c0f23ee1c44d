import ScriptEngine.Repl
import ScriptEngine.Proofs.Host.Program
import ScriptEngine.Proofs.Machine.Endurance
import ScriptEngine.Proofs.Machine.Sweeping

namespace ScriptEngine

open Engine

def Machine.ofLoaded : EStateM.Result Error Engine Value → Machine
  | .ok closure e => ⟨e, [], .calling (.object e.global) closure []⟩
  | .error error e => ⟨e, [], .returning (.error error)⟩

theorem Machine.engine_ofLoaded (r : EStateM.Result Error Engine Value) : (ofLoaded r).engine = stateOf r := by
  cases r <;> rfl

theorem Engine.evaluate_eq (fuel : Nat) (load : EngineM Value) (e : Engine) : e.evaluate fuel load =
    match beginProtected e with
    | .error error e => some (.error error e)
    | .ok scope e => (Machine.run fuel (.ofLoaded (load e))).map (endProtected scope) := by
  simp only [evaluate]
  cases beginProtected e with
  | error error e₁ => rfl
  | ok scope e₁ =>
    simp only
    cases load e₁ with
    | ok closure e₂ => rfl
    | error error e₂ =>
      simp only [Machine.ofLoaded, Machine.run]
      rfl

inductive Session where
  | idle (e : Engine)
  | busy (scope : ScopeId) (m : Machine)

namespace Session

def machine : Session → Machine
  | .idle e => ⟨e, [], .returning (.ok .undefined)⟩
  | .busy _ m => m

def heap (s : Session) : Heap := s.machine.engine.heap

/-- How a session goes on. A script is loaded in a protected scope, unless there is no room for one;
the machine makes its steps; the scope is left with the result of the script. Between two scripts the
host may take off the value that a failed script left on the stack and may write to the sinks. -/
inductive Next : Session → Session → Prop
  | crowded {e e' : Engine} {error : Error} : beginProtected e = .error error e' → Next (.idle e) (.idle e')
  | loaded {e e' : Engine} {scope : ScopeId} (script : Script) : beginProtected e = .ok scope e' →
      Next (.idle e) (.busy scope (.ofLoaded (script.load e')))
  | stepped {scope : ScopeId} {m : Machine} : Next (.busy scope m) (.busy scope m.step)
  | ended {scope : ScopeId} {m : Machine} {r : EStateM.Result Error Engine Value} : m.result? = some r →
      Next (.busy scope m) (.idle (stateOf (endProtected scope r)))
  | dismissed {e : Engine} : Next (.idle e) (.idle e.pop.2)
  | displayed {e : Engine} (output diagnostics : Sink) : Next (.idle e) (.idle { e with output, diagnostics })

inductive Visited : Nat → Session → Prop
  | created {flags : Flags} {limits : Limits} {e : Engine} : create? flags limits = some e → Visited 0 (.idle e)
  | next {n : Nat} {s s' : Session} : Visited n s → s.Next s' → Visited (n + s.heap.collectionsTo s'.heap) s'

def Reaches (s : Session) (a : Handle) : Prop :=
  s.heap.Reaches s.machine.holdings a

inductive Holds (a : Handle) (s : Session) : Nat → Session → Prop
  | here : s.Reaches a → Holds a s 0 s
  | next {k : Nat} {s' s'' : Session} : Holds a s k s' → s'.Next s'' → s''.Reaches a →
      Holds a s (k + s'.heap.collectionsTo s''.heap) s''

section Programs

variable {n fuel : Nat} {e e' : Engine} {scope : ScopeId} {m : Machine} {script : Script}
  {r : EStateM.Result Error Engine Value}

theorem Visited.steps (h : Visited n (.busy scope m)) (j : Nat) :
    Visited (n + Machine.collections j m) (.busy scope (Machine.step^[j] m)) := by
  fun_induction Machine.collections j m generalizing n with
  | case1 j e result =>
    have hfixed : Machine.step ⟨e, [], .returning result⟩ = ⟨e, [], .returning result⟩ := rfl
    rw [Function.iterate_fixed hfixed]
    exact h
  | case2 m hne => exact h
  | case3 j m hne ih =>
    have hstep := h.next .stepped
    simp only [heap, machine] at hstep
    rw [← Nat.add_assoc, Function.iterate_succ_apply]
    exact ih hstep

theorem Visited.evaluate (h : Visited n (.idle e)) (hr : e.evaluate fuel script.load = some r) :
    ∃ k, Visited (n + k) (.idle (stateOf r)) := by
  rw [evaluate_eq] at hr
  cases hb : beginProtected e with
  | error error e₁ =>
    simp only [hb, Option.some.injEq] at hr
    rw [← hr]
    exact ⟨_, h.next (.crowded hb)⟩
  | ok scope e₁ =>
    simp only [hb, Machine.run_eq_result, Option.map_eq_some_iff] at hr
    obtain ⟨r', hr', rfl⟩ := hr
    have hran := (h.next (.loaded script hb)).steps fuel
    have hended := hran.next (.ended hr')
    rw [Nat.add_assoc, Nat.add_assoc] at hended
    exact ⟨_, hended⟩

theorem Visited.popped {k : Nat} (h : Visited (n + k) (.idle e)) : ∃ k, Visited (n + k) (.idle e.pop.2) :=
  ⟨_, (Nat.add_assoc ..) ▸ h.next .dismissed⟩

theorem Visited.shown {k : Nat} (h : Visited (n + k) (.idle e)) (output diagnostics : Sink) :
    ∃ k, Visited (n + k) (.idle { e with output, diagnostics }) :=
  ⟨_, (Nat.add_assoc ..) ▸ h.next (.displayed output diagnostics)⟩

theorem Visited.runLoaded {went : Bool} (h : Visited n (.idle e)) (hr : e.runLoaded fuel script.load = some (went, e')) :
    ∃ k, Visited (n + k) (.idle e') := by
  simp only [Engine.runLoaded, Option.map_eq_some_iff] at hr
  obtain ⟨r, hr, hresult⟩ := hr
  obtain ⟨k, hk⟩ := h.evaluate hr
  cases r with
  | ok v e₁ =>
    obtain ⟨-, rfl⟩ := Prod.mk.inj hresult
    exact ⟨k, hk⟩
  | error error e₁ =>
    obtain ⟨-, rfl⟩ := Prod.mk.inj hresult
    obtain ⟨k₁, hk₁⟩ := hk.popped
    exact hk₁.shown _ _

theorem Visited.evalLine {line : String} {answer : Except String String} (h : Visited n (.idle e))
    (hr : e.evalLine fuel line = some (answer, e')) : ∃ k, Visited (n + k) (.idle e') := by
  simp only [Engine.evalLine, Option.map_eq_some_iff] at hr
  obtain ⟨r, hr, hresult⟩ := hr
  have hran : e.evaluate fuel (Script.text "[stdin]" line).load = some r := hr
  obtain ⟨k, hk⟩ := h.evaluate hran
  cases r with
  | ok v e₁ =>
    obtain rfl : e₁ = e' := by cases v <;> exact (Prod.mk.inj hresult).2
    exact ⟨k, hk⟩
  | error error e₁ =>
    obtain ⟨-, rfl⟩ := Prod.mk.inj hresult
    exact hk.popped

end Programs

section Invariant

variable {n : Nat} {e : Engine} {ρ : Renaming} {s s' : Session}

def Intact (n : Nat) (s : Session) : Prop :=
  ∃ L₀, Machine.Abreast L₀ n s.machine s.machine

theorem orderly_returned (hh : e.heap.OnlyCompiled) {result : Except Error Value}
    (hi : ∀ error, result = .error error → error.isInternal = false) :
    Machine.Orderly e.level ⟨e, [], .returning result⟩ := by
  refine ⟨hh, ⟨[], ?_⟩, fun g N hmem => by cases hmem⟩
  cases result with
  | ok v => exact .host
  | error error => exact ⟨hi error rfl, e.level, [], .host, by rw [List.append_nil], .inl rfl⟩

theorem intact_idle (he : e.Alike 0 ρ e) (hs : e.heap.Sound n) : Intact n (.idle e) := by
  have ho : Machine.Orderly e.level (machine (.idle e)) := orderly_returned hs.compiled fun _ h => by cases h
  exact ⟨e.level, ⟨ρ, he, .nil, .value (.plain rfl)⟩, ho, ho, hs⟩

theorem Intact.alike (h : Intact n s) (hn : n + 2 < 2 ^ 32) : s.machine.Alike 1 s.machine := by
  obtain ⟨L₀, ha⟩ := h
  exact ha.alike.room ha.sound.dated hn

theorem intact_loaded {scope : ScopeId} {e₁ : Engine} (he : e.Alike 1 ρ e) (hs : e.heap.Sound n)
    (hb : beginProtected e = .ok scope e₁) (script : Script)
    (hn : n + e.heap.collectionsTo (stateOf (script.load e₁)).heap + 2 < 2 ^ 32) :
    Intact (n + e.heap.collectionsTo (stateOf (script.load e₁)).heap) (.busy scope (.ofLoaded (script.load e₁))) := by
  cases hr : script.load e₁ with
  | ok closure e₂ =>
    rw [hr] at hn
    have hl := Launches.intro hb hr
    have ho := hl.orderly hs.compiled
    exact ⟨e₂.level, hl.alike he hs.dated hn, ho, ho, hl.sound hs hn⟩
  | error error e₂ =>
    have hbegun := he.beginProtected
    rw [hb] at hbegun
    cases hbegun with
    | ok h =>
      obtain ⟨ρ₁, he₁, -⟩ := h
      rw [← beginProtected_heap hb] at hs hn ⊢
      obtain ⟨hinternal, hages, -⟩ := (script.load_ensures e₁).error hr
      have hlike := script_like he₁ script hs.dated hn
      rw [hr, stateOf] at hn
      rw [hr] at hlike
      have hsound : e₂.heap.Sound (n + e₁.heap.collectionsTo e₂.heap) := hs.evolves hages.heap (by omega)
      have ho : Machine.Orderly e₂.level (.ofLoaded (.error error e₂)) :=
        orderly_returned hsound.compiled fun _ h => by cases h; exact hinternal
      cases hlike with
      | error h =>
        obtain ⟨ρ₂, he₂, hx⟩ := h
        exact ⟨e₂.level, ⟨ρ₂, he₂, .nil, .error hx⟩, ho, ho, hsound⟩

theorem engine_of_result {m : Machine} {r : EStateM.Result Error Engine Value} (h : m.result? = some r) :
    stateOf r = m.engine := by
  obtain ⟨e, tasks, control⟩ := m
  cases control with
  | running | calling => cases h
  | returning result =>
    simp only [Machine.result?] at h
    split at h
    · obtain rfl := Option.some.inj h
      exact Machine.stateOf_resultIn e result
    · cases h

theorem engine_of_call {e : Engine} {fuel : Nat} {receiver callee : Value} {args : List Value}
    {r : EStateM.Result Error Engine Value} (h : e.call fuel receiver callee args = some r) :
    stateOf r = (Machine.step^[fuel] ⟨e, [], .calling receiver callee args⟩).engine := by
  rw [Engine.call, Machine.run_eq_result] at h
  exact engine_of_result h

theorem intact_ended {scope : ScopeId} {m : Machine} {r : EStateM.Result Error Engine Value}
    (h : Intact n (.busy scope m)) (hr : m.result? = some r)
    (hn : n + m.engine.heap.collectionsTo (stateOf (endProtected scope r)).heap + 2 < 2 ^ 32) :
    Intact (n + m.engine.heap.collectionsTo (stateOf (endProtected scope r)).heap)
      (.idle (stateOf (endProtected scope r))) := by
  have hresult := (h.alike (by omega)).result
  obtain ⟨L₀, -, -, -, hsound⟩ := h
  have hevolves := endProtected_evolves scope r
  rw [engine_of_result hr] at hevolves
  simp only [machine, hr] at hresult hsound
  cases hresult with
  | some hlike =>
    obtain ⟨ρ, he⟩ := (hlike.endProtected scope).state
    exact intact_idle he (hsound.evolves (hevolves.mono (by omega)) (by omega))

theorem Intact.idle (h : Intact n (.idle e)) (hn : n + 2 < 2 ^ 32) : (∃ ρ, e.Alike 1 ρ e) ∧ e.heap.Sound n := by
  obtain ⟨ρ, he, -, -⟩ := h.alike hn
  obtain ⟨L₀, -, -, -, hsound⟩ := h
  exact ⟨⟨ρ, he⟩, hsound⟩

theorem crowded_evolves {e' : Engine} {error : Error} (hb : beginProtected e = .error error e') :
    e.heap.Evolves 0 e'.heap := by
  obtain ⟨-, rfl⟩ := (beginProtected_ensures e).error hb
  obtain ⟨v, h, hh, hv⟩ := exceptionValue_spec error e
  rw [hv]
  exact hh

theorem Next.intact (h : s.Next s') (hs : s.Intact n) (hn : n + s.heap.collectionsTo s'.heap + 2 < 2 ^ 32) :
    s'.Intact (n + s.heap.collectionsTo s'.heap) := by
  cases h with
  | crowded hb =>
    obtain ⟨⟨ρ, he⟩, hsound⟩ := hs.idle (by omega)
    have hbegun := he.beginProtected
    rw [hb] at hbegun
    simp only [heap, machine] at hn ⊢
    cases hbegun with
    | error hlike =>
      obtain ⟨ρ₁, he₁, -⟩ := hlike
      exact intact_idle he₁.less (hsound.evolves ((crowded_evolves hb).mono (by omega)) (by omega))
  | loaded script hb =>
    obtain ⟨⟨ρ, he⟩, hsound⟩ := hs.idle (by omega)
    simp only [heap, machine, Machine.engine_ofLoaded] at hn ⊢
    exact intact_loaded he hsound hb script hn
  | stepped =>
    obtain ⟨L₀, ha⟩ := hs
    exact ⟨L₀, ha.step hn⟩
  | ended hr => exact intact_ended hs hr hn
  | dismissed =>
    obtain ⟨⟨ρ, he⟩, hsound⟩ := hs.idle (by omega)
    simp only [heap, machine] at hn ⊢
    exact intact_idle he.pop.1.less (hsound.evolves .refl (by omega))
  | displayed output diagnostics =>
    obtain ⟨⟨ρ, he⟩, hsound⟩ := hs.idle (by omega)
    simp only [heap, machine] at hn ⊢
    exact intact_idle ⟨{ he.less.akin with output := rfl, diagnostics := rfl }, he.less.heap⟩
      (hsound.evolves .refl (by omega))

theorem Visited.intact (h : Visited n s) (hn : n + 2 < 2 ^ 32) : s.Intact n := by
  induction h with
  | created hc =>
    obtain ⟨ρ, he⟩ := create_alike hc
    exact intact_idle he.less (sound_create hc)
  | next _ hnext ih => exact hnext.intact (ih (by omega)) hn

theorem Next.steady (h : s.Next s') (hs : s.Intact n) (hn : n + s.heap.collectionsTo s'.heap + 2 < 2 ^ 32) :
    s.heap.Steady s.Reaches s'.heap := by
  obtain ⟨L₀, -, ho, -, hsound⟩ := hs
  cases h with
  | crowded hb => exact (Heap.Spares.of_evolves hsound.tidy (crowded_evolves hb)).steady
  | @loaded e e₁ scope script hb =>
    have hheld (a : Handle) (ha : Reaches (.idle e) a) : e.heap.Reaches e.roots a := by
      have hreached := ha.mono (Machine.holdings_subset ho.moored)
      simpa [Control.values, heap, machine, Value.handle?] using hreached
    simp only [heap, machine, Machine.engine_ofLoaded] at hsound hn ⊢
    have hroots := roots_beginProtected hb
    rw [← beginProtected_heap hb] at hsound hn hheld ⊢
    have hpreserves := (script.load_preserves hsound.tidy hsound.dated hn).fewer hroots
    exact (hpreserves.spares hheld).steady
  | stepped => exact ho.step_steady hsound.tidy hsound.dated (by omega)
  | @ended scope m r hr =>
    have hengine := engine_of_result hr
    refine endProtected_steady ?_ ?_ scope
    · rw [hengine]
      exact .refl _ _
    · rw [hengine]
      exact hsound.tidy
  | dismissed => exact (Heap.Spares.refl _ _).steady
  | displayed => exact (Heap.Spares.refl _ _).steady

end Invariant

variable {n k : Nat} {s s' : Session} {a : Handle}

theorem Visited.secure (h : Visited n s) (hn : n + 2 < 2 ^ 32) : s.machine.Secure := by
  have halike := (h.intact hn).alike hn
  obtain ⟨L₀, -, ho, -, -⟩ := h.intact hn
  exact halike.secure ho.moored

theorem Visited.slot_of_reaches (h : Visited n s) (hn : n + 2 < 2 ^ 32) (ha : s.Reaches a) :
    ∃ t, s.heap.slot? a = some t := by
  obtain ⟨cell, hcell, -⟩ := (h.secure hn).closed a ha
  obtain ⟨t, ht, -⟩ := Heap.slot?_of_cell? hcell
  exact ⟨t, ht⟩

theorem Holds.visited (hh : s.Holds a k s') (h : Visited n s) : Visited (n + k) s' ∧ s'.Reaches a := by
  induction hh with
  | here ha => exact ⟨h, ha⟩
  | next _ hnext ha ih =>
    rw [← Nat.add_assoc]
    exact ⟨ih.1.next hnext, ha⟩

theorem Holds.born_eq (hh : s.Holds a k s') (h : Visited n s) (hn : n + k + 2 < 2 ^ 32) :
    ∃ t t', s.heap.slot? a = some t ∧ s'.heap.slot? a = some t' ∧ t'.born = t.born := by
  induction hh with
  | here ha =>
    obtain ⟨t, ht⟩ := h.slot_of_reaches hn ha
    exact ⟨t, t, ht, ht, rfl⟩
  | next hh hnext ha ih =>
    obtain ⟨t, t', ht, ht', hb⟩ := ih (by omega)
    obtain ⟨hv, ha'⟩ := hh.visited h
    rw [← Nat.add_assoc] at hn
    obtain ⟨t'', ht''⟩ := (hv.next hnext).slot_of_reaches hn ha
    have hsteady := hnext.steady (hv.intact (by omega)) hn
    exact ⟨t, t'', ht, ht'', (hsteady.born_eq ha' ht' ht'').trans hb⟩

/-- At every moment of every session, as long as the numbers of the collections have not started
over: each handle in the value stack, the current, the global and the saved scopes, the protected
scopes, the receivers and scopes of all frames, and the value or error on its way leads to a cell of
its kind; so does each handle in a cell that can be reached from these; no error says that a handle
led nowhere; and while a handle is held its slot is not used for another cell. -/
theorem holds_only_live_cells (h : Visited n s) (hn : n < 2 ^ 32 - 2) :
    s.machine.Secure ∧ ∀ a k s', s.Holds a k s' → n + k < 2 ^ 32 - 2 →
      ∃ t t', s.heap.slot? a = some t ∧ s'.heap.slot? a = some t' ∧ t'.born = t.born :=
  ⟨h.secure (by omega), fun _ _ _ hh hk => hh.born_eq h (by omega)⟩

theorem holds_only_live_cells_in_flight :
    ∃ n scope m a, Visited n (.busy scope m) ∧ Holds a (.busy scope m) 1 (.busy scope m.step) ∧
      a ∈ m.control.values.filterMap Value.handle? ∧ a ∉ m.engine.roots ∧ m.Secure ∧
      ∃ t t', m.engine.heap.slot? a = some t ∧ m.step.engine.heap.slot? a = some t' ∧ t'.born = t.born := by
  obtain ⟨script, hok⟩ : ∃ script : Script, (create? .none {}).any (fun e =>
      (valueOf? (beginProtected e)).any fun begun =>
        let m := Machine.ofLoaded (script.load begun.2)
        let thrown := Machine.step^[8] m
        decide <| e.heap.collectionsTo m.engine.heap + Machine.collections 8 m = 0 ∧
          thrown.engine.heap.collectionsTo thrown.step.engine.heap = 1 ∧
          ∃ a ∈ thrown.control.values.filterMap Value.handle?,
            a ∈ thrown.step.control.values.filterMap Value.handle? ∧ a ∉ thrown.engine.roots) = true :=
    ⟨.text "sample" "eval('throw \x7b\x7d;');", by decide +kernel⟩
  obtain ⟨e, he, hbegun⟩ := (Option.any_eq_true _ _).mp hok
  obtain ⟨⟨scope, e₁⟩, hb, hrest⟩ := (Option.any_eq_true _ _).mp hbegun
  obtain ⟨hcount, hone, a, ha, ha', hroots⟩ := of_decide_eq_true hrest
  have hloaded := (Visited.created he).next (.loaded script (eq_ok_of_valueOf? hb))
  have hthrown := hloaded.steps 8
  simp only [heap, machine] at hthrown hcount hone ha ha'
  generalize Machine.step^[8] _ = m at hthrown hone ha ha' hroots
  have hbefore : Reaches (.busy scope m) a := .root (Machine.control_subset ha)
  have hafter : Reaches (.busy scope m.step) a := .root (Machine.control_subset ha')
  have hheld := (Holds.here hbefore).next .stepped hafter
  simp only [heap, machine, hone] at hheld
  obtain ⟨hsecure, hkept⟩ := holds_only_live_cells hthrown (by omega)
  exact ⟨_, scope, _, a, hthrown, hheld, ha, hroots, hsecure, hkept a 1 _ hheld (by omega)⟩

end Session

end ScriptEngine
