import ScriptEngine.Proofs.Host.Discipline
import ScriptEngine.Proofs.Host.Session
import ScriptEngine.Proofs.Machine.Limits

namespace ScriptEngine

open Engine

namespace Engine

variable {l : Limits} {e e' : Engine}

structure AtRest (l : Limits) (e : Engine) : Prop where
  limits : e.limits = l
  compiled : e.heap.OnlyCompiled
  trace : e.trace = #[.bottom]
  frames : e.frames.length ≤ l.tryLimit
  loops : e.loops = 0

namespace AtRest

theorem of_level (h : e.AtRest l) (hl : e'.limits = e.limits) (hh : e'.heap.OnlyCompiled) (he : e'.level = e.level) :
    e'.AtRest l := by
  have htrace : e'.trace.toList = e.trace.toList := congrArg Level.trace he
  refine ⟨hl.trans h.limits, hh, ?_, ?_, ?_⟩
  · rw [Array.toList_inj.mp htrace, h.trace]
  · rw [show e'.frames = e.frames from congrArg Level.frames he]
    exact h.frames
  · rw [show e'.loops = e.loops from congrArg Level.loops he]
    exact h.loops

theorem keeps {n : Nat} (h : e.AtRest l) (hk : e.Keeps n e') : e'.AtRest l :=
  h.of_level (congrArg (·.2.1) hk.1.fixed) (h.compiled.evolves hk.1.heap) hk.2

theorem of_heap {n : Nat} {heap : Heap} (h : e.AtRest l) (hh : e.heap.Evolves n heap) : { e with heap }.AtRest l :=
  ⟨h.limits, h.compiled.evolves hh, h.trace, h.frames, h.loops⟩

theorem of_stack (h : e.AtRest l) (stack : Array Value) : { e with stack }.AtRest l :=
  ⟨h.limits, h.compiled, h.trace, h.frames, h.loops⟩

theorem exceptionValue (h : e.AtRest l) (error : Error) : (e.exceptionValue error).2.AtRest l := by
  obtain ⟨v, heap, hh, hv⟩ := exceptionValue_spec error e
  rw [hv]
  exact h.of_heap hh

theorem close (h : e.AtRest l) {frames : List ProtectedFrame} (hf : frames.length ≤ e.frames.length) :
    { e with frames }.AtRest l :=
  ⟨h.limits, h.compiled, h.trace, Nat.le_trans hf h.frames, h.loops⟩

theorem restore (h : e.AtRest l) (frame : ProtectedFrame) (v : Value) : (e.restore frame v).AtRest l := by
  refine ⟨h.limits, h.compiled, ?_, h.frames, h.loops⟩
  show e.trace.shrink (max frame.traceDepth 1) = #[.bottom]
  have hall : [TraceEntry.bottom].take (max frame.traceDepth 1) = [.bottom] :=
    List.take_of_length_le (Nat.le_max_right _ _)
  rw [h.trace, ← Array.toList_inj, Array.toList_shrink, hall]

theorem unwind (h : e.AtRest l) (id : ScopeId) (error : Error) : (e.unwind id error).2.AtRest l := by
  cases hf : findFrame id e.frames with
  | none =>
    simp only [Engine.unwind, hf]
    exact (h.exceptionValue .unbalancedScope).of_stack _
  | some found =>
    obtain ⟨frame, frames⟩ := found
    obtain ⟨-, inner, hi⟩ := findFrame_eq_some hf
    have hclosed : { e with frames }.AtRest l := by
      refine h.close ?_
      rw [hi, List.length_append, List.length_cons]
      omega
    simp only [Engine.unwind, hf]
    have hback := (hclosed.exceptionValue error).restore frame ({ e with frames }.exceptionValue error).1
    exact hback.of_heap (.collect (n := 0) _ _ .refl)

theorem enterProtected : Maintains (AtRest l) enterProtected := by
  intro e h
  rw [enterProtected_eq]
  split
  · exact h
  · next hroom =>
    refine ⟨h.limits, h.compiled, h.trace, ?_, h.loops⟩
    rw [h.limits] at hroom
    show e.frames.length + 1 ≤ _
    omega

theorem leaveProtected (id : ScopeId) : Maintains (AtRest l) (leaveProtected id) := by
  refine fun e h => ((leaveProtected_ensures id e).mono (fun _ e' hx => ?_) fun _ e' hx => ?_).state
  · obtain ⟨frame, frames, hf, -, rfl⟩ := hx
    exact h.close (by rw [hf, List.length_cons]; omega)
  · obtain ⟨-, rfl, -⟩ := hx
    exact h

theorem beginProtected : Maintains (AtRest l) beginProtected := by
  intro e h
  simp only [Engine.beginProtected]
  cases hb : Engine.enterProtected e with
  | ok scope e₁ => exact enterProtected.returned h hb
  | error error e₁ =>
    have hfull : e₁.AtRest l := enterProtected.failed h hb
    exact (hfull.exceptionValue error).of_stack _

theorem endProtected {α : Type} (id : ScopeId) (r : EStateM.Result Error Engine α) (h : (stateOf r).AtRest l) :
    (stateOf (endProtected id r)).AtRest l := by
  cases r with
  | error error e => exact AtRest.unwind h id error
  | ok a e =>
    simp only [Engine.endProtected]
    cases hl : Engine.leaveProtected id e with
    | ok _ e₁ => exact (leaveProtected id).returned h hl
    | error error e₁ => exact AtRest.unwind ((leaveProtected id).failed h hl) id error

theorem called {fuel : Nat} {receiver callee : Value} {args : List Value} {r : EStateM.Result Error Engine Value}
    (h : e.AtRest l) (hr : e.call fuel receiver callee args = some r) : (stateOf r).AtRest l := by
  obtain ⟨hlevel, hcompiled⟩ := call_level h.compiled hr
  have hfixed : (stateOf r).fixed = e.fixed := by
    rw [Session.engine_of_call hr]
    exact (Machine.Orderly.calling h.compiled receiver callee args).fixed fuel
  exact h.of_level (congrArg (·.2.1) hfixed) hcompiled hlevel

theorem perform (operation : Operation) : Maintains (AtRest l) operation.perform := by
  have hkeeps {x : EngineM Reply} {n : Nat} (hx : ∀ e, Ensures x (fun _ => e.Keeps n) (fun _ => e.Keeps n) e) :
      Maintains (AtRest l) x := fun e h => Ensures.state ((hx e).mono (fun _ _ hk => h.keeps hk) fun _ _ hk => h.keeps hk)
  cases operation with
  | push v =>
    refine .bind (fun e h => ?_) fun _ => .pure _
    rw [push_eq]
    split
    · exact h
    · exact h.of_stack _
  | pop => exact .bind (fun e h => h.of_stack _) fun _ => .pure _
  | newObject => exact .bind (fun e h => h.of_heap (n := 0) (.alloc .refl trivial)) fun _ => .pure _
  | exceptionValue error => exact .bind (fun e h => h.exceptionValue error) fun _ => .pure _
  | bind unit compiled env => exact .bind (fun e h => h.of_heap (n := 0) (.alloc .refl compiled)) fun _ => .pure _
  | setProperty target name value =>
    exact hkeeps fun e => .bind ((setProperty_keeps target name value e).mono (fun _ _ h => .pure h) fun _ _ h => h)
  | makeRef value => exact hkeeps fun e => .bind ((makeRef_keeps value e).mono (fun _ _ h => .pure h) fun _ _ h => h)
  | unref key => exact .bind (fun e h => h.of_heap (n := 0) (Heap.Evolves.refl.eraseProperty e.registry key)) fun _ => .pure _
  | gc => exact .bind (fun e h => h.of_heap (.collect (n := 0) 0 e.roots .refl)) fun _ => .pure _
  | enter => exact .bind enterProtected fun _ => .pure _
  | leave id => exact .bind (leaveProtected id) fun _ => .pure _
  | unwind id error => exact .bind (fun e h => h.unwind id error) fun _ => .pure _
  | redirect output diagnostics =>
    exact .bind (fun e h => ⟨h.limits, h.compiled, h.trace, h.frames, h.loops⟩) fun _ => .pure _

end AtRest

theorem atRest_create {flags : Flags} {limits : Limits} (hc : create? flags limits = some e) : e.AtRest limits := by
  have hcompiled := onlyCompiled_create hc
  simp only [create?] at hc
  split at hc
  · obtain rfl := Option.some.inj hc
    exact ⟨rfl, hcompiled, rfl, Nat.zero_le _, rfl⟩
  · cases hc

end Engine

namespace Host

variable {κ χ α : Type} {l : Limits} {panics : Panics κ χ} {h h' : Host κ χ}

def Resting (l : Limits) (x : Host κ χ → Option (Record κ χ α)) : Prop :=
  ∀ h r, x h = some r → h.engine.AtRest l → r.host.engine.AtRest l

theorem throw_atRest {error error' : Error} (hp : ∀ k, Resting l (panics k)) (hr : h.engine.AtRest l)
    (ht : throw panics.handlers error h = some (error', h')) : h'.engine.AtRest l := by
  simp only [throw] at ht
  split at ht
  · obtain ⟨-, rfl⟩ := Prod.mk.inj (Option.some.inj ht)
    exact hr
  · have hpushed : ((h.engine.exceptionValue error).2.pushThrown (h.engine.exceptionValue error).1).AtRest l :=
      (hr.exceptionValue error).of_stack _
    cases hk : h.handler with
    | none =>
      simp only [panic, hk, Option.map_some, Option.some.injEq, Prod.mk.injEq] at ht
      obtain ⟨-, rfl⟩ := ht
      exact ⟨hpushed.limits, hpushed.compiled, hpushed.trace, hpushed.frames, hpushed.loops⟩
    | some k =>
      simp only [panic, hk, Panics.handlers, Option.map_map, Option.map_eq_some_iff] at ht
      obtain ⟨r, hrun, hrest⟩ := ht
      obtain ⟨-, rfl⟩ := Prod.mk.inj hrest
      exact (hp k _ r hrun hpushed).of_stack _

theorem surface_atRest {r : EStateM.Result Error Engine α} {outcome : Outcome κ χ α} (hp : ∀ k, Resting l (panics k))
    (hr : (stateOf r).AtRest l) (hs : surface panics.handlers h r = some outcome) :
    (stateOf outcome).engine.AtRest l := by
  cases r with
  | ok a e =>
    obtain rfl := Option.some.inj hs
    exact hr
  | error error e =>
    simp only [surface, Option.map_eq_some_iff] at hs
    obtain ⟨⟨error', h'⟩, ht, rfl⟩ := hs
    exact throw_atRest (h := { h with engine := e }) hp hr ht

theorem perform_atRest {action : Action κ χ} {fuel : Nat} {outcome : Outcome κ χ Reply}
    (hp : ∀ k, Resting l (panics k)) (hr : h.engine.AtRest l)
    (ha : action.perform panics.handlers fuel h = some outcome) : (stateOf outcome).engine.AtRest l := by
  cases action with
  | operate operation =>
    obtain rfl := Option.some.inj ha
    rw [engine_receive]
    exact AtRest.perform operation h.engine hr
  | throw error =>
    obtain ⟨⟨error', h'⟩, ht, rfl⟩ := Option.map_eq_some_iff.mp ha
    exact throw_atRest hp hr ht
  | rethrow error =>
    obtain ⟨⟨error', h'⟩, ht, rfl⟩ := Option.map_eq_some_iff.mp ha
    have hcarried : (h.engine.carry error).2.AtRest l := by
      rw [carry_engine]
      exact hr.of_stack _
    exact throw_atRest (h := { h with engine := (h.engine.carry error).2 }) hp hcarried ht
  | load name source mode =>
    obtain ⟨outcome', hs, rfl⟩ := Option.map_eq_some_iff.mp ha
    have hloaded : (stateOf (Engine.load name source mode h.engine)).AtRest l :=
      Ensures.state ((load_ensures name source mode h.engine).mono (fun _ _ hk => hr.keeps hk) fun _ _ hk => hr.keeps hk.2)
    rw [Action.stateOf_reply]
    exact surface_atRest hp hloaded hs
  | loadFile path file =>
    obtain ⟨outcome', hs, rfl⟩ := Option.map_eq_some_iff.mp ha
    have hloaded : (stateOf (Engine.loadFile path file h.engine)).AtRest l :=
      Ensures.state ((loadFile_ensures path file h.engine).mono (fun _ _ hk => hr.keeps hk) fun _ _ hk => hr.keeps hk.2)
    rw [Action.stateOf_reply]
    exact surface_atRest hp hloaded hs
  | call receiver callee args =>
    obtain ⟨outcome', hc, rfl⟩ := Option.map_eq_some_iff.mp ha
    obtain ⟨r, hcalled, hs⟩ := Option.bind_eq_some_iff.mp hc
    rw [Action.stateOf_reply]
    exact surface_atRest hp (hr.called hcalled) hs
  | setHandler handler =>
    obtain rfl := Option.some.inj ha
    exact hr
  | setContext context =>
    obtain rfl := Option.some.inj ha
    exact hr

theorem Resting.protect {body : Host κ χ → Option (Record κ χ α)} (hb : Resting l body) : Resting l (Host.protect body) := by
  intro h r hrun hr
  simp only [Host.protect] at hrun
  cases hx : Engine.beginProtected h.engine with
  | error error e =>
    rw [hx] at hrun
    obtain rfl := Option.some.inj hrun
    exact AtRest.beginProtected.failed hr hx
  | ok id e =>
    rw [hx] at hrun
    obtain ⟨b, hbody, rfl⟩ := Option.map_eq_some_iff.mp hrun
    have hended := hb _ b hbody (AtRest.beginProtected.returned hr hx)
    rw [Record.host, Host.endProtected, engine_receive]
    refine AtRest.endProtected id _ ?_
    rw [stateOf_within]
    exact hended

end Host

open Host

variable {κ χ α : Type} {l : Limits} {h : Host κ χ}

theorem Program.run_resting {panics : Panics κ χ} (hp : ∀ k, Resting l (panics k)) (fuel : Nat) (p : Program κ χ α) :
    Resting l (p.run panics fuel) := by
  induction p with
  | done result =>
    intro h r hr
    cases result <;>
    · obtain rfl := Option.some.inj hr
      exact id
  | act action next ih =>
    intro h r hr hrest
    obtain ⟨outcome, ha, hmap⟩ := Option.bind_eq_some_iff.mp hr
    obtain ⟨rest, hnext, rfl⟩ := Option.map_eq_some_iff.mp hmap
    exact ih _ _ _ rest hnext (perform_atRest hp hrest ha)
  | protect body next ihb ih =>
    intro h r hr hrest
    obtain ⟨b, hb, hmap⟩ := Option.bind_eq_some_iff.mp hr
    obtain ⟨rest, hnext, rfl⟩ := Option.map_eq_some_iff.mp hmap
    exact ih _ _ _ rest hnext (ihb.protect h b hb hrest)

theorem Program.panics_resting (handler : κ → Program κ χ Unit) (fuel : Nat) (k : κ) :
    Resting l (Program.panics handler fuel k) := by
  induction fuel generalizing k with
  | zero =>
    intro h r hr
    cases hr
  | succ fuel ih => exact run_resting ih fuel (handler k)

theorem Host.Reached.atRest {handler : κ → Program κ χ Unit} {n : Nat} (hr : Reached handler n h) :
    h.engine.AtRest h.engine.limits := by
  have hlimits : ∃ l, h.engine.AtRest l := by
    induction hr with
    | @created flags limits e hc => exact ⟨limits, atRest_create hc⟩
    | ran _ hrun ih =>
      obtain ⟨l, hl⟩ := ih
      exact ⟨l, Program.run_resting (Program.panics_resting handler _) _ _ _ _ hrun hl⟩
    | raised _ _ ih =>
      obtain ⟨l, hl⟩ := ih
      exact ⟨l, (hl.exceptionValue _).of_stack _⟩
  obtain ⟨l, hl⟩ := hlimits
  rw [hl.limits]
  exact hl

namespace Machine

/-- At most one value is over the limit of the stack, and nothing is over the other limits. The trace
starts with its bottom entry, and the loops that are counted are those at work. -/
structure Limited (l : Limits) (m : Machine) : Prop where
  stack : m.engine.stack.size ≤ l.stackSize + 1
  trace : m.engine.trace.size ≤ l.traceLimit
  bottom : m.engine.trace[0]? = some .bottom
  frames : m.engine.frames.length ≤ l.tryLimit
  loops : m.engine.loops ≤ l.reentryLimit
  active : m.engine.loops = m.loops

theorem Orderly.limited {L₀ : Level} {m : Machine} (h : m.Orderly L₀) (hw : m.Within l) (ht : L₀.trace = [.bottom])
    (hl : L₀.loops = 0) : m.Limited l := by
  have hone : m.engine.Within l 1 := by
    rcases hw with hw | ⟨hw, -⟩
    · exact ⟨hw.limits, Nat.le_succ_of_le hw.stack, hw.trace, hw.frames, hw.loops⟩
    · exact hw
  obtain ⟨fl, hfits⟩ := h.fits
  obtain ⟨hloops, htrace⟩ := hfits.grows
  refine ⟨hone.stack, hone.trace, ?_, hone.frames, hone.loops, ?_⟩
  · obtain ⟨rest, hrest⟩ := htrace
    have hlist : m.engine.trace.toList = .bottom :: rest := by
      rw [ht] at hrest
      exact hrest.symm
    rw [← Array.getElem?_toList, hlist]
    rfl
  · rw [hl, Nat.zero_add] at hloops
    exact hloops

theorem orderly_of_load {load : EngineM Value} {e : Engine} (hh : e.heap.OnlyCompiled)
    (hensures : Ensures load (fun _ => e.Keeps 2) (e.KeepsFailing 2) e) :
    Orderly e.level (ofLoaded (load e)) ∧ e.Keeps 2 (ofLoaded (load e)).engine := by
  cases hl : load e with
  | ok closure e₁ =>
    have hkeeps := hensures.ok hl
    refine ⟨?_, hkeeps⟩
    rw [← hkeeps.2]
    exact .calling (hh.evolves hkeeps.1.heap) _ _ _
  | error error e₁ =>
    obtain ⟨hinternal, hkeeps⟩ := hensures.error hl
    refine ⟨?_, hkeeps⟩
    rw [← hkeeps.2]
    exact Session.orderly_returned (hh.evolves hkeeps.1.heap) fun _ h => by cases h; exact hinternal

theorem orderly_ofLoaded {e : Engine} (hh : e.heap.OnlyCompiled) (script : Script) :
    Orderly e.level (ofLoaded (script.load e)) ∧ e.Keeps 2 (ofLoaded (script.load e)).engine :=
  orderly_of_load hh (script.load_ensures e)

theorem recorded_ofLoaded (r : EStateM.Result Error Engine Value) : (ofLoaded r).Recorded fun _ => False := by
  cases r <;> exact fun _ _ _ hmem => absurd (List.suffix_nil.mp hmem) (List.cons_ne_nil _ _)

end Machine

/-- From every state that a host can bring an instance to, if the stack is not over its limit there:
at every step of a script the limits hold. The stack has one value more than its limit only when the
step before has resumed the scope of a try statement, and the catch clause of that statement takes
the value off next. -/
theorem limits_hold_throughout {handler : κ → Program κ χ Unit} {n : Nat} (hr : Reached handler n h)
    (ht : 1 ≤ h.engine.limits.traceLimit) (hs : h.engine.stack.size ≤ h.engine.limits.stackSize) (script : Script)
    {scope : ScopeId} {e : Engine} (hb : beginProtected h.engine = .ok scope e) :
    (∀ fuel, h.engine.evaluate fuel script.load =
      (Machine.run fuel (.ofLoaded (script.load e))).map (Engine.endProtected scope)) ∧
    ∀ k m, m = Machine.step^[k] (.ofLoaded (script.load e)) → m.Limited h.engine.limits ∧
      (m.engine.stack.size = h.engine.limits.stackSize + 1 →
        (∃ j, k = j + 1 ∧ (Machine.step^[j] (.ofLoaded (script.load e))).Unwinds) ∧
        ∃ entry g callers name, m.control = .running entry (g :: callers) ∧
          g.unit.code[g.next]? = some (.enterCatch name) ∧
          (stateOf (Loop.step ⟨m.engine, g :: callers⟩)).engine.stack.size ≤ h.engine.limits.stackSize) := by
  have hrest := hr.atRest
  have hbegun : e.AtRest h.engine.limits := AtRest.beginProtected.returned hrest hb
  have hstack : e.stack = h.engine.stack := by
    obtain ⟨frame, -, -, rfl⟩ := (beginProtected_ensures h.engine).ok hb
    rfl
  obtain ⟨horderly, hkeeps⟩ := Machine.orderly_ofLoaded hbegun.compiled script
  have hwithin : e.Within h.engine.limits 0 := by
    refine ⟨hbegun.limits, by rw [hstack]; exact hs, ?_, hbegun.frames, ?_⟩
    · rw [hbegun.trace]
      exact ht
    · rw [hbegun.loops]
      exact Nat.zero_le _
  have htrace : e.level.trace = [.bottom] := congrArg Array.toList hbegun.trace
  refine ⟨fun fuel => ?_, ?_⟩
  · rw [evaluate_eq, hb]
  · rintro k m rfl
    obtain ⟨hw, hlast⟩ := horderly.within (Machine.recorded_ofLoaded _) (hwithin.keeps hkeeps) k
    refine ⟨(horderly.run k).limited hw htrace hbegun.loops, fun hfull => ?_⟩
    have hover : ¬(Machine.step^[k] (.ofLoaded (script.load e))).engine.Within h.engine.limits 0 := by
      intro hx
      have hle := hx.stack
      omega
    refine ⟨hlast.resolve_left hover, ?_⟩
    obtain ⟨hone, entry, g, callers, name, hcontrol, hinstr⟩ := hw.resolve_left hover
    exact ⟨entry, g, callers, name, hcontrol, hinstr, (Loop.step_enterCatch_within hinstr hone).stack⟩

theorem limits_hold_throughout_when_full :
    ∃ e scope e₁ m, create? .none { stackSize := 3 } = some e ∧ beginProtected e = .ok scope e₁ ∧
      m = Machine.step^[3] (.ofLoaded ((Script.text "sample" "try \x7b 1; \x7d catch (e) \x7b \x7d").load e₁)) ∧
      m.engine.stack.size = 4 ∧ m.Limited e.limits ∧ m.AtCatch := by
  have hok : (create? .none { stackSize := 3 }).any (fun e =>
      decide (1 ≤ e.limits.traceLimit ∧ e.stack.size ≤ e.limits.stackSize ∧ e.limits.stackSize = 3) &&
        (valueOf? (beginProtected e)).any fun begun =>
          (Machine.step^[3] (.ofLoaded ((Script.text "sample" "try \x7b 1; \x7d catch (e) \x7b \x7d").load
            begun.2))).engine.stack.size == 4) = true := by decide +kernel
  obtain ⟨e, he, hrest⟩ := (Option.any_eq_true _ _).mp hok
  obtain ⟨hlimits, hbegun⟩ := Bool.and_eq_true_iff.mp hrest
  obtain ⟨ht, hs, hsize⟩ := of_decide_eq_true hlimits
  obtain ⟨⟨scope, e₁⟩, hb, hfull⟩ := (Option.any_eq_true _ _).mp hbegun
  have hreached : Reached (χ := Unit) Program.quiet 0 (ofEngine e) := .created he
  obtain ⟨-, hall⟩ := limits_hold_throughout hreached ht hs (.text "sample" "try \x7b 1; \x7d catch (e) \x7b \x7d")
    (eq_ok_of_valueOf? hb)
  obtain ⟨hlimited, hover⟩ := hall 3 _ rfl
  have hfour := eq_of_beq hfull
  obtain ⟨-, entry, g, callers, name, hcontrol, hinstr, -⟩ := hover (by
    show _ = e.limits.stackSize + 1
    rw [hsize]
    exact hfour)
  exact ⟨e, scope, e₁, _, he, eq_ok_of_valueOf? hb, rfl, hfour, hlimited, entry, g, callers, name, hcontrol, hinstr⟩

end ScriptEngine
