import ScriptEngine.Proofs.Machine.Flight
import ScriptEngine.Proofs.Machine.Touch

namespace ScriptEngine

open Engine

def Maintains {ε σ α : Type} (P : σ → Prop) (x : EStateM ε σ α) : Prop :=
  ∀ s, P s → P (stateOf (x s))

namespace Maintains

variable {ε σ α β : Type} {P : σ → Prop} {x : EStateM ε σ α}

theorem relates (hx : Maintains P x) : Relates (fun s t => P s → P t) id x := hx

theorem returned {a : α} {s t : σ} (hx : Maintains P x) (hs : P s) (h : x s = .ok a t) : P t :=
  hx.relates.returned h hs

theorem failed {error : ε} {s t : σ} (hx : Maintains P x) (hs : P s) (h : x s = .error error t) : P t :=
  hx.relates.failed h hs

theorem pure (a : α) : Maintains P (Pure.pure a : EStateM ε σ α) := fun _ h => h

theorem bind {f : α → EStateM ε σ β} (hx : Maintains P x) (hf : ∀ a, Maintains P (f a)) : Maintains P (x >>= f) :=
  Relates.bind (fun hab hbc h => hbc (hab h)) hx.relates fun a => (hf a).relates

end Maintains

namespace Engine

variable {l : Limits} {k : Nat} {e e' : Engine} {α : Type}

structure Within (l : Limits) (k : Nat) (e : Engine) : Prop where
  limits : e.limits = l
  stack : e.stack.size ≤ l.stackSize + k
  trace : e.trace.size ≤ l.traceLimit
  frames : e.frames.length ≤ l.tryLimit
  loops : e.loops ≤ l.reentryLimit

namespace Within

theorem still (h : e.Within l k) (hl : e'.limits = e.limits) (he : e'.level = e.level) : e'.Within l k := by
  refine ⟨hl.trans h.limits, ?_, ?_, ?_, ?_⟩
  · rw [← length_stack, he, length_stack]
    exact h.stack
  · rw [← length_trace, he, length_trace]
    exact h.trace
  · rw [show e'.frames = e.frames from congrArg Level.frames he]
    exact h.frames
  · rw [show e'.loops = e.loops from congrArg Level.loops he]
    exact h.loops

theorem keeps {n : Nat} (h : e.Within l k) (hk : e.Keeps n e') : e'.Within l k :=
  h.still (congrArg (·.2.1) hk.1.fixed) hk.2

theorem popped (h : e.Within l (k + 1)) : e.pop.2.Within l k := by
  refine ⟨h.limits, ?_, h.trace, h.frames, h.loops⟩
  have hstack := h.stack
  simp only [pop, Array.size_pop]
  omega

theorem carry (h : e.Within l (k + 1)) (error : Error) : (e.carry error).2.Within l k := by
  rw [carry_engine]
  exact h.popped

theorem fewer (h : e.Within l k) {stack : Array Value} (hs : stack.size ≤ e.stack.size) : { e with stack }.Within l k :=
  ⟨h.limits, Nat.le_trans hs h.stack, h.trace, h.frames, h.loops⟩

theorem cutStack (h : e.Within l k) (depth : Nat) : (e.cutStack depth).Within l k :=
  h.fewer (by simp only [Array.size_shrink]; omega)

theorem shorter (h : e.Within l k) {trace : Array TraceEntry} (ht : trace.size ≤ e.trace.size) :
    { e with trace }.Within l k :=
  ⟨h.limits, h.stack, Nat.le_trans ht h.trace, h.frames, h.loops⟩

theorem leaveTrace (h : e.Within l k) : e.leaveTrace.Within l k :=
  h.shorter (by simp only [Array.size_pop]; omega)

theorem exceptionValue (h : e.Within l k) (error : Error) : (e.exceptionValue error).2.Within l k := by
  obtain ⟨v, heap, -, hv⟩ := exceptionValue_spec error e
  rw [hv]
  exact h.still rfl rfl

theorem pushThrown (h : e.Within l k) (v : Value) : (e.pushThrown v).Within l (k + 1) := by
  refine ⟨h.limits, ?_, h.trace, h.frames, h.loops⟩
  have hstack := h.stack
  simp only [Engine.pushThrown, Array.size_push]
  omega

theorem unwind (h : e.Within l k) (id : ScopeId) (error : Error) : (e.unwind id error).2.Within l (k + 1) := by
  cases hf : findFrame id e.frames with
  | none =>
    simp only [Engine.unwind, hf]
    exact (h.exceptionValue .unbalancedScope).pushThrown _
  | some found =>
    obtain ⟨frame, frames⟩ := found
    obtain ⟨-, inner, hi⟩ := findFrame_eq_some hf
    have hfewer : { e with frames }.Within l k := by
      refine ⟨h.limits, h.stack, h.trace, Nat.le_trans ?_ h.frames, h.loops⟩
      simp only [hi, List.length_append, List.length_cons]
      omega
    obtain ⟨v, heap, -, hv⟩ := exceptionValue_spec error { e with frames }
    simp only [Engine.unwind, hf, hv]
    have hstack := h.stack
    have htrace := h.trace
    refine ⟨h.limits, ?_, ?_, hfewer.frames, h.loops⟩
    · simp only [Engine.collectSince, Engine.restore, Array.size_push, Array.size_shrink]
      omega
    · simp only [Engine.collectSince, Engine.restore, Array.size_shrink]
      omega

end Within

section Operations

theorem allows_within : Allows (fun _ => True) fun e e' => e.Within l k → e'.Within l k where
  refl _ h := h
  trans h h' hw := h' (h hw)
  touches ht h := by
    cases ht with
    | push v hroom =>
      rw [h.limits] at hroom
      refine ⟨h.limits, ?_, h.trace, h.frames, h.loops⟩
      simp only [Array.size_push]
      omega
    | restack hs => exact h.fewer hs
    | enterTrace entry hroom =>
      rw [h.limits] at hroom
      refine ⟨h.limits, h.stack, ?_, h.frames, h.loops⟩
      simp only [Array.size_push]
      omega
    | retrace ht => exact h.shorter ht
    | enterProtected hroom _ =>
      rw [h.limits] at hroom
      exact ⟨h.limits, h.stack, h.trace, hroom, h.loops⟩
    | leaveProtected hf => exact ⟨h.limits, h.stack, h.trace, Nat.le_trans hf.length_le h.frames, h.loops⟩
    | rescope => exact ⟨h.limits, h.stack, h.trace, h.frames, h.loops⟩
    | alloc | write => exact h.still rfl rfl

theorem push_within (v : Value) : Maintains (Within l k) (push v) := allows_within.push v

theorem enterProtected_within : Maintains (Within l k) enterProtected := allows_within.enterProtected

theorem leaveProtected_within (id : ScopeId) : Maintains (Within l k) (leaveProtected id) :=
  allows_within.leaveProtected id

theorem enterTrace_within (entry : TraceEntry) : Maintains (Within l k) (enterTrace entry) := allows_within.enterTrace entry

theorem guard_within (h : e.Within l k) (id : ScopeId) (r : EStateM.Result Error Engine α) (hr : stateOf r = e) :
    (stateOf (carried (endProtected id r))).Within l k := by
  cases r with
  | error error e₁ =>
    obtain rfl : e₁ = e := hr
    exact (h.unwind id error).carry _
  | ok a e₁ =>
    obtain rfl : e₁ = e := hr
    simp only [endProtected]
    cases hl : leaveProtected id e₁ with
    | ok _ e₂ => exact (leaveProtected_within id).returned h hl
    | error error e₂ =>
      have hleft : e₂.Within l k := (leaveProtected_within id).failed h hl
      exact (hleft.unwind id error).carry _

theorem callNative_within (f : Builtin) (args : List Value) : Maintains (Within l k) (callNative f args) := by
  intro e h
  simp only [callNative]
  cases ht : enterTrace ⟨f.name, "native", 0⟩ e with
  | error error e₁ => exact (enterTrace_within _).failed h ht
  | ok _ e₁ =>
    have htrace : e₁.Within l k := (enterTrace_within _).returned h ht
    have hnative := native_ensures f args e₁
    dsimp only
    cases hn : native f args e₁ with
    | error error e₂ => exact (htrace.keeps (hnative.error hn).2).leaveTrace
    | ok result e₂ =>
      have hkept := htrace.keeps (hnative.ok hn)
      cases result with
      | value v => exact hkept.leaveTrace
      | run closure => exact hkept

end Operations

end Engine

namespace Loop

variable {l : Limits} {k : Nat} {α : Type}

theorem enterCatch_within (frame : CallFrame) (name : String) {e : Engine} (h : e.pop.2.Within l k) :
    (stateOf (simple frame (.enterCatch name) e)).Within l k := by
  have hbind (scope : Handle) (v : Value) : Maintains (Within l k) (do
      EngineM.change (Environment.define · scope name v)
      modify (enterScope scope)) :=
    .bind (allows_within.define scope name v) fun _ e h => ⟨h.limits, h.stack, h.trace, h.frames, h.loops⟩
  exact hbind (Environment.alloc e.heap none (some e.env)).1 e.pop.1
    { e.pop.2 with heap := (Environment.alloc e.heap none (some e.env)).2 } (h.still rfl rfl)

def Within (l : Limits) (k : Nat) (s : Loop) : Prop := s.engine.Within l k

theorem cutScopes_within {e : Engine} (h : e.Within l k) (depth : Nat) : (e.cutScopes depth).Within l k :=
  ⟨h.limits, h.stack, h.trace, h.frames, h.loops⟩

theorem atLine_within {e : Engine} (h : e.Within l k) (line : Nat) : (e.atLine line).Within l k :=
  h.shorter (by simp only [Array.size_modify, Nat.le_refl])

theorem step_within : Maintains (Loop.Within l k) step := step_relates allows_within callNative_within

theorem step_enterCatch_within {e : Engine} {g : CallFrame} {callers : List CallFrame} {name : String}
    (hi : g.unit.code[g.next]? = some (.enterCatch name)) (h : e.Within l (k + 1)) :
    Loop.Within l k (stateOf (step ⟨e, g :: callers⟩)) := by
  have hentered {e : Engine} (h : e.Within l (k + 1)) :
      Ensures (execute { g with next := g.next + 1 } callers (.enterCatch name)) (fun _ => Loop.Within l k)
        (fun _ => Loop.Within l k) ⟨e, { g with next := g.next + 1 } :: callers⟩ := by
    have hsimple := Ensures.of_state (enterCatch_within { g with next := g.next + 1 } name h.popped)
    exact .bind (.within (hsimple.mono (fun _ _ h => .pure h) fun _ _ h => h))
  refine Ensures.state (.get ?_)
  dsimp only
  rw [hi]
  dsimp only
  split
  · exact .bind (.modified (.bind (.modified (hentered (atLine_within h _)))))
  · exact .bind (.modified (hentered h))

end Loop

namespace Machine

variable {l : Limits} {k : Nat}

theorem catch?_within {error : Error} {e : Engine} {frames : List CallFrame} {s : Loop} (h : e.Within l k)
    (hc : Loop.catch? error e frames = some s) : s.engine.Within l (k + 1) := by
  induction frames with
  | nil => cases hc
  | cons frame callers ih =>
    simp only [Loop.catch?] at hc
    split at hc
    · exact ih hc
    · obtain rfl := Option.some.inj hc
      exact h.unwind _ error

theorem leaveLoop_within (entry : Entry) {e : Engine} (h : e.Within l k) : (leaveLoop entry e).Within l k := by
  have hloops : { e with loops := e.loops - 1 }.Within l k :=
    ⟨h.limits, h.stack, h.trace, h.frames, Nat.le_trans (Nat.sub_le _ _) h.loops⟩
  exact hloops.cutStack entry.base

theorem failLoop_within (entry : Entry) (error : Error) {e : Engine} (h : e.Within l k) :
    (failLoop entry error e).2.Within l k := by
  have hloops : { e with loops := e.loops - 1 }.Within l k :=
    ⟨h.limits, h.stack, h.trace, h.frames, Nat.le_trans (Nat.sub_le _ _) h.loops⟩
  have hleft {e : Engine} (h : e.Within l k) : (cutStack entry.base
      { e.cutScopes entry.savedScope with trace := (e.cutScopes entry.savedScope).trace.shrink entry.traceDepth }).Within l k := by
    refine Engine.Within.cutStack ?_ entry.base
    exact (Loop.cutScopes_within h _).shorter (by simp only [Array.size_shrink]; omega)
  simp only [failLoop]
  cases error.carried? with
  | some v => exact hleft hloops
  | none => exact hleft (hloops.exceptionValue error)

theorem raise_within (entry : Entry) (error : Error) (tasks : List Task) {s : Loop} (h : s.engine.Within l 0) :
    (raise entry error tasks s).engine.Within l 0 ∨ ∃ caught, Loop.catch? error s.engine s.frames = some caught ∧
      (raise entry error tasks s).engine.Within l 1 := by
  simp only [raise]
  cases hc : Loop.catch? error s.engine s.frames with
  | some caught => exact .inr ⟨caught, rfl, catch?_within h hc⟩
  | none => exact .inl (failLoop_within entry error h)

theorem start_within (argc : Nat) (tasks : List Task) {e : Engine} (h : e.Within l 0) :
    (start argc tasks e).engine.Within l 0 := by
  simp only [start]
  have hcall : Maintains (Engine.Within l 0) (callSite argc) := allows_within.callSite argc
  cases hs : callSite argc e with
  | error error e₁ => exact hcall.failed h hs
  | ok site e₁ =>
    have hsite : e₁.Within l 0 := hcall.returned h hs
    dsimp only
    cases site.callee with
    | native f =>
      dsimp only
      cases hn : callNative f site.args e₁ with
      | error error e₂ =>
        have hnative : e₂.Within l 0 := (callNative_within f site.args).failed hsite hn
        exact hnative.cutStack site.base
      | ok result e₂ =>
        have hnative : e₂.Within l 0 := (callNative_within f site.args).returned hsite hn
        cases result with
        | value v => exact hnative.cutStack site.base
        | run closure => exact hnative
    | closure unit env =>
      dsimp only
      split
      · exact hsite.cutStack site.base
      · next hroom =>
        rw [hsite.limits] at hroom
        have hloops : { e₁ with loops := e₁.loops + 1 }.Within l 0 :=
          ⟨hsite.limits, hsite.stack, hsite.trace, hsite.frames, Nat.lt_of_not_le hroom⟩
        have henter : Maintains (Engine.Within l 0) (enterClosure unit env site) := allows_within.enterClosure unit env site
        cases hc : enterClosure unit env site { e₁ with loops := e₁.loops + 1 } with
        | ok frame e₂ => exact henter.returned hloops hc
        | error error e₂ => exact failLoop_within _ error (henter.failed hloops hc)

theorem call_within (receiver callee : Value) (args : List Value) (tasks : List Task) {e : Engine} (h : e.Within l 0) :
    (call receiver callee args tasks e).engine.Within l 0 := by
  simp only [call, beginProtected]
  cases hb : enterProtected e with
  | error error e₁ =>
    have henter : e₁.Within l 0 := enterProtected_within.failed h hb
    exact ((henter.exceptionValue error).pushThrown _).carry error
  | ok scope e₁ =>
    have henter : e₁.Within l 0 := enterProtected_within.returned h hb
    dsimp only
    have hpush : Maintains (Engine.Within l 0) (pushAll (callee :: receiver :: args)) := allows_within.pushAll _
    cases hp : pushAll (callee :: receiver :: args) e₁ with
    | error error e₂ => exact hpush.failed henter hp
    | ok _ e₂ => exact start_within args.length _ (hpush.returned henter hp)

def AtCatch (m : Machine) : Prop :=
  ∃ entry g callers name, m.control = .running entry (g :: callers) ∧
    g.unit.code[g.next]? = some (.enterCatch name)

def Unwinds (m : Machine) : Prop :=
  ∃ entry tasks error s caught, m.Strikes entry tasks error s ∧ Loop.catch? error s.engine s.frames = some caught

def Within (l : Limits) (m : Machine) : Prop :=
  m.engine.Within l 0 ∨ m.engine.Within l 1 ∧ m.AtCatch

theorem Strikes.within {m : Machine} {entry : Entry} {tasks : List Task} {error : Error} {s : Loop}
    (hs : m.Strikes entry tasks error s) (h : s.engine.Within l 0) :
    m.step.engine.Within l 0 ∨ m.step.engine.Within l 1 ∧ m.Unwinds := by
  rw [hs.step]
  rcases raise_within entry error tasks h with h | ⟨caught, hc, h⟩
  · exact .inl h
  · exact .inr ⟨h, entry, tasks, error, s, caught, hs, hc⟩

theorem step_running_within {e : Engine} {tasks : List Task} {entry : Entry} {frames : List CallFrame}
    (h : (stateOf (Loop.step ⟨e, frames⟩)).engine.Within l 0) :
    (step ⟨e, tasks, .running entry frames⟩).engine.Within l 0 ∨
      (step ⟨e, tasks, .running entry frames⟩).engine.Within l 1 ∧ Unwinds ⟨e, tasks, .running entry frames⟩ := by
  cases hr : Loop.step ⟨e, frames⟩ with
  | error error s =>
    rw [hr] at h
    exact (Strikes.raised hr).within h
  | ok signal s =>
    rw [hr] at h
    refine .inl ?_
    simp only [step, hr]
    cases signal with
    | proceed => exact h
    | finished v => exact leaveLoop_within entry h
    | evaluate closure base => exact h

theorem step_within {m : Machine} (h : m.Within l) :
    m.step.engine.Within l 0 ∨ m.step.engine.Within l 1 ∧ m.Unwinds := by
  obtain ⟨e, tasks, control⟩ := m
  rcases h with h | ⟨h, entry, g, callers, name, hc, hi⟩
  · cases control with
    | calling receiver callee args => exact .inl (call_within receiver callee args tasks h)
    | running entry frames => exact step_running_within (Loop.step_within ⟨e, frames⟩ h)
    | returning result =>
      cases tasks with
      | nil => exact .inl h
      | cons task tasks =>
        cases task with
        | guard scope =>
          have hguard := guard_within h scope (resultIn e result) (stateOf_resultIn e result)
          refine .inl ?_
          simp only [step, resume]
          cases hr : carried (endProtected scope (resultIn e result)) <;>
          · rw [hr] at hguard
            exact hguard
        | native base => exact .inl ((Engine.Within.leaveTrace h).cutStack base)
        | loop entry frames =>
          cases result with
          | error error => exact Strikes.handed.within h
          | ok v =>
            cases hp : push v e with
            | ok _ e₁ =>
              refine .inl ?_
              simp only [step, resume, hp]
              exact (push_within v).returned h hp
            | error error e₁ => exact (Strikes.unanswered hp).within ((push_within v).failed h hp)
  · obtain rfl : control = _ := hc
    exact step_running_within (Loop.step_enterCatch_within hi h)

section Run

variable {L₀ : Level} {m : Machine}

theorem Orderly.atCatch (h : m.Orderly L₀) (h₀ : m.Recorded fun _ => False) {n : Nat}
    (hu : (Machine.step^[n] m).Unwinds) : (Machine.step^[n] m).step.AtCatch := by
  obtain ⟨entry, tasks, error, s, caught, hs, hc⟩ := hu
  obtain ⟨fl, hfits⟩ := (h.run n).fits
  have hcaught := hfits.caught (h.run n).compiled hs
  rw [hc] at hcaught
  rw [hs.step, raise, hc]
  cases hcaught with
  | @intro up rest g g' cs N e' σ floor r L handler hT hrest hsits hx hu =>
    have hopen : .frame g ∈ (Machine.step^[n] m).allLayers := by
      rw [← map_tower (Machine.step^[n] m).allLayers (Machine.step^[n] m).engine.level]
      have hmem : (.frame g, N) ∈ (Machine.step^[n] m).tower := by
        rw [hT]
        exact List.mem_append_right _ (.head _)
      exact List.mem_map_of_mem hmem
    obtain ⟨a, name, hclause⟩ := h.clause h₀ n hopen hx.handlers
    obtain ⟨next, hg⟩ := hx.works.frame
    have hunit : g'.unit = g.unit := by rw [hg]
    refine ⟨entry, g', cs, name, rfl, ?_⟩
    cases hclause with
    | intro _ _ _ _ hcatch => rw [hunit, hx.next]; exact hcatch

theorem Orderly.within (h : m.Orderly L₀) (h₀ : m.Recorded fun _ => False) (hm : m.engine.Within l 0) (n : Nat) :
    (Machine.step^[n] m).Within l ∧ ((Machine.step^[n] m).engine.Within l 0 ∨ ∃ j, n = j + 1 ∧ (Machine.step^[j] m).Unwinds) := by
  induction n with
  | zero => exact ⟨.inl hm, .inl hm⟩
  | succ n ih =>
    rw [Function.iterate_succ_apply']
    rcases step_within ih.1 with hw | ⟨hw, hu⟩
    · exact ⟨.inl hw, .inl hw⟩
    · exact ⟨.inr ⟨hw, h.atCatch h₀ hu⟩, .inr ⟨n, rfl, hu⟩⟩

theorem Orderly.fixed (h : m.Orderly L₀) (n : Nat) : (Machine.step^[n] m).engine.fixed = m.engine.fixed := by
  induction n with
  | zero => rfl
  | succ n ih =>
    rw [Function.iterate_succ_apply', (h.run n).ages.fixed]
    exact ih

end Run

end Machine

def Layer.isEntry : Layer → Bool
  | .entry _ => true
  | _ => false

theorem Stacked.grows {L₀ L : Level} {ls : List Layer} {fl : List Nat} (h : Stacked L₀ ls fl L) :
    L.loops = L₀.loops + ls.countP Layer.isEntry ∧ L₀.trace <+: L.trace := by
  induction h with
  | host => exact ⟨rfl, List.prefix_rfl⟩
  | guard _ _ ih => exact ⟨by simpa [Layer.isEntry] using ih.1, ih.2⟩
  | native _ t _ ih => exact ⟨by simpa [Layer.isEntry] using ih.1, ih.2.trans (List.prefix_append _ _)⟩
  | entry _ ih =>
    refine ⟨?_, ih.2⟩
    rw [List.countP_cons_of_pos rfl, ← Nat.add_assoc, ← ih.1]
  | frame _ hs _ ih =>
    obtain ⟨t, ht⟩ := hs.trace
    refine ⟨?_, ?_⟩
    · rw [hs.loops, ih.1, List.countP_cons_of_neg (by simp [Layer.isEntry])]
    · rw [ht]
      exact ih.2.trans (List.prefix_append _ _)

def Task.isLoop : Task → Bool
  | .loop _ _ => true
  | .guard _ | .native _ => false

namespace Machine

def loops (m : Machine) : Nat :=
  match m.control with
  | .running _ _ => m.tasks.countP Task.isLoop + 1
  | .calling _ _ _ | .returning _ => m.tasks.countP Task.isLoop

theorem countP_frames (frames : List CallFrame) : (frames.map Layer.frame).countP Layer.isEntry = 0 := by
  rw [List.countP_eq_zero]
  intro x hx
  obtain ⟨g, -, rfl⟩ := List.mem_map.mp hx
  simp [Layer.isEntry]

theorem countP_layers (tasks : List Task) : (layers tasks).countP Layer.isEntry = tasks.countP Task.isLoop := by
  induction tasks with
  | nil => rfl
  | cons task tasks ih =>
    have hcons : layers (task :: tasks) = task.layers ++ layers tasks := rfl
    rw [hcons, List.countP_append, ih]
    cases task with
    | guard scope => rw [List.countP_cons_of_neg (by simp [Task.isLoop])]; exact Nat.zero_add _
    | native base => rw [List.countP_cons_of_neg (by simp [Task.isLoop])]; exact Nat.zero_add _
    | loop entry frames =>
      rw [List.countP_cons_of_pos rfl, Task.layers, List.countP_append, countP_frames]
      simp only [Layer.isEntry, List.countP_singleton, if_true]
      omega

theorem Fits.grows {L₀ : Level} {fl : List Nat} {m : Machine} (h : Fits L₀ fl m) :
    m.engine.level.loops = L₀.loops + m.loops ∧ L₀.trace <+: m.engine.level.trace := by
  obtain ⟨e, tasks, control⟩ := m
  cases control with
  | running entry frames =>
    have hcount (frames : List CallFrame) : (frames.map Layer.frame ++ .entry entry :: layers tasks).countP Layer.isEntry =
        loops ⟨e, tasks, .running entry frames⟩ := by
      rw [List.countP_append, countP_frames, List.countP_cons_of_pos rfl, countP_layers, Nat.zero_add]
      rfl
    cases h with
    | @intro _ frame callers fl L σ floor s hst hs hw =>
      obtain ⟨hloops, htrace⟩ := hst.grows
      obtain ⟨t, ht⟩ := hs.trace
      rw [hcount callers] at hloops
      refine ⟨hs.loops.trans hloops, ?_⟩
      show L₀.trace <+: e.level.trace
      rw [ht]
      exact htrace.trans (List.prefix_append _ _)
    | @idle _ _ L extra hst he =>
      obtain ⟨hloops, htrace⟩ := hst.grows
      rw [show (Layer.entry entry :: layers tasks).countP Layer.isEntry = _ from hcount []] at hloops
      show e.level.loops = _ ∧ _ <+: e.level.trace
      rw [he]
      exact ⟨hloops, htrace⟩
  | calling receiver callee args =>
    obtain ⟨hloops, htrace⟩ := Stacked.grows h
    rw [countP_layers] at hloops
    exact ⟨hloops, htrace⟩
  | returning result =>
    cases result with
    | ok v =>
      obtain ⟨hloops, htrace⟩ := Stacked.grows h
      rw [countP_layers] at hloops
      exact ⟨hloops, htrace⟩
    | error error =>
      obtain ⟨-, L, extra, hst, he, -⟩ := h
      obtain ⟨hloops, htrace⟩ := hst.grows
      rw [countP_layers] at hloops
      show e.level.loops = _ ∧ _ <+: e.level.trace
      rw [he]
      exact ⟨hloops, htrace⟩

end Machine

end ScriptEngine
