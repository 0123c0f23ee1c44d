import ScriptEngine.Proofs.Engine.Create
import ScriptEngine.Proofs.Machine.Footprint

namespace ScriptEngine.Machine

open Engine

variable {L₀ L : Level} {fl : List Nat} {e : Engine} {tasks : List Task}

def Moves (fl fl' : List Nat) (m : Machine) : Prop :=
  fl' <:+ fl ∨ fl' = m.engine.level.stack.length :: fl

def Steps (L₀ : Level) (fl : List Nat) (e : Engine) (m : Machine) : Prop :=
  e.Ages 2 m.engine ∧ ∃ fl', Moves fl fl' m ∧ Fits L₀ fl' m

theorem steps_raise {entry : Entry} {error : Error} {s : Loop} {fl' : List Nat} (ha : e.Ages 1 s.engine)
    (hfl : fl' <:+ fl) (hs : Loop.Struck L₀ (.entry entry :: layers tasks) fl' s)
    (hi : error.isInternal = false) : Steps L₀ fl e (raise entry error tasks s) := by
  obtain ⟨ha', fl'', hfl', hf⟩ := raise_fits hs hi
  exact ⟨ha.trans ha', fl'', .inl (hfl'.trans hfl), hf⟩

theorem steps_failed {error : Error} (hi : error.isInternal = false) {e' : Engine} (ha : e.Ages 2 e')
    (hst : Stacked L₀ (layers tasks) fl L) (hl : e'.level = L) :
    Steps L₀ fl e ⟨e', tasks, .returning (.error error)⟩ :=
  ⟨ha, fl, .inl List.suffix_rfl, hi, L, [], hst, by rw [hl, List.append_nil], .inl rfl⟩

theorem steps_running {entry : Entry} {frames : List CallFrame} (hh : e.heap.OnlyCompiled)
    (h : Loop.Runs L₀ (.entry entry :: layers tasks) fl ⟨e, frames⟩) :
    Steps L₀ fl e (step ⟨e, tasks, .running entry frames⟩) := by
  have hx := Loop.step_ensures hh h
  cases hs : Loop.step ⟨e, frames⟩ with
  | error error s =>
    obtain ⟨hi, ha, fl', hfl, hst⟩ := hx.error hs
    simp only [step, hs]
    exact steps_raise ha hfl hst hi
  | ok signal s =>
    have hk := hx.ok hs
    cases signal with
    | proceed =>
      obtain ⟨ha, fl', hfl, hr⟩ := hk
      simp only [step, hs]
      exact ⟨ha.mono (by omega), fl', hfl, hr⟩
    | finished v =>
      obtain ⟨ha, fl', L, extra, hfl, hst, hl⟩ := hk
      simp only [step, hs]
      refine ⟨⟨ha.heap.mono (by omega), ha.serial, ha.fixed⟩, fl', .inl hfl, ?_⟩
      generalize hM : L = M at hst
      cases hst with
      | @entry _ _ L₁ hst =>
        have hlev : (leaveLoop ⟨L₁.stack.length, L₁.scopes.length, L₁.trace.length⟩ s.engine).level = L₁ := by
          rw [leaveLoop, level_cutStack, level_loops, show s.engine.loops = L.loops from congrArg Level.loops hl,
            hl, hM]
          simp
        show Stacked _ _ _ (leaveLoop _ _).level
        rw [hlev]
        exact hst
    | evaluate closure base =>
      obtain ⟨ha, hst⟩ := hk
      simp only [step, hs]
      refine ⟨ha.mono (by omega), fl, .inl List.suffix_rfl, ?_⟩
      show Stacked _ (layers (.native base :: .loop entry s.frames :: tasks)) _ _
      simpa [layers, Task.layers] using hst

section Start

variable {e₀ : Engine} {ops : List Value} {scope : ScopeId}

theorem level_cut_call {e' : Engine} (he : e.level = { L with stack := L.stack ++ ops }) (hk : e.Keeps 1 e') :
    (e'.cutStack L.stack.length).level = L := by
  rw [level_cutStack, hk.2, he]
  simp

theorem steps_start_native {argc : Nat} {receiver : Value} {args : List Value} {f : Builtin}
    (hst : Stacked L₀ (layers tasks) fl L) (he : e.level = { L with stack := L.stack ++ ops }) (ha : e₀.Ages 0 e)
    (hc : callSite argc e = .ok ⟨L.stack.length, receiver, args, .native f⟩ e) :
    Steps L₀ fl e₀ (start argc tasks e) := by
  have hx := callNative_ensures f args e
  have hages {e' : Engine} (ha' : e.Ages 1 e') : e₀.Ages 2 (e'.cutStack L.stack.length) := by
    have hcut : e.Ages 1 (e'.cutStack L.stack.length) := ⟨ha'.heap, ha'.serial, ha'.fixed⟩
    exact (ha.after hcut).mono (by omega)
  cases hn : callNative f args e with
  | error error e₁ =>
    obtain ⟨hi, hk⟩ := hx.error hn
    simp only [start, hc, hn]
    exact steps_failed hi (hages hk.1) hst (level_cut_call he hk)
  | ok result e₁ =>
    have hk := hx.ok hn
    cases result with
    | value v =>
      simp only [start, hc, hn]
      refine ⟨hages hk.1, fl, .inl List.suffix_rfl, ?_⟩
      show Stacked _ _ _ (e₁.cutStack L.stack.length).level
      rw [level_cut_call he hk]
      exact hst
    | run closure =>
      obtain ⟨ha', t, hl⟩ := hk
      simp only [start, hc, hn]
      refine ⟨(ha.after ha').mono (by omega), fl, .inl List.suffix_rfl, ?_⟩
      have hnat := Stacked.native ops t hst
      rw [he] at hl
      rw [← hl] at hnat
      exact hnat

theorem steps_start_closure {argc : Nat} {receiver : Value} {args : List Value} {unit : CodeUnit} {env : Handle}
    (hu : unit.Compiled) (hst : Stacked L₀ (layers tasks) fl L)
    (he : e.level = { L with stack := L.stack ++ ops }) (ho : ops.length = argc + 2) (ha : e₀.Ages 0 e)
    (hc : callSite argc e = .ok ⟨L.stack.length, receiver, args, .closure unit env⟩ e) :
    Steps L₀ fl e₀ (start argc tasks e) := by
  obtain ⟨σ, hσ⟩ := CodeUnit.Compiled.shaped hu
  by_cases hr : e.limits.reentryLimit ≤ e.loops
  · simp only [start, hc, if_pos hr]
    exact steps_failed rfl ⟨ha.heap.mono (by omega), ha.serial, ha.fixed⟩ hst (level_cut_call he ⟨.refl, rfl⟩)
  · have hentry := Stacked.entry hst
    have hdepth : (⟨L.stack.length, e.scopes.size, e.trace.size⟩ : Entry) =
        ⟨L.stack.length, L.scopes.length, L.trace.length⟩ := by
      rw [← length_scopes, ← length_trace, he]
    have hloop : level { e with loops := e.loops + 1 } =
        { { L with loops := L.loops + 1 } with stack := L.stack ++ ops } := by
      rw [level_loops, he, show e.loops = L.loops from congrArg Level.loops he]
    have hages {e' : Engine} {n : Nat} (ha' : Ages { e with loops := e.loops + 1 } n e') : e₀.Ages n e' :=
      ha.after ⟨ha'.heap, ha'.serial, ha'.fixed⟩
    have hx := enterClosure_ensures unit env ⟨L.stack.length, receiver, args, .closure unit env⟩
      { e with loops := e.loops + 1 }
    cases hn : enterClosure unit env ⟨L.stack.length, receiver, args, .closure unit env⟩
        { e with loops := e.loops + 1 } with
    | ok frame e₁ =>
      obtain ⟨ha', receiver', scope', t, hl, rfl⟩ := hx.ok hn
      simp only [start, hc, if_neg hr, hn, hdepth]
      refine ⟨(hages ha').mono (by omega), _ :: fl, .inr rfl, ?_⟩
      have hs := sits_entered (L := { L with loops := L.loops + 1 }) receiver' scope' t hu hσ hloop
        (by omega) rfl
      rw [← hl] at hs
      exact .intro hentry hs ⟨Nat.zero_le _, hσ.start, rfl⟩
    | error error e₁ =>
      obtain ⟨hi, ha', extra, hl⟩ := hx.error hn
      simp only [start, hc, if_neg hr, hn, hdepth]
      refine steps_raise ((hages ha').mono (by omega)) List.suffix_rfl (.outside hentry ?_) hi
      rw [hl, hloop]
      exact ⟨by simp [List.append_assoc], List.prefix_rfl, List.prefix_rfl, rfl, rfl⟩

theorem steps_start {argc : Nat} (hh : e.heap.OnlyCompiled) (hst : Stacked L₀ (layers (.guard scope :: tasks)) fl L)
    (he : e.level = { L with stack := L.stack ++ ops }) (ho : ops.length = argc + 2) (ha : e₀.Ages 0 e) :
    Steps L₀ fl e₀ (start argc (.guard scope :: tasks) e) := by
  have hsite := callSite_ensures (congrArg Level.stack he) ho
  cases hc : callSite argc e with
  | error error e₁ =>
    obtain ⟨hi, rfl⟩ := hsite.error hc
    simp only [start, hc]
    exact ⟨ha.mono (by omega), fl, .inl List.suffix_rfl, hi, L, ops, hst, he, .inr ⟨scope, tasks, rfl⟩⟩
  | ok site e₁ =>
    obtain ⟨rfl, hb, value, hcallee⟩ := hsite.ok hc
    have hcomp := callee_ok hh hcallee
    obtain ⟨base, receiver, args, callee⟩ := site
    obtain rfl : base = L.stack.length := hb
    cases callee with
    | native f => exact steps_start_native hst he ha hc
    | closure unit env => exact steps_start_closure hcomp hst he ho ha hc

end Start

theorem leave_native {values : List Value} {t : TraceEntry}
    (he : e.level = { L with stack := L.stack ++ values, trace := L.trace ++ [t] }) :
    (e.leaveTrace.cutStack L.stack.length).level = L := by
  have hl : e.leaveTrace.level = { e.level with trace := e.level.trace.dropLast } := by
    simp [level, leaveTrace]
  rw [level_cutStack, hl, he]
  simp

theorem pushAll_ensures (values : List Value) (e : Engine) :
    Ensures (pushAll values)
      (fun _ e' => e.Ages 0 e' ∧ e'.level = { e.level with stack := e.level.stack ++ values })
      (fun error e' => error.isInternal = false ∧ e.Ages 0 e' ∧
        ∃ extra, e'.level = { e.level with stack := e.level.stack ++ extra }) e := by
  induction values generalizing e with
  | nil => exact .pure ⟨.refl, by rw [List.append_nil]⟩
  | cons v values ih =>
    rw [← reset_self e]
    refine .bind (.push ((ih _).mono ?_ ?_) ⟨rfl, .refl, [], by rw [List.append_nil]⟩)
    · rintro _ e' ⟨ha, hl⟩
      refine ⟨⟨ha.heap, ha.serial, ha.fixed⟩, ?_⟩
      rw [hl]
      simp [level, reset]
    · rintro error e' ⟨hi, ha, extra, hl⟩
      refine ⟨hi, ⟨ha.heap, ha.serial, ha.fixed⟩, v :: extra, ?_⟩
      rw [hl]
      simp [level, reset]

theorem steps_call (receiver callee : Value) (args : List Value) (hh : e.heap.OnlyCompiled)
    (hst : Stacked L₀ (layers tasks) fl e.level) : Steps L₀ fl e (call receiver callee args tasks e) := by
  cases hb : beginProtected e with
  | error error e₁ =>
    obtain ⟨error', e₂, hc, hi, ha, hl⟩ := carry_begun_error hb
    simp only [call, hb, hc]
    exact steps_failed hi (ha.mono (by omega)) hst hl
  | ok scope e₁ =>
    obtain ⟨frame, rfl, hm, ha, hl⟩ := beginProtected_ok hb
    have hguard : Stacked L₀ (layers (.guard frame.id :: tasks)) fl e₁.level := by
      rw [hl]
      exact .guard hst hm
    have hx := pushAll_ensures (callee :: receiver :: args) e₁
    cases hp : pushAll (callee :: receiver :: args) e₁ with
    | error error e₂ =>
      obtain ⟨hi, ha', extra, hl'⟩ := hx.error hp
      simp only [call, hb, hp]
      exact ⟨(ha.after ha').mono (by omega), fl, .inl List.suffix_rfl, hi, e₁.level, extra, hguard, hl',
        .inr ⟨_, _, rfl⟩⟩
    | ok _ e₂ =>
      obtain ⟨ha', hl'⟩ := hx.ok hp
      simp only [call, hb, hp]
      exact steps_start (hh.evolves (ha.after ha').heap) hguard hl' rfl (ha.after ha')

theorem steps_resume_ok {task : Task} (v : Value) (hst : Stacked L₀ (layers (task :: tasks)) fl e.level) :
    Steps L₀ fl e (resume (.ok v) tasks e task) := by
  generalize hM : e.level = M at hst
  cases task with
  | guard scope =>
    cases hst with
    | @guard _ _ L f hst hm =>
      obtain ⟨e', hg, ha, hl⟩ := guard_ok hM v
      simp only [resume, resultIn, hg]
      exact ⟨ha.mono (by omega), fl, .inl List.suffix_rfl, show Stacked _ _ _ e'.level from hl ▸ hst⟩
  | native base =>
    cases hst with
    | @native _ _ L values t hst =>
      refine ⟨⟨.refl, Nat.le_refl _, rfl⟩, fl, .inl List.suffix_rfl, ?_⟩
      show Stacked _ _ _ (e.leaveTrace.cutStack L.stack.length).level
      rw [leave_native hM]
      exact hst
  | loop entry frames =>
    have hst' : Stacked L₀ (frames.map .frame ++ .entry entry :: layers tasks) fl M := by
      simpa [layers, Task.layers] using hst
    have hx := Loop.push_awaited v (show e.Ages 1 e from .refl) hst' hM List.suffix_rfl
    cases hp : push v e with
    | ok _ e' =>
      obtain ⟨ha, fl', hfl, hr⟩ := hx.ok hp
      simp only [resume, hp]
      exact ⟨ha.mono (by omega), fl', hfl, hr⟩
    | error error e' =>
      obtain ⟨hi, ha, fl', hfl, hstruck⟩ := hx.error hp
      simp only [resume, hp]
      exact steps_raise ha hfl hstruck hi

theorem steps_resume_error {task : Task} {error : Error} {extra : List Value} (hi : error.isInternal = false)
    (hst : Stacked L₀ (layers (task :: tasks)) fl L) (he : e.level = { L with stack := L.stack ++ extra })
    (hx : extra = [] ∨ ∃ scope, task = .guard scope) :
    Steps L₀ fl e (resume (.error error) tasks e task) := by
  cases task with
  | guard scope =>
    generalize hM : L = M at hst
    cases hst with
    | @guard _ _ L f hst hm =>
      obtain ⟨v, e', hg, ha, hl⟩ := guard_error (α := Value) extra hm (by rw [he, hM]) error
      simp only [resume, resultIn, hg]
      exact steps_failed ((Error.isInternal_carrying v error).trans hi) (ha.mono (by omega)) hst hl
  | native base =>
    obtain rfl : extra = [] := hx.resolve_right (by rintro ⟨_, h⟩; cases h)
    rw [List.append_nil] at he
    generalize hM : L = M at hst
    cases hst with
    | @native _ _ L values t hst =>
      exact steps_failed hi ⟨.refl, Nat.le_refl _, rfl⟩ hst (leave_native (he.trans hM))
  | loop entry frames =>
    obtain rfl : extra = [] := hx.resolve_right (by rintro ⟨_, h⟩; cases h)
    rw [List.append_nil] at he
    have hst' : Stacked L₀ (frames.map .frame ++ .entry entry :: layers tasks) fl L := by
      simpa [layers, Task.layers] using hst
    exact steps_raise .refl List.suffix_rfl (.outside hst' (he ▸ .refl _)) hi

theorem steps_step {m : Machine} (hh : m.engine.heap.OnlyCompiled) (h : Fits L₀ fl m) :
    Steps L₀ fl m.engine m.step := by
  obtain ⟨e, tasks, control⟩ := m
  cases control with
  | running entry frames => exact steps_running hh h
  | calling receiver callee args => exact steps_call receiver callee args hh h
  | returning result =>
    cases tasks with
    | nil => exact ⟨.refl, fl, .inl List.suffix_rfl, h⟩
    | cons task tasks =>
      cases result with
      | ok v => exact steps_resume_ok v h
      | error error =>
        obtain ⟨hi, L, extra, hst, he, hx⟩ := h
        refine steps_resume_error hi hst he (hx.imp_right ?_)
        rintro ⟨scope, rest, hg⟩
        exact ⟨scope, (List.cons.inj hg).1⟩

end ScriptEngine.Machine

namespace ScriptEngine

def Control.layers : Control → List Layer
  | .running entry frames => frames.map .frame ++ [.entry entry]
  | .calling _ _ _ | .returning _ => []

namespace Machine

open Engine

variable {L₀ : Level} {fl : List Nat} {m₀ m : Machine}

def allLayers (m : Machine) : List Layer :=
  m.control.layers ++ layers m.tasks

def depth (m : Machine) : Nat :=
  m.allLayers.countP Layer.isFrame

def floors (m : Machine) (fl : List Nat) : List Nat :=
  if fl.length < m.depth then m.engine.stack.size :: fl else fl.drop (fl.length - m.depth)

inductive Run (m₀ : Machine) : List Nat → Machine → Prop
  | start : Run m₀ [] m₀
  | step {fl : List Nat} {m : Machine} : Run m₀ fl m → Run m₀ (m.step.floors fl) m.step

inductive Raises : Machine → Error → Prop
  | inside {e : Engine} {tasks : List Task} {entry : Entry} {frames : List CallFrame} {error : Error}
      {s : Loop} : Loop.step ⟨e, frames⟩ = .error error s → Raises ⟨e, tasks, .running entry frames⟩ error
  | between {e : Engine} {tasks : List Task} {error : Error} :
      Raises ⟨e, tasks, .returning (.error error)⟩ error

theorem Fits.stacked (h : Fits L₀ fl m) :
    fl.length = m.depth ∧
      m.engine.frames.map (·.id) = m.allLayers.flatMap Layer.scopes ++ L₀.frames.map (·.id) := by
  obtain ⟨e, tasks, control⟩ := m
  cases control with
  | running entry frames =>
    cases h with
    | @intro _ frame callers fl L σ floor s hst hs hw =>
      obtain ⟨fs, hfs, hcov⟩ := hs.tries
      have hall : allLayers ⟨e, tasks, .running entry (frame :: callers)⟩ =
          .frame frame :: (callers.map .frame ++ .entry entry :: layers tasks) := by
        simp [allLayers, Control.layers]
      refine ⟨?_, ?_⟩
      · rw [depth, hall, List.countP_cons_of_pos rfl, List.length_cons, hst.length_floors]
      · rw [show e.frames = fs ++ L.frames from hfs, List.map_append, hst.ids, hcov.ids, hall]
        simp [Layer.scopes]
    | @idle _ _ L extra hst he =>
      refine ⟨?_, ?_⟩
      · simpa [depth, allLayers, Control.layers] using hst.length_floors
      · rw [show e.frames = L.frames from congrArg Level.frames he]
        simpa [allLayers, Control.layers] using hst.ids
  | calling receiver callee args => exact ⟨Stacked.length_floors h, Stacked.ids h⟩
  | returning result =>
    cases result with
    | ok v => exact ⟨Stacked.length_floors h, Stacked.ids h⟩
    | error error =>
      obtain ⟨_, L, extra, hst, he, _⟩ := h
      refine ⟨hst.length_floors, ?_⟩
      rw [show e.frames = L.frames from congrArg Level.frames he]
      exact hst.ids

theorem Fits.step (hh : m.engine.heap.OnlyCompiled) (h : Fits L₀ fl m) :
    Fits L₀ (m.step.floors fl) m.step := by
  obtain ⟨_, fl', hm, hf⟩ := steps_step hh h
  have hlen := hf.stacked.1
  suffices hfl : m.step.floors fl = fl' by rwa [hfl]
  rcases hm with ⟨gone, hgone⟩ | rfl
  · have hg : fl.length = gone.length + fl'.length := by rw [← hgone, List.length_append]
    rw [floors, if_neg (by omega), ← hlen, hg, Nat.add_sub_cancel, ← hgone, List.drop_left]
  · rw [floors, if_pos (by rw [← hlen, List.length_cons]; omega)]
    simp [level]

theorem Run.fits (hr : Run m₀ fl m) (hh : m₀.engine.heap.OnlyCompiled) (h : Fits L₀ [] m₀) :
    m.engine.heap.OnlyCompiled ∧ Fits L₀ fl m := by
  induction hr with
  | start => exact ⟨hh, h⟩
  | step _ ih => exact ⟨ih.1.evolves (steps_step ih.1 ih.2).1.heap, ih.2.step ih.1⟩

theorem Fits.raises {error : Error} (hh : m.engine.heap.OnlyCompiled) (h : Fits L₀ fl m)
    (hr : m.Raises error) : error.isInternal = false := by
  cases hr with
  | inside hs => exact ((Loop.step_ensures hh h).error hs).1
  | between => exact h.1

theorem Fits.operands {entry : Entry} {frame : CallFrame} {callers : List CallFrame} (h : Fits L₀ fl m)
    (hc : m.control = .running entry (frame :: callers)) :
    ∃ floor rest argc, fl = floor :: rest ∧
      floor = frame.base + 2 + argc + (if frame.unit.isScript then 1 else 0) ∧
      ∀ instr, frame.unit.code[frame.next]? = some instr →
        floor + instr.operands ≤ m.engine.stack.size := by
  obtain ⟨e, tasks, control⟩ := m
  obtain rfl : control = _ := hc
  cases h with
  | @intro _ _ _ fl L σ floor s hst hs hw =>
    obtain ⟨argc, hfloor⟩ := hs.call
    refine ⟨floor, fl, argc, rfl, hfloor, ?_⟩
    intro instr hi
    have hle := (hs.shaped.flows frame.next instr hi).operands_le
    rw [hw.shape] at hle
    have hsize : e.stack.size = floor + s.height := by
      rw [← hw.height]
      rfl
    exact hsize ▸ Nat.add_le_add_left hle floor

theorem Fits.spares {entry : Entry} {frame : CallFrame} {callers : List CallFrame} (h : Fits L₀ fl m)
    (hc : m.control = .running entry (frame :: callers)) {i : Nat} (hi : frame.Spares m.engine.stack.size i) :
    (stateOf (Loop.step ⟨m.engine, frame :: callers⟩)).engine.stack[i]? = m.engine.stack[i]? := by
  obtain ⟨e, tasks, control⟩ := m
  obtain rfl : control = _ := hc
  cases h with
  | @intro _ _ _ fl L σ floor s hst hs hw =>
    obtain ⟨argc, hfloor⟩ := hs.call
    have hle : floor ≤ e.stack.size := hs.floor_le
    have hbase : frame.base < e.stack.size := by omega
    have hstack := (Loop.step_spares callers hbase hi).state
    simpa [level] using hstack

/-- The protected scopes are those of the try statements and calls that are open, around those of
the host. The instruction that comes next finds its operands above the floor of its frame, which
lies above the callee, the receiver, the arguments and the completion value; what lies below its
operands it leaves in place. No error is raised that only faulty code could raise. -/
structure Sound (host : List ProtectedFrame) (fl : List Nat) (m : Machine) : Prop where
  scopes : m.engine.frames.map (·.id) = m.allLayers.flatMap Layer.scopes ++ host.map (·.id)
  operands : ∀ entry frame callers, m.control = .running entry (frame :: callers) →
    ∃ floor rest argc, fl = floor :: rest ∧
      floor = frame.base + 2 + argc + (if frame.unit.isScript then 1 else 0) ∧
      ∀ instr, frame.unit.code[frame.next]? = some instr →
        floor + instr.operands ≤ m.engine.stack.size
  spares : ∀ entry frame callers, m.control = .running entry (frame :: callers) →
    ∀ i, frame.Spares m.engine.stack.size i →
      (stateOf (Loop.step ⟨m.engine, frame :: callers⟩)).engine.stack[i]? = m.engine.stack[i]?
  errors : ∀ error, m.Raises error → error.isInternal = false

/-- A script loaded into an instance with compiled closures only stays sound in all its runs,
however it is called and whatever it calls. -/
theorem run_of_loaded_script {e e₁ : Engine} {name source : String} {mode : LoadMode}
    {closure receiver : Value} {args : List Value} {fl : List Nat} {m : Machine}
    (hh : e.heap.OnlyCompiled) (hl : load name source mode e = .ok closure e₁)
    (hr : Run ⟨e₁, [], .calling receiver closure args⟩ fl m) : Sound e₁.frames fl m := by
  have hh₁ := hh.evolves ((load_ensures name source mode e).ok hl).1.heap
  have hstart : Fits e₁.level [] ⟨e₁, [], .calling receiver closure args⟩ := .host
  obtain ⟨hhm, hf⟩ := hr.fits hh₁ hstart
  exact ⟨hf.stacked.2, fun _ _ _ hc => hf.operands hc, fun _ _ _ hc _ hi => hf.spares hc hi,
    fun _ hraise => hf.raises hhm hraise⟩

theorem run_of_loaded_try :
    ∃ e closure e₁ fl m, create? .none {} = some e ∧
      load "sample" "try { f(); } catch (e) { e; }" .program e = .ok closure e₁ ∧
      Run ⟨e₁, [], .calling .undefined closure []⟩ fl m ∧ Sound e₁.frames fl m := by
  have hok : (create? .none {}).any (fun e =>
      (valueOf? (load "sample" "try { f(); } catch (e) { e; }" .program e)).isSome) = true := by decide +kernel
  obtain ⟨e, he, hl⟩ := (Option.any_eq_true _ _).mp hok
  obtain ⟨⟨closure, e₁⟩, hv⟩ := Option.isSome_iff_exists.mp hl
  have hload := eq_ok_of_valueOf? hv
  have hr : Run ⟨e₁, [], .calling .undefined closure []⟩ _ _ := .step (.step .start)
  exact ⟨e, closure, e₁, _, _, he, hload, hr, run_of_loaded_script (onlyCompiled_create he) hload hr⟩

end Machine

end ScriptEngine
