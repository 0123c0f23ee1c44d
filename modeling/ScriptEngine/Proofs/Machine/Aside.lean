import Mathlib.Logic.Function.Iterate
import ScriptEngine.Machine
import ScriptEngine.Proofs.Engine.Aside

namespace ScriptEngine

open Engine

namespace Engine

theorem callSite_mirrors {f : Engine → Engine} (hs : ∀ e, (f e).stack = e.stack)
    (hc : ∀ e v, (f e).callee v = e.callee v) (argc : Nat) : Mirrors f (callSite argc) (callSite argc) := by
  refine .get fun e => ?_
  simp only [hs, hc]
  split
  · refine .bind (.throw _) fun _ => ?_
    split
    · exact .throw _
    · exact .pure _
  · split
    · exact .throw _
    · exact .pure _

theorem callSite_detached (argc : Nat) : Detached (callSite argc) := by
  intro books count
  apply callSite_mirrors
  · exact fun _ => rfl
  · exact fun _ _ => rfl

theorem openScope_detached (unit : CodeUnit) (env : Handle) (args : List Value) :
    Detached (openScope unit env args) := by
  unfold openScope
  split
  · exact .pure _
  · exact .bind (.modifyGet fun _ _ _ => rfl) fun scope => .bind (change_detached _) fun _ => .pure _

theorem enterClosure_detached (unit : CodeUnit) (env : Handle) (site : CallSite) :
    Detached (enterClosure unit env site) := by
  refine .get (fun _ _ _ => rfl) fun e => .bind (openScope_detached unit env site.args) fun scope => ?_
  refine .get (fun _ _ _ => rfl) fun e' => ?_
  split
  · exact .bind (push_detached _) fun _ => .bind (enterTrace_detached _) fun _ => .get (fun _ _ _ => rfl) fun e =>
      .bind (.modified fun _ _ _ => rfl) fun _ => .pure _
  · exact .bind (enterTrace_detached _) fun _ => .get (fun _ _ _ => rfl) fun e =>
      .bind (.modified fun _ _ _ => rfl) fun _ => .pure _

end Engine

namespace Machine

theorem pushAll_detached (values : List Value) : Detached (pushAll values) := by
  induction values with
  | nil => exact .pure _
  | cons v values ih => exact .bind (push_detached v) fun _ => ih

end Machine

namespace Loop

theorem leaveAll_detached (handlers : List Handler) : Detached (leaveAll handlers) := by
  induction handlers with
  | nil => exact .pure _
  | cons handler handlers ih => exact .bind (leaveProtected_detached _) fun _ => ih

theorem simple_detached (frame : CallFrame) (instr : Instr) : Detached (simple frame instr) := by
  cases instr with
  | undefined | null | boolean | number | string | this => exact push_detached _
  | getVar name => exact .get (fun _ _ _ => rfl) fun e => .bind (ask_detached _) fun v => push_detached v
  | setVar name => exact .bind peek_detached fun v => .get (fun _ _ _ => rfl) fun e => change_detached _
  | defineVar name => exact .bind popped_detached fun v => change_detached _
  | declareVar name => exact change_detached (Environment.declare · frame.scope name)
  | closure index =>
    simp only [simple]
    cases frame.unit.functions[index]? with
    | none => exact .throw _
    | some unit =>
      exact .get (fun _ _ _ => rfl) fun e => .bind (.modifyGet fun _ _ _ => rfl) fun v => push_detached v
  | newObject => exact .bind (.modifyGet fun _ _ _ => rfl) fun v => push_detached v
  | initProp name => exact .bind popped_detached fun v => .bind peek_detached fun t => change_detached _
  | getProp name => exact .bind popped_detached fun t => .bind (ask_detached _) fun v => push_detached v
  | setProp name =>
    exact .bind popped_detached fun v => .bind popped_detached fun t => .bind (change_detached _) fun _ =>
      push_detached v
  | getIndex =>
    exact .bind popped_detached fun k => .bind popped_detached fun t => .get (fun _ _ _ => rfl) fun e =>
      .bind (ask_detached _) fun v => push_detached v
  | setIndex =>
    exact .bind popped_detached fun v => .bind popped_detached fun k => .bind popped_detached fun t =>
      .get (fun _ _ _ => rfl) fun e => .bind (change_detached _) fun _ => push_detached v
  | getMethod name =>
    exact .bind popped_detached fun t => .bind (ask_detached _) fun v => .bind (push_detached v) fun _ =>
      push_detached t
  | pop => exact .bind popped_detached fun v => .pure _
  | setCompletion =>
    refine .bind popped_detached fun v => ?_
    cases frame.completion with
    | none => exact .pure _
    | some slot => exact .modified fun _ _ _ => rfl
  | negate => exact .bind popped_detached fun v => push_detached _
  | not => exact .bind popped_detached fun v => push_detached _
  | typeof => exact .bind popped_detached fun v => .get (fun _ _ _ => rfl) fun e => push_detached _
  | binary op =>
    exact .bind popped_detached fun r => .bind popped_detached fun l => .get (fun _ _ _ => rfl) fun e => push_detached _
  | throw => exact .bind popped_detached fun v => .get (fun _ _ _ => rfl) fun e => .throw _
  | enterCatch name =>
    refine .bind popped_detached fun v books count e => ?_
    have hrest (env : Handle) : Detached (do
        EngineM.change (Environment.define · env name v)
        modify (enterScope env) : EngineM Unit) :=
      .bind (change_detached _) fun _ => .modified fun _ _ _ => rfl
    exact hrest (Environment.alloc e.heap none (some e.env)).1 books count
      { e with heap := (Environment.alloc e.heap none (some e.env)).2 }
  | exitCatch =>
    refine .modified fun e books count => ?_
    have hscopes : (e.aside books count).scopes = e.scopes := rfl
    simp only [leaveScope, hscopes]
    cases e.scopes.back? <;> rfl
  | call | jump | jumpIfFalse | jumpIfFalseKeep | jumpIfTrueKeep | «return» | «try» | leave => exact .pure _

def embed (books : Ledger → Ledger) (count : Nat → Nat) (outer : List CallFrame) (s : Loop) : Loop :=
  ⟨s.engine.aside books count, s.frames ++ outer⟩

section Embed

variable {α : Type} {books : Ledger → Ledger} {count : Nat → Nat} {outer : List CallFrame} {x : EngineM α}

theorem embed_nil (s : Loop) : embed books count [] s = ⟨s.engine.aside books count, s.frames⟩ := by
  rw [embed, List.append_nil]

theorem within_mirrors (hx : Detached x) : Mirrors (embed books count outer) (within x) (within x) := by
  intro s
  have hs := hx books count s.engine
  simp only [within, embed, hs]
  cases x s.engine <;> rfl

theorem update_mirrors {f : Engine → Engine} (h : ∀ e, f (e.aside books count) = (f e).aside books count) :
    Mirrors (embed books count outer) (update f) (update f) :=
  .modified fun s => by simp only [embed, h]

theorem setFrames_mirrors (frames : List CallFrame) :
    Mirrors (embed books count outer) (setFrames frames) (setFrames (frames ++ outer)) :=
  .modified fun _ => rfl

theorem returnFrom_mirrors (frame : CallFrame) {callers : List CallFrame} (hc : outer = [] ∨ callers ≠ [])
    (returned : Option Value) :
    Mirrors (embed books count outer) (returnFrom frame callers returned)
      (returnFrom frame (callers ++ outer) returned) := by
  have hempty : (callers ++ outer).isEmpty = callers.isEmpty := by
    rcases hc with rfl | hc
    · rw [List.append_nil]
    · cases callers with
      | nil => exact absurd rfl hc
      | cons g gs => rfl
  refine .bind (setFrames_mirrors callers) fun _ => .bind (within_mirrors (leaveAll_detached _)) fun _ =>
    .get fun s => ?_
  refine .bind (update_mirrors fun _ => rfl) fun _ => ?_
  rw [hempty]
  split
  · exact .pure _
  · exact .bind (update_mirrors fun _ => rfl) fun _ => .bind (within_mirrors (push_detached _)) fun _ => .pure _

theorem call_mirrors (callers : List CallFrame) (argc : Nat) :
    Mirrors (embed books count outer) (call callers argc) (call (callers ++ outer) argc) := by
  refine .bind (within_mirrors (callSite_detached argc)) fun site => ?_
  cases site.callee with
  | closure unit env =>
    exact .bind (within_mirrors (enterClosure_detached unit env site)) fun frame =>
      .bind (setFrames_mirrors (frame :: callers)) fun _ => .pure _
  | native f =>
    refine .get fun s => ?_
    have hnative : callNative f site.args (embed books count outer s).engine =
        mapState (aside books count) (callNative f site.args s.engine) :=
      callNative_detached f site.args books count s.engine
    rw [hnative]
    cases callNative f site.args s.engine with
    | error error e => exact .bind (fun _ => rfl) fun _ => .throw _
    | ok result e =>
      cases result with
      | run closure => exact .bind (fun _ => rfl) fun _ => .pure _
      | value v =>
        exact .bind (fun _ => rfl) fun _ => .bind (within_mirrors (push_detached v)) fun _ => .pure _

theorem execute_mirrors (frame : CallFrame) {callers : List CallFrame} {instr : Instr}
    (hc : outer = [] ∨ callers ≠ [] ∨ instr ≠ .return) :
    Mirrors (embed books count outer) (execute frame callers instr) (execute frame (callers ++ outer) instr) := by
  have hgoto (target : Nat) :
      Mirrors (embed books count outer) (goto frame callers target) (goto frame (callers ++ outer) target) :=
    setFrames_mirrors _
  have hpop : Mirrors (embed books count outer) (within popped) (within popped) := within_mirrors popped_detached
  have hpeek : Mirrors (embed books count outer) (within peek) (within peek) := within_mirrors peek_detached
  have hsimple (instr : Instr) : Mirrors (embed books count outer)
      (within (simple frame instr) >>= fun _ => pure Signal.proceed)
      (within (simple frame instr) >>= fun _ => pure Signal.proceed) :=
    .bind (within_mirrors (simple_detached frame instr)) fun _ => .pure _
  cases instr with
  | call argc => exact call_mirrors (frame :: callers) argc
  | jump target => exact .bind (hgoto target) fun _ => .pure _
  | jumpIfFalse target =>
    refine .bind hpop fun v => ?_
    split
    · exact .bind (hgoto target) fun _ => .pure _
    · exact .bind (.pure _) fun _ => .pure _
  | jumpIfFalseKeep target =>
    refine .bind hpeek fun v => ?_
    split
    · exact .bind (.bind hpop fun _ => .pure _) fun _ => .pure _
    · exact .bind (hgoto target) fun _ => .pure _
  | jumpIfTrueKeep target =>
    refine .bind hpeek fun v => ?_
    split
    · exact .bind (hgoto target) fun _ => .pure _
    · exact .bind (.bind hpop fun _ => .pure _) fun _ => .pure _
  | «return» =>
    have hc : outer = [] ∨ callers ≠ [] := by
      rcases hc with hc | hc | hc
      · exact .inl hc
      · exact .inr hc
      · exact absurd rfl hc
    exact .bind hpop fun v => returnFrom_mirrors frame hc (some v)
  | «try» catchAt exitAt =>
    exact .bind (within_mirrors enterProtected_detached) fun scope => .bind (setFrames_mirrors (_ :: callers)) fun _ =>
      .pure _
  | leave =>
    simp only [execute]
    cases frame.handlers with
    | nil => exact .throw _
    | cons handler handlers =>
      exact .bind (setFrames_mirrors (_ :: callers)) fun _ =>
        .bind (within_mirrors (leaveProtected_detached _)) fun _ =>
          .bind (setFrames_mirrors (_ :: callers)) fun _ => .pure _
  | _ => exact hsimple _

end Embed

end Loop

namespace CallFrame

def following (g : CallFrame) : CallFrame := { g with next := g.next + 1 }

def reached (g : CallFrame) (e : Engine) : Engine :=
  match g.unit.lines[g.next]? with
  | some line => e.atLine line
  | none => e

def Returns (g : CallFrame) : Prop :=
  g.unit.code[g.next]? = none ∨ g.unit.code[g.next]? = some .return

theorem reached_aside (g : CallFrame) (books : Ledger → Ledger) (count : Nat → Nat) (e : Engine) :
    g.reached (e.aside books count) = (g.reached e).aside books count := by
  simp only [reached]
  cases g.unit.lines[g.next]? <;> rfl

theorem reached_eq (g : CallFrame) (e : Engine) : ∃ trace, g.reached e = { e with trace } := by
  simp only [reached]
  cases g.unit.lines[g.next]? with
  | none => exact ⟨e.trace, rfl⟩
  | some line => exact ⟨_, rfl⟩

theorem reached_stack (g : CallFrame) (e : Engine) : (g.reached e).stack = e.stack := by
  simp only [reached]
  cases g.unit.lines[g.next]? <;> rfl

theorem reached_callee (g : CallFrame) (e : Engine) (v : Value) : (g.reached e).callee v = e.callee v := by
  simp only [reached]
  cases g.unit.lines[g.next]? <;> rfl

theorem reached_heap (g : CallFrame) (e : Engine) : (g.reached e).heap = e.heap := by
  simp only [reached]
  cases g.unit.lines[g.next]? <;> rfl

theorem reached_limits (g : CallFrame) (e : Engine) : (g.reached e).limits = e.limits := by
  simp only [reached]
  cases g.unit.lines[g.next]? <;> rfl

theorem size_reached_trace (g : CallFrame) (e : Engine) : (g.reached e).trace.size = e.trace.size := by
  simp only [reached]
  cases g.unit.lines[g.next]? with
  | none => rfl
  | some line => simp [atLine]

theorem reached_tally (g : CallFrame) (e : Engine) : (g.reached e).tally = e.tally := by
  simp only [reached]
  cases g.unit.lines[g.next]? <;> rfl

end CallFrame

namespace Loop

variable {books : Ledger → Ledger} {count : Nat → Nat} {outer : List CallFrame}

theorem step_eq (e : Engine) (g : CallFrame) (callers : List CallFrame) :
    step ⟨e, g :: callers⟩ =
      match g.unit.code[g.next]? with
      | none => returnFrom g callers none ⟨e, g :: callers⟩
      | some instr => execute g.following callers instr ⟨g.reached e, g.following :: callers⟩ := by
  show (match g.unit.code[g.next]? with | none => _ | some instr => _ : LoopM Signal) ⟨e, g :: callers⟩ = _
  cases g.unit.code[g.next]? with
  | none => rfl
  | some instr =>
    dsimp only [CallFrame.reached]
    cases g.unit.lines[g.next]? <;> rfl

theorem step_mirrors {g : CallFrame} {callers : List CallFrame} (hc : outer = [] ∨ callers ≠ [] ∨ ¬ g.Returns)
    (e : Engine) : step ⟨e.aside books count, g :: callers ++ outer⟩ =
      mapState (embed books count outer) (step ⟨e, g :: callers⟩) := by
  rw [List.cons_append, step_eq, step_eq]
  cases hi : g.unit.code[g.next]? with
  | none =>
    have hc : outer = [] ∨ callers ≠ [] := by
      rcases hc with hc | hc | hc
      · exact .inl hc
      · exact .inr hc
      · exact absurd (.inl hi) hc
    exact returnFrom_mirrors g hc none ⟨e, g :: callers⟩
  | some instr =>
    have hc : outer = [] ∨ callers ≠ [] ∨ instr ≠ .return := by
      rcases hc with hc | hc | hc
      · exact .inl hc
      · exact .inr (.inl hc)
      · exact .inr (.inr fun h => hc (.inr (by rw [hi, h])))
    rw [g.reached_aside]
    exact execute_mirrors g.following hc ⟨g.reached e, g.following :: callers⟩

theorem step_aside (e : Engine) (frames : List CallFrame) :
    step ⟨e.aside books count, frames⟩ = mapState (embed books count []) (step ⟨e, frames⟩) := by
  cases frames with
  | nil => rfl
  | cons g callers => simpa using step_mirrors (.inl rfl) e

theorem catch?_embed (error : Error) (e : Engine) (frames : List CallFrame) :
    catch? error (e.aside books count) (frames ++ outer) =
      match catch? error e frames with
      | some s => some (embed books count outer s)
      | none => catch? error (e.aside books count) outer := by
  induction frames with
  | nil => rfl
  | cons g callers ih =>
    simp only [List.cons_append, catch?]
    cases g.handlers with
    | nil => exact ih
    | cons handler handlers =>
      simp only [unwind_aside]
      rfl

theorem catch?_aside (error : Error) (e : Engine) (frames : List CallFrame) :
    catch? error (e.aside books count) frames = (catch? error e frames).map (embed books count []) := by
  have hc := @catch?_embed books count [] error e frames
  rw [List.append_nil] at hc
  rw [hc]
  cases catch? error e frames <;> rfl

theorem step_tally (s : Loop) : (stateOf (step s)).engine.tally = s.engine.tally := by
  have hsame : step s = mapState (embed (fun _ => s.engine.ledger) (fun _ => s.engine.loops) []) (step s) :=
    @step_aside (fun _ => s.engine.ledger) (fun _ => s.engine.loops) s.engine s.frames
  rw [hsame]
  cases step s <;> rfl

theorem catch?_tally {error : Error} {e : Engine} {frames : List CallFrame} {s : Loop}
    (h : catch? error e frames = some s) : s.engine.tally = e.tally := by
  have hsame : catch? error e frames = (catch? error e frames).map (embed (fun _ => e.ledger) (fun _ => e.loops) []) :=
    @catch?_aside (fun _ => e.ledger) (fun _ => e.loops) error e frames
  rw [h] at hsame
  rw [Option.some.inj hsame]
  rfl

end Loop

def loopsIn : List Task → Nat
  | [] => 0
  | .loop _ _ :: tasks => loopsIn tasks + 1
  | .guard _ :: tasks | .native _ :: tasks => loopsIn tasks

namespace Machine

def nested : Machine → Nat
  | ⟨_, tasks, .running _ _⟩ => loopsIn tasks + 1
  | ⟨_, tasks, .calling _ _ _⟩ | ⟨_, tasks, .returning _⟩ => loopsIn tasks

def Tallies (l : Ledger) (n : Nat) (m : Machine) : Prop :=
  m.engine.tally = (l, n + m.nested)

variable {l : Ledger} {n : Nat} {tasks : List Task}

theorem failLoop_tally (entry : Entry) (error : Error) (e : Engine) :
    (failLoop entry error e).2.tally = (e.ledger, e.loops - 1) := by
  simp only [failLoop]
  cases error.carried? with
  | some v => rfl
  | none =>
    exact tally_of_aside { e with loops := e.loops - 1 } fun books count => exceptionValue_aside books count error _

theorem raise_tallies (entry : Entry) (error : Error) {s : Loop} (hs : s.engine.tally = (l, n + (loopsIn tasks + 1))) :
    Tallies l n (raise entry error tasks s) := by
  simp only [raise]
  split
  · rename_i hc
    exact (Loop.catch?_tally hc).trans hs
  · obtain ⟨hl, hn⟩ := tally_eq.mp hs
    refine (failLoop_tally entry error s.engine).trans ?_
    rw [hl, hn]
    rfl

theorem start_tallies (argc : Nat) {e : Engine} (he : e.tally = (l, n + loopsIn tasks)) :
    Tallies l n (start argc tasks e) := by
  simp only [start]
  cases hsite : callSite argc e with
  | error error e₁ => exact ((callSite_detached argc).tally_error hsite).trans he
  | ok site e₁ =>
    have he₁ := ((callSite_detached argc).tally_ok hsite).trans he
    dsimp only
    cases site.callee with
    | native f =>
      dsimp only
      cases hn : callNative f site.args e₁ with
      | error error e₂ => exact ((callNative_detached f _).tally_error hn).trans he₁
      | ok result e₂ =>
        have he₂ := ((callNative_detached f _).tally_ok hn).trans he₁
        cases result with
        | value v => exact he₂
        | run closure => exact he₂
    | closure unit env =>
      dsimp only
      split
      · exact he₁
      · obtain ⟨hl, hn⟩ := tally_eq.mp he₁
        have hdeeper : Engine.tally { e₁ with loops := e₁.loops + 1 } = (l, n + (loopsIn tasks + 1)) :=
          tally_eq.mpr ⟨hl, congrArg (· + 1) hn⟩
        cases hframe : enterClosure unit env site { e₁ with loops := e₁.loops + 1 } with
        | ok frame e₂ => exact ((enterClosure_detached unit env site).tally_ok hframe).trans hdeeper
        | error error e₂ =>
          exact raise_tallies _ error (((enterClosure_detached unit env site).tally_error hframe).trans hdeeper)

theorem call_tallies (receiver callee : Value) (args : List Value) {e : Engine}
    (he : e.tally = (l, n + loopsIn tasks)) :
    Tallies l n (call receiver callee args tasks e) := by
  simp only [call]
  cases hb : beginProtected e with
  | error error e₁ =>
    have hcarry := tally_of_aside e₁ fun books count => carry_aside books count error e₁
    exact hcarry.trans ((beginProtected_detached.tally_error hb).trans he)
  | ok scope e₁ =>
    have he₁ := (beginProtected_detached.tally_ok hb).trans he
    dsimp only
    cases hp : pushAll (callee :: receiver :: args) e₁ with
    | error error e₂ => exact ((pushAll_detached _).tally_error hp).trans he₁
    | ok _ e₂ => exact start_tallies args.length (((pushAll_detached _).tally_ok hp).trans he₁)

theorem resume_tallies (result : Except Error Value) (task : Task) {e : Engine}
    (he : e.tally = (l, n + loopsIn (task :: tasks))) : Tallies l n (resume result tasks e task) := by
  cases task with
  | guard scope =>
    have hended : (stateOf (carried (endProtected scope (resultIn e result)))).tally = e.tally := by
      rw [carried_tally, endProtected_tally]
      cases result <;> rfl
    simp only [resume]
    cases hr : carried (endProtected scope (resultIn e result)) <;>
    · rw [hr] at hended
      exact hended.trans he
  | native base => exact he
  | loop entry frames =>
    cases result with
    | error error => exact raise_tallies entry error he
    | ok v =>
      simp only [resume]
      cases hp : push v e with
      | ok _ e₁ => exact ((push_detached v).tally_ok hp).trans he
      | error error e₁ => exact raise_tallies entry error (((push_detached v).tally_error hp).trans he)

theorem Tallies.step {m : Machine} (h : Tallies l n m) : Tallies l n m.step := by
  obtain ⟨e, tasks, control⟩ := m
  cases control with
  | running entry frames =>
    have hs := Loop.step_tally ⟨e, frames⟩
    simp only [Machine.step]
    cases hstep : Loop.step ⟨e, frames⟩ with
    | error error s =>
      rw [hstep] at hs
      exact raise_tallies entry error (hs.trans h)
    | ok signal s =>
      rw [hstep] at hs
      have hs := hs.trans h
      cases signal with
      | proceed => exact hs
      | evaluate closure base => exact hs
      | finished v =>
        obtain ⟨hl, hn⟩ := tally_eq.mp hs
        exact tally_eq.mpr ⟨hl, congrArg (· - 1) hn⟩
  | calling receiver callee args => exact call_tallies receiver callee args h
  | returning result =>
    cases tasks with
    | nil => exact h
    | cons task tasks => exact resume_tallies result task h

theorem Tallies.steps {m : Machine} (h : Tallies l n m) (k : Nat) : Tallies l n (Machine.step^[k] m) := by
  induction k generalizing m with
  | zero => exact h
  | succ k ih => exact ih h.step

end Machine

end ScriptEngine
