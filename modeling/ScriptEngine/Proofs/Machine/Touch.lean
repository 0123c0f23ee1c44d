import ScriptEngine.Machine
import ScriptEngine.Proofs.Engine.Touch

namespace ScriptEngine

namespace Engine

theorem callSite_state (argc : Nat) (e : Engine) : stateOf (callSite argc e) = e := by
  refine Ensures.state (P := (· = e)) (.get ?_)
  split
  · exact .bind (.fault rfl)
  · refine .bind (.pure ?_)
    split
    · exact .fault rfl
    · exact .pure rfl

namespace Allows

variable {P : CodeUnit → Prop} {R : Engine → Engine → Prop}

section Calls

theorem callSite (hR : Allows P R) (argc : Nat) : Relates R id (callSite argc) := by
  intro e
  show R e (stateOf (Engine.callSite argc e))
  rw [callSite_state]
  exact hR.refl e

theorem bindParams (hR : Allows P R) (scope : Handle) (names : List String) (args : List Value) :
    Relates R id (EngineM.change (bindParams scope names args)) := by
  intro e
  show R e (stateOf (EngineM.change (Engine.bindParams scope names args) e))
  rw [change_eq]
  cases hb : Engine.bindParams scope names args e.heap with
  | error fault => exact hR.refl e
  | ok heap =>
    dsimp only [stateOf]
    induction names generalizing args e with
    | nil =>
      cases hb
      exact hR.refl e
    | cons name names ih =>
      obtain ⟨h, hd, hrest⟩ := bind_eq_ok.mp hb
      have hwrites := Environment.define_speaks e.heap scope name (args.headD .undefined)
      rw [hd] at hwrites
      exact hR.trans (hR.touches (.write hwrites)) (ih _ { e with heap := h } hrest)

theorem openScope (hR : Allows P R) (unit : CodeUnit) (env : Handle) (args : List Value) :
    Relates R id (openScope unit env args) := by
  unfold Engine.openScope
  split
  · exact hR.pure _
  · exact hR.bind (fun e => hR.environment e (some env)) fun scope => hR.bind (hR.bindParams scope _ args) fun _ =>
      hR.pure _

theorem enterScope (hR : Allows P R) (scope : Handle) : Relates R id (modify (enterScope scope) : EngineM Unit) :=
  fun _ => hR.touches (.rescope _ _)

theorem enterClosure (hR : Allows P R) (unit : CodeUnit) (env : Handle) (site : CallSite) :
    Relates R id (enterClosure unit env site) := by
  refine .get fun e => hR.bind (hR.openScope unit env site.args) fun scope => .get fun e => ?_
  split
  · exact hR.bind (hR.push _) fun _ => hR.bind (hR.enterTrace _) fun _ => .get fun e =>
      hR.bind (hR.enterScope scope) fun _ => hR.pure _
  · exact hR.bind (hR.enterTrace _) fun _ => .get fun e => hR.bind (hR.enterScope scope) fun _ => hR.pure _

end Calls

section Instructions

variable {frame : CallFrame} {callers : List CallFrame}

theorem simple (hR : Allows P R) (hu : ∀ u ∈ frame.unit.functions, P u) (instr : Instr) :
    Relates R id (Loop.simple frame instr) := by
  cases instr with
  | undefined | null | boolean | number | string | this => exact hR.push _
  | getVar name => exact .get fun e => hR.bind (hR.ask _) fun v => hR.push v
  | setVar name =>
    exact hR.bind hR.peek fun v => .get fun e => hR.write fun h => Environment.assign_speaks h e.env name v _
  | defineVar name => exact hR.bind hR.popped fun v => hR.define frame.scope name v
  | declareVar name => exact hR.write fun h => Environment.declare_speaks h frame.scope name
  | closure index =>
    simp only [Loop.simple]
    cases hi : frame.unit.functions[index]? with
    | none => exact hR.throw _
    | some unit =>
      exact .get fun e => hR.bind (hR.newObject (hu unit (List.mem_of_getElem? hi))) fun v => hR.push v
  | newObject => exact hR.bind (hR.newObject trivial) fun v => hR.push v
  | initProp name => exact hR.bind hR.popped fun v => hR.bind hR.peek fun t => hR.setProperty t name v
  | getProp name => exact hR.bind hR.popped fun t => hR.bind (hR.ask _) fun v => hR.push v
  | setProp name =>
    exact hR.bind hR.popped fun v => hR.bind hR.popped fun t => hR.bind (hR.setProperty t name v) fun _ => hR.push v
  | getIndex =>
    exact hR.bind hR.popped fun key => hR.bind hR.popped fun t => .get fun e => hR.bind (hR.ask _) fun v => hR.push v
  | setIndex =>
    exact hR.bind hR.popped fun v => hR.bind hR.popped fun key => hR.bind hR.popped fun t => .get fun e =>
      hR.bind (hR.setProperty t _ v) fun _ => hR.push v
  | getMethod name =>
    exact hR.bind hR.popped fun t => hR.bind (hR.ask _) fun v => hR.bind (hR.push v) fun _ => hR.push t
  | pop => exact hR.bind hR.popped fun v => hR.pure _
  | setCompletion =>
    refine hR.bind hR.popped fun v => ?_
    cases frame.completion with
    | none => exact hR.pure _
    | some slot => exact fun e => hR.touches (.restack (Nat.le_of_eq Array.size_setIfInBounds))
  | negate | not => exact hR.bind hR.popped fun v => hR.push _
  | typeof => exact hR.bind hR.popped fun v => .get fun e => hR.push _
  | binary op => exact hR.bind hR.popped fun r => hR.bind hR.popped fun l => .get fun e => hR.push _
  | throw => exact hR.bind hR.popped fun v => .get fun e => hR.throw _
  | enterCatch name =>
    refine hR.bind hR.popped fun v e => ?_
    have hrest (scope : Handle) : Relates R id (do
        EngineM.change (Environment.define · scope name v)
        modify (Engine.enterScope scope)) :=
      hR.bind (hR.define scope name v) fun _ => hR.enterScope scope
    exact hR.trans (hR.environment e (some e.env)) (hrest _ { e with heap := (Environment.alloc e.heap none (some e.env)).2 })
  | exitCatch =>
    intro e
    show R e e.leaveScope
    simp only [leaveScope]
    split
    · exact hR.touches (.rescope _ _)
    · exact hR.refl e
  | call | jump | jumpIfFalse | jumpIfFalseKeep | jumpIfTrueKeep | «return» | «try» | leave => exact hR.pure _

theorem pushAll (hR : Allows P R) (values : List Value) : Relates R id (Machine.pushAll values) := by
  induction values with
  | nil => exact hR.pure _
  | cons v values ih => exact hR.bind (hR.push v) fun _ => ih

theorem leaveAll (hR : Allows P R) (handlers : List Handler) : Relates R id (Loop.leaveAll handlers) := by
  induction handlers with
  | nil => exact hR.pure _
  | cons handler handlers ih => exact hR.bind (hR.leaveProtected _) fun _ => ih

theorem cutStack (hR : Allows P R) (e : Engine) (depth : Nat) : R e (e.cutStack depth) :=
  hR.touches (.restack (by simp only [Array.size_shrink]; omega))

theorem leaveFrame (hR : Allows P R) (e : Engine) (depth : Nat) : R e (e.cutScopes depth).leaveTrace := by
  have hscopes : R e (e.cutScopes depth) := hR.touches (.rescope _ _)
  exact hR.trans hscopes (hR.touches (.retrace (by rw [Array.size_pop]; exact Nat.sub_le _ _)))

theorem atLine (hR : Allows P R) (e : Engine) (line : Nat) : R e (e.atLine line) :=
  hR.touches (.retrace (Nat.le_of_eq Array.size_modify))

end Instructions

end Allows

end Engine

namespace Loop

open Engine

variable {P : CodeUnit → Prop} {R : Engine → Engine → Prop} {α : Type} {frame : CallFrame} {callers : List CallFrame}

theorem within_relates {x : EngineM α} (hx : Relates R id x) : Relates R engine (within x) := by
  intro s
  simp only [within]
  cases hr : x s.engine with
  | ok a e => exact hx.returned hr
  | error error e => exact hx.failed hr

theorem setFrames_relates (hR : Allows P R) (frames : List CallFrame) : Relates R engine (setFrames frames) :=
  fun s => hR.refl s.engine

theorem update_relates {f : Engine → Engine} (hf : ∀ e, R e (f e)) : Relates R engine (update f) :=
  fun s => hf s.engine

theorem enterFrame_relates (hR : Allows P R) (unit : CodeUnit) (env : Handle) (site : CallSite) (callers : List CallFrame) :
    Relates R engine (within (enterClosure unit env site) >>= fun frame => do
      setFrames (frame :: callers)
      pure Signal.proceed) :=
  hR.bind (within_relates (hR.enterClosure unit env site)) fun frame =>
    hR.bind (setFrames_relates hR (frame :: callers)) fun _ => hR.pure _

theorem pushResult_relates (hR : Allows P R) (v : Value) :
    Relates R engine (within (push v) >>= fun _ => pure Signal.proceed) :=
  hR.bind (within_relates (hR.push v)) fun _ => hR.pure _

theorem returnFrom_relates (hR : Allows P R) (frame : CallFrame) (callers : List CallFrame) (returned : Option Value) :
    Relates R engine (returnFrom frame callers returned) := by
  refine hR.bind (setFrames_relates hR callers) fun _ => hR.bind (within_relates (hR.leaveAll _)) fun _ => .get fun s => ?_
  refine hR.bind (update_relates fun e => hR.leaveFrame e _) fun _ => ?_
  split
  · exact hR.pure _
  · exact hR.bind (update_relates fun e => hR.cutStack e _) fun _ => pushResult_relates hR _

theorem call_relates (hR : Allows P R) (hn : ∀ f args, Relates R id (callNative f args)) (callers : List CallFrame)
    (argc : Nat) : Relates R engine (call callers argc) := by
  refine hR.bind (within_relates (hR.callSite argc)) fun site => ?_
  cases site.callee with
  | closure unit env => exact enterFrame_relates hR unit env site callers
  | native f =>
    intro s
    dsimp only
    rw [get_bind]
    cases hr : callNative f site.args s.engine with
    | error error e => exact hR.trans ((hn f site.args).failed hr) (hR.cutStack e site.base)
    | ok result e =>
      have hnative : R s.engine e := (hn f site.args).returned hr
      cases result with
      | run closure => exact hnative
      | value v =>
        have hcut : R s.engine (e.cutStack site.base) := hR.trans hnative (hR.cutStack e site.base)
        exact hR.trans hcut (pushResult_relates hR v ⟨e.cutStack site.base, s.frames⟩)

theorem execute_relates (hR : Allows P R) (hu : ∀ u ∈ frame.unit.functions, P u) (callers : List CallFrame) {instr : Instr}
    (hc : ∀ argc, instr ≠ .call argc) : Relates R engine (execute frame callers instr) := by
  have hgoto (target : Nat) : Relates R engine (goto frame callers target) := setFrames_relates hR _
  have hpop : Relates R engine (within popped) := within_relates hR.popped
  have hpeek : Relates R engine (within peek) := within_relates hR.peek
  have hsimple (instr : Instr) : Relates R engine (within (simple frame instr) >>= fun _ => pure Signal.proceed) :=
    hR.bind (within_relates (hR.simple hu instr)) fun _ => hR.pure _
  cases instr with
  | call argc => exact absurd rfl (hc argc)
  | jump target => exact hR.bind (hgoto target) fun _ => hR.pure _
  | jumpIfFalse target =>
    refine hR.bind hpop fun v => ?_
    split
    · exact hR.bind (hgoto target) fun _ => hR.pure _
    · exact hR.bind (hR.pure _) fun _ => hR.pure _
  | jumpIfFalseKeep target =>
    refine hR.bind hpeek fun v => ?_
    split
    · exact hR.bind (hR.bind hpop fun _ => hR.pure _) fun _ => hR.pure _
    · exact hR.bind (hgoto target) fun _ => hR.pure _
  | jumpIfTrueKeep target =>
    refine hR.bind hpeek fun v => ?_
    split
    · exact hR.bind (hgoto target) fun _ => hR.pure _
    · exact hR.bind (hR.bind hpop fun _ => hR.pure _) fun _ => hR.pure _
  | «return» => exact hR.bind hpop fun v => returnFrom_relates hR frame callers (some v)
  | «try» catchAt exitAt =>
    exact hR.bind (within_relates hR.enterProtected) fun scope => hR.bind (setFrames_relates hR _) fun _ => hR.pure _
  | leave =>
    simp only [execute]
    cases frame.handlers with
    | nil => exact hR.throw _
    | cons handler handlers =>
      exact hR.bind (setFrames_relates hR _) fun _ => hR.bind (within_relates (hR.leaveProtected _)) fun _ =>
        hR.bind (setFrames_relates hR _) fun _ => hR.pure _
  | _ => exact hsimple _

theorem step_relates (hR : Allows (fun _ => True) R) (hn : ∀ f args, Relates R id (callNative f args)) :
    Relates R engine step := by
  refine .get fun s => ?_
  cases s.frames with
  | nil => exact hR.pure _
  | cons frame callers =>
    dsimp only
    cases frame.unit.code[frame.next]? with
    | none => exact returnFrom_relates hR frame callers none
    | some instr =>
      have hexec : Relates R engine (execute { frame with next := frame.next + 1 } callers instr) := by
        by_cases hc : ∃ argc, instr = .call argc
        · obtain ⟨argc, rfl⟩ := hc
          exact call_relates hR hn _ argc
        · exact execute_relates hR (fun _ _ => trivial) callers (not_exists.mp hc)
      dsimp only
      split
      · exact hR.bind (update_relates fun e => hR.atLine e _) fun _ => hR.bind (setFrames_relates hR _) fun _ => hexec
      · exact hR.bind (setFrames_relates hR _) fun _ => hexec

end Loop

end ScriptEngine
