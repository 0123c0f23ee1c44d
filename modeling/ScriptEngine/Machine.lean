import ScriptEngine.Engine.Native

/-!
The machine that runs code. Calls between scripts stay inside one instruction loop; a call from
outside, or from a built-in function that runs a script, opens another loop in a protected scope.
All loops are kept in one list of tasks, so that a single step function describes every run.
-/

namespace ScriptEngine

structure Handler where
  scope : ScopeId
  catchAt : Nat
  exitAt : Nat
deriving DecidableEq, Repr

/-- A running function or script: its code and the next instruction, its receiver, the scope of its
declarations, the stack slot of its completion value, the stack depth below the call, the depth of
the saved scopes, and its open try statements, innermost first. -/
structure CallFrame where
  unit : CodeUnit
  next : Nat
  receiver : Value
  scope : Handle
  completion : Option Nat
  base : Nat
  savedScope : Nat
  handlers : List Handler

structure Loop where
  engine : Engine
  frames : List CallFrame

abbrev LoopM := EStateM Error Loop

inductive Signal where
  | proceed
  | finished (value : Value)
  | evaluate (closure : Value) (base : Nat)

namespace Loop

def within (x : EngineM α) : LoopM α := fun s =>
  match x s.engine with
  | .ok a engine => .ok a { s with engine }
  | .error error engine => .error error { s with engine }

instance : MonadLift EngineM LoopM := ⟨within⟩

def update (f : Engine → Engine) : LoopM Unit :=
  modify fun s => { s with engine := f s.engine }

def setFrames (frames : List CallFrame) : LoopM Unit :=
  modify fun s => { s with frames }

end Loop

inductive Callee where
  | native (function : Builtin)
  | closure (unit : CodeUnit) (env : Handle)

structure CallSite where
  base : Nat
  receiver : Value
  args : List Value
  callee : Callee

namespace Engine

def callee (value : Value) (e : Engine) : Except Fault Callee :=
  match value.handle?.bind e.heap.object? with
  | some ⟨.native f, _, _⟩ => .ok (.native f)
  | some ⟨.closure unit env, _, _⟩ => .ok (.closure unit env)
  | _ => .error (.notAFunction (e.display value))

def callSite (argc : Nat) : EngineM CallSite := do
  let e ← get
  if e.stack.size < argc + 2 then .fault .stackUnderflow
  let base := e.stack.size - (argc + 2)
  match e.callee (e.stack[base]?.getD .undefined) with
  | .error f => .fault f
  | .ok callee =>
    return { base, callee
             receiver := e.stack[base + 1]?.getD .undefined
             args := (e.stack.extract (base + 2) (base + 2 + argc)).toList }

def bindParams (env : Handle) : List String → List Value → Heap → Except Fault Heap
  | [], _, h => .ok h
  | name :: names, args, h => do
    let h ← Environment.define h env name (args.headD .undefined)
    bindParams env names args.tail h

def openScope (unit : CodeUnit) (env : Handle) (args : List Value) : EngineM Handle := do
  if unit.isScript then return env
  let scope ← modifyGet fun e =>
    let (scope, heap) := Environment.alloc e.heap none (some env)
    (scope, { e with heap })
  .change (bindParams scope unit.params args)
  return scope

def boundReceiver (unit : CodeUnit) (receiver : Value) (e : Engine) : Value :=
  if receiver.isNullish && !unit.strict then .object e.global else receiver

def enterClosure (unit : CodeUnit) (env : Handle) (site : CallSite) : EngineM CallFrame := do
  let receiver := (← get).boundReceiver unit site.receiver
  let scope ← openScope unit env site.args
  let depth := (← get).stack.size
  if unit.isScript then push .undefined
  let completion := if unit.isScript then some depth else none
  enterTrace ⟨unit.name, unit.file, unit.line⟩
  let savedScope := (← get).scopes.size
  modify (enterScope scope)
  return { unit, next := 0, receiver, scope, completion, base := site.base, savedScope, handlers := [] }

end Engine

namespace Loop

open Engine

def goto (frame : CallFrame) (callers : List CallFrame) (target : Nat) : LoopM Unit :=
  setFrames ({ frame with next := target } :: callers)

def leaveAll : List Handler → EngineM Unit
  | [] => pure ()
  | handler :: handlers => do
    leaveProtected handler.scope
    leaveAll handlers

def returnFrom (frame : CallFrame) (callers : List CallFrame) (returned : Option Value) :
    LoopM Signal := do
  setFrames callers
  leaveAll frame.handlers
  let e := (← get).engine
  let value := (returned.or (frame.completion.bind (e.stack[·]?))).getD .undefined
  update fun e => (e.cutScopes frame.savedScope).leaveTrace
  if callers.isEmpty then return .finished value
  update (cutStack frame.base)
  push value
  return .proceed

def call (callers : List CallFrame) (argc : Nat) : LoopM Signal := do
  let site ← callSite argc
  match site.callee with
  | .closure unit env =>
    let frame ← enterClosure unit env site
    setFrames (frame :: callers)
    return .proceed
  | .native f =>
    let s ← get
    match callNative f site.args s.engine with
    | .ok (.value value) engine =>
      set { s with engine := engine.cutStack site.base }
      push value
      return .proceed
    | .ok (.run closure) engine =>
      set { s with engine }
      return .evaluate closure site.base
    | .error error engine =>
      set { s with engine := engine.cutStack site.base }
      throw error

def simple (frame : CallFrame) : Instr → EngineM Unit
  | .undefined => push .undefined
  | .null => push .null
  | .boolean b => push (.boolean b)
  | .number x => push (.number x)
  | .string s => push (.string s)
  | .this => push frame.receiver
  | .getVar name => do
    let env := (← get).env
    push (← .ask (Environment.get · env name))
  | .setVar name => do
    let value ← peek
    let env := (← get).env
    .change (Environment.assign · env name value frame.unit.strict)
  | .defineVar name => do
    let value ← popped
    .change (Environment.define · frame.scope name value)
  | .declareVar name => .change (Environment.declare · frame.scope name)
  | .closure index =>
    match frame.unit.functions[index]? with
    | none => .fault .badFunctionIndex
    | some unit => do
      let env := (← get).env
      push (← modifyGet (closureOf unit env))
  | .newObject => do push (← modifyGet (newObject (.of .plain)))
  | .initProp name => do
    let value ← popped
    setProperty (← peek) name value
  | .getProp name => do
    let target ← popped
    push (← getProperty target name)
  | .setProp name => do
    let value ← popped
    let target ← popped
    setProperty target name value
    push value
  | .getIndex => do
    let key ← popped
    let target ← popped
    push (← getProperty target ((← get).display key))
  | .setIndex => do
    let value ← popped
    let key ← popped
    let target ← popped
    setProperty target ((← get).display key) value
    push value
  | .getMethod name => do
    let target ← popped
    push (← getProperty target name)
    push target
  | .pop => do let _ ← popped
  | .setCompletion => do
    let value ← popped
    if let some slot := frame.completion then
      modify fun e => { e with stack := e.stack.setIfInBounds slot value }
  | .negate => do push (.number (-(← popped).toNumber))
  | .not => do push (.boolean !(← popped).truthy)
  | .typeof => do
    let value ← popped
    push (.string ((← get).heap.typeOf value))
  | .binary op => do
    let right ← popped
    let left ← popped
    push ((← get).heap.binary op left right)
  | .throw => do
    let value ← popped
    throw (.thrown value ((← get).display value))
  | .enterCatch name => do
    let thrown ← popped
    let e ← get
    let (env, heap) := Environment.alloc e.heap none (some e.env)
    set { e with heap }
    .change (Environment.define · env name thrown)
    modify (enterScope env)
  | .exitCatch => modify leaveScope
  | .call _ | .jump _ | .jumpIfFalse _ | .jumpIfFalseKeep _ | .jumpIfTrueKeep _ | .return
  | .try _ _ | .leave => pure ()

def execute (frame : CallFrame) (callers : List CallFrame) : Instr → LoopM Signal
  | .call argc => call (frame :: callers) argc
  | .jump target => do
    goto frame callers target
    return .proceed
  | .jumpIfFalse target => do
    if !(← popped).truthy then goto frame callers target
    return .proceed
  | .jumpIfFalseKeep target => do
    if (← peek).truthy then let _ ← popped else goto frame callers target
    return .proceed
  | .jumpIfTrueKeep target => do
    if (← peek).truthy then goto frame callers target else let _ ← popped
    return .proceed
  | .return => do
    let value ← popped
    returnFrom frame callers (some value)
  | .try catchAt exitAt => do
    let scope ← enterProtected
    setFrames ({ frame with handlers := ⟨scope, catchAt, exitAt⟩ :: frame.handlers } :: callers)
    return .proceed
  | .leave =>
    match frame.handlers with
    | [] => throw .unbalancedScope
    | handler :: handlers => do
      setFrames ({ frame with handlers } :: callers)
      leaveProtected handler.scope
      setFrames ({ frame with handlers, next := handler.exitAt } :: callers)
      return .proceed
  | instr => do
    simple frame instr
    return .proceed

def step : LoopM Signal := do
  match (← get).frames with
  | [] => return .finished .undefined
  | frame :: callers =>
    match frame.unit.code[frame.next]? with
    | none => returnFrom frame callers none
    | some instr =>
      if let some line := frame.unit.lines[frame.next]? then update (atLine line)
      let frame := { frame with next := frame.next + 1 }
      setFrames (frame :: callers)
      execute frame callers instr

def catch? (error : Error) (e : Engine) : List CallFrame → Option Loop
  | [] => none
  | frame :: callers =>
    match frame.handlers with
    | [] => catch? error e callers
    | handler :: handlers =>
      some ⟨(e.unwind handler.scope error).2, { frame with handlers, next := handler.catchAt } :: callers⟩

end Loop

structure Entry where
  base : Nat
  savedScope : Nat
  traceDepth : Nat
deriving DecidableEq, Repr

/-- What waits for a result: a protected call, a built-in function that runs a script, or a loop. -/
inductive Task where
  | guard (scope : ScopeId)
  | native (base : Nat)
  | loop (entry : Entry) (frames : List CallFrame)

/-- What happens now: a loop is at work, a call is about to be made, or a result is handed to the
first task that waits. -/
inductive Control where
  | running (entry : Entry) (frames : List CallFrame)
  | calling (receiver callee : Value) (args : List Value)
  | returning (result : Except Error Value)

structure Machine where
  engine : Engine
  tasks : List Task
  control : Control

namespace Machine

open Engine

def leaveLoop (entry : Entry) (e : Engine) : Engine :=
  cutStack entry.base { e with loops := e.loops - 1 }

/-- A loop that an error leaves. The error gets its value while the trace still shows where it
arose. -/
def failLoop (entry : Entry) (error : Error) (e : Engine) : Error × Engine :=
  let e := { e with loops := e.loops - 1 }
  let (error, e) := match error.carried? with
    | some _ => (error, e)
    | none =>
      let (value, e) := e.exceptionValue error
      (.rethrown value error, e)
  let e := e.cutScopes entry.savedScope
  (error, cutStack entry.base { e with trace := e.trace.shrink entry.traceDepth })

def raise (entry : Entry) (error : Error) (tasks : List Task) (s : Loop) : Machine :=
  match Loop.catch? error s.engine s.frames with
  | some s => ⟨s.engine, tasks, .running entry s.frames⟩
  | none =>
    let (error, e) := failLoop entry error s.engine
    ⟨e, tasks, .returning (.error error)⟩

def start (argc : Nat) (tasks : List Task) (e : Engine) : Machine :=
  match callSite argc e with
  | .error error e => ⟨e, tasks, .returning (.error error)⟩
  | .ok site e =>
    match site.callee with
    | .native f =>
      match callNative f site.args e with
      | .ok (.value value) e => ⟨e.cutStack site.base, tasks, .returning (.ok value)⟩
      | .ok (.run closure) e => ⟨e, .native site.base :: tasks, .calling (.object e.global) closure []⟩
      | .error error e => ⟨e.cutStack site.base, tasks, .returning (.error error)⟩
    | .closure unit env =>
      if e.limits.reentryLimit ≤ e.loops then
        ⟨e.cutStack site.base, tasks, .returning (.error (.fault .callStackOverflow))⟩
      else
        let entry := ⟨site.base, e.scopes.size, e.trace.size⟩
        match enterClosure unit env site { e with loops := e.loops + 1 } with
        | .ok frame e => ⟨e, tasks, .running entry [frame]⟩
        | .error error e => raise entry error tasks ⟨e, []⟩

def pushAll : List Value → EngineM Unit
  | [] => pure ()
  | value :: values => do
    push value
    pushAll values

def call (receiver callee : Value) (args : List Value) (tasks : List Task) (e : Engine) : Machine :=
  match beginProtected e with
  | .error error e =>
    let (error, e) := e.carry error
    ⟨e, tasks, .returning (.error error)⟩
  | .ok scope e =>
    let tasks := .guard scope :: tasks
    match pushAll (callee :: receiver :: args) e with
    | .error error e => ⟨e, tasks, .returning (.error error)⟩
    | .ok _ e => start args.length tasks e

def resultIn (e : Engine) : Except Error Value → EStateM.Result Error Engine Value
  | .ok value => .ok value e
  | .error error => .error error e

def resume (result : Except Error Value) (tasks : List Task) (e : Engine) : Task → Machine
  | .guard scope =>
    match carried (endProtected scope (resultIn e result)) with
    | .ok value e => ⟨e, tasks, .returning (.ok value)⟩
    | .error error e => ⟨e, tasks, .returning (.error error)⟩
  | .native base => ⟨e.leaveTrace.cutStack base, tasks, .returning result⟩
  | .loop entry frames =>
    match result with
    | .error error => raise entry error tasks ⟨e, frames⟩
    | .ok value =>
      match push value e with
      | .ok _ e => ⟨e, tasks, .running entry frames⟩
      | .error error e => raise entry error tasks ⟨e, frames⟩

def step : Machine → Machine
  | ⟨e, tasks, .running entry frames⟩ =>
    match Loop.step ⟨e, frames⟩ with
    | .ok .proceed s => ⟨s.engine, tasks, .running entry s.frames⟩
    | .ok (.finished value) s => ⟨leaveLoop entry s.engine, tasks, .returning (.ok value)⟩
    | .ok (.evaluate closure base) s =>
      ⟨s.engine, .native base :: .loop entry s.frames :: tasks,
        .calling (.object s.engine.global) closure []⟩
    | .error error s => raise entry error tasks s
  | ⟨e, tasks, .calling receiver callee args⟩ => call receiver callee args tasks e
  | ⟨e, task :: tasks, .returning result⟩ => resume result tasks e task
  | ⟨e, [], .returning result⟩ => ⟨e, [], .returning result⟩

def run : Nat → Machine → Option (EStateM.Result Error Engine Value)
  | _, ⟨e, [], .returning result⟩ => some (resultIn e result)
  | 0, _ => none
  | fuel + 1, m => run fuel m.step

end Machine

namespace Engine

def call (fuel : Nat) (receiver callee : Value) (args : List Value) (e : Engine) :
    Option (EStateM.Result Error Engine Value) :=
  Machine.run fuel ⟨e, [], .calling receiver callee args⟩

def evaluate (fuel : Nat) (load : EngineM Value) (e : Engine) :
    Option (EStateM.Result Error Engine Value) :=
  match beginProtected e with
  | .error error e => some (.error error e)
  | .ok scope e =>
    match load e with
    | .error error e => some (endProtected scope (.error error e))
    | .ok closure e => (e.call fuel (.object e.global) closure []).map (endProtected scope)

def runLoaded (fuel : Nat) (load : EngineM Value) (e : Engine) : Option (Bool × Engine) :=
  (e.evaluate fuel load).map fun
    | .ok _ e => (true, e)
    | .error _ e =>
      let (value, e) := e.pop
      (false, e.report (e.display value))

end Engine

end ScriptEngine
