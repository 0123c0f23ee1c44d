import ScriptEngine.Engine

namespace ScriptEngine.Engine

def enterProtected : EngineM ScopeId := do
  let e ← get
  if e.limits.tryLimit ≤ e.frames.length then .fault .exceptionStackOverflow
  let id := ⟨e.frames.length, e.nextSerial⟩
  let frame :=
    { id, stackDepth := e.stack.size, traceDepth := e.trace.size, scopeDepth := e.scopes.size
      env := e.env, heapMark := e.heap.born }
  set { e with frames := frame :: e.frames, nextSerial := e.nextSerial + 1 }
  return id

def leaveProtected (id : ScopeId) : EngineM Unit := do
  let e ← get
  match e.frames with
  | frame :: frames => if frame.id = id then set { e with frames } else throw .unbalancedScope
  | [] => throw .unbalancedScope

def findFrame (id : ScopeId) : List ProtectedFrame → Option (ProtectedFrame × List ProtectedFrame)
  | [] => none
  | frame :: frames => if frame.id = id then some (frame, frames) else findFrame id frames

def restore (frame : ProtectedFrame) (value : Value) (e : Engine) : Engine :=
  { e with
    stack := (e.stack.shrink frame.stackDepth).push value
    trace := e.trace.shrink (max frame.traceDepth 1)
    scopes := e.scopes.shrink frame.scopeDepth
    env := frame.env }

/-- Resumes a scope after an error. The value is made before the trace is cut back, so that it
records where the error arose. A scope that is not open cannot be resumed: then the frames stay and
the value says so. -/
def unwind (id : ScopeId) (error : Error) (e : Engine) : Error × Engine :=
  match findFrame id e.frames with
  | none =>
    let (value, e) := e.exceptionValue .unbalancedScope
    (.unbalancedScope, e.pushThrown value)
  | some (frame, frames) =>
    let (value, e) := { e with frames }.exceptionValue error
    (error, (e.restore frame value).collectSince frame.heapMark)

def beginProtected : EngineM ScopeId := fun e =>
  match enterProtected e with
  | .ok id e => .ok id e
  | .error error e =>
    let (value, e) := e.exceptionValue error
    .error error (e.pushThrown value)

def endProtected (id : ScopeId) :
    EStateM.Result Error Engine α → EStateM.Result Error Engine α
  | .ok a e =>
    match leaveProtected id e with
    | .ok _ e => .ok a e
    | .error error e =>
      let (error, e) := e.unwind id error
      .error error e
  | .error error e =>
    let (error, e) := e.unwind id error
    .error error e

def protect (body : EngineM α) : EngineM α := fun e =>
  match beginProtected e with
  | .ok id e => endProtected id (body e)
  | .error error e => .error error e

/-- Takes the thrown value off the stack and into the error, so that the next scope resumes with
the same value. -/
def carry (error : Error) (e : Engine) : Error × Engine :=
  match e.stack.back? with
  | some value => (error.carrying value, { e with stack := e.stack.pop })
  | none => (error, e)

def carried : EStateM.Result Error Engine α → EStateM.Result Error Engine α
  | .ok a e => .ok a e
  | .error error e =>
    let (error, e) := e.carry error
    .error error e

def guarding (body : EngineM α) : EngineM α := fun e =>
  carried (protect body e)

end ScriptEngine.Engine
