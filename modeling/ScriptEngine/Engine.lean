import ScriptEngine.Config
import ScriptEngine.Environment
import ScriptEngine.Error
import ScriptEngine.Heap.Collect
import ScriptEngine.Heap.Operator
import ScriptEngine.Sink

/-!
The state of an instance: value stack, call trace, protected scopes, heap and scopes, with the
operations on each of them.
-/

namespace ScriptEngine

structure TraceEntry where
  name : String
  file : String
  line : Nat
deriving DecidableEq, Repr

namespace TraceEntry

def bottom : TraceEntry := ⟨"-top-", "native", 0⟩

def render (t : TraceEntry) : String :=
  let line := if t.line = 0 then "" else ":" ++ toString t.line
  t.name ++ " (" ++ t.file ++ line ++ ")"

end TraceEntry

/-- Depth alone does not tell two scopes apart: each one entered has a serial number of its own. -/
structure ScopeId where
  depth : Nat
  serial : Nat
deriving DecidableEq, Repr

structure ProtectedFrame where
  id : ScopeId
  stackDepth : Nat
  traceDepth : Nat
  scopeDepth : Nat
  env : Handle
  heapMark : Nat
deriving DecidableEq, Repr

/-- The open protected scopes stand innermost first. The scopes saved by calls and catch clauses
stand outermost first. -/
structure Engine where
  strict : Bool
  limits : Limits
  stack : Array Value
  trace : Array TraceEntry
  frames : List ProtectedFrame
  nextSerial : Nat
  heap : Heap
  nextRef : Nat
  registry : Handle
  global : Handle
  globalEnv : Handle
  env : Handle
  scopes : Array Handle
  loops : Nat
  ledger : Ledger
  output : Sink
  diagnostics : Sink

abbrev EngineM := EStateM Error Engine

def EngineM.fault (f : Fault) : EngineM α :=
  throw (.fault f)

def EngineM.ask (f : Heap → Except Fault α) : EngineM α := do
  match f (← get).heap with
  | .ok a => return a
  | .error e => .fault e

def EngineM.change (f : Heap → Except Fault Heap) : EngineM Unit := do
  match f (← get).heap with
  | .ok heap => modify fun e => { e with heap }
  | .error e => .fault e

namespace Engine

def push (value : Value) : EngineM Unit := do
  if (← get).limits.stackSize ≤ (← get).stack.size then .fault .stackOverflow
  modify fun e => { e with stack := e.stack.push value }

/-- A thrown value always gets a slot. -/
def pushThrown (value : Value) (e : Engine) : Engine :=
  { e with stack := e.stack.push value }

def pop (e : Engine) : Value × Engine :=
  (e.stack.back?.getD .undefined, { e with stack := e.stack.pop })

def popped : EngineM Value :=
  modifyGet pop

def peek : EngineM Value := do
  match (← get).stack.back? with
  | some value => return value
  | none => .fault .stackUnderflow

def cutStack (depth : Nat) (e : Engine) : Engine :=
  { e with stack := e.stack.shrink depth }

def enterTrace (entry : TraceEntry) : EngineM Unit := do
  if (← get).limits.traceLimit ≤ (← get).trace.size then .fault .callStackOverflow
  modify fun e => { e with trace := e.trace.push entry }

def leaveTrace (e : Engine) : Engine :=
  { e with trace := e.trace.pop }

def atLine (line : Nat) (e : Engine) : Engine :=
  { e with trace := e.trace.modify (e.trace.size - 1) fun t => { t with line } }

def enterScope (env : Handle) (e : Engine) : Engine :=
  { e with scopes := e.scopes.push e.env, env }

def leaveScope (e : Engine) : Engine :=
  match e.scopes.back? with
  | some env => { e with scopes := e.scopes.pop, env }
  | none => e

def cutScopes (depth : Nat) (e : Engine) : Engine :=
  { e with env := e.scopes[depth]?.getD e.env, scopes := e.scopes.shrink depth }

def roots (e : Engine) : List Handle :=
  [e.registry, e.global, e.globalEnv, e.env] ++ e.scopes.toList ++ e.frames.map (·.env)
    ++ e.stack.toList.filterMap (·.handle?)

def gc (e : Engine) : Nat × Engine :=
  let (freed, heap) := e.heap.collect e.roots
  (freed, { e with heap })

def collectSince (mark : Nat) (e : Engine) : Engine :=
  { e with heap := (e.heap.collectSince mark e.roots).2 }

def alloc (cell : Cell) (e : Engine) : Handle × Engine :=
  let (a, heap) := e.heap.alloc cell
  (a, { e with heap })

def newObject (o : Object) (e : Engine) : Value × Engine :=
  let (a, e) := e.alloc (.object o)
  (.object a, e)

def stackTrace (e : Engine) : String :=
  String.join (e.trace.toList.reverse.map fun t => "\n\tat " ++ t.render)

def newError (name : ErrorName) (message : String) (e : Engine) : Value × Engine :=
  e.newObject
    { kind := .error, parent := none
      properties :=
        [("name", .string name.text), ("message", .string message), ("stack", .string e.stackTrace)] }

def exceptionValue (error : Error) (e : Engine) : Value × Engine :=
  match error.carried? with
  | some value => (value, e)
  | none =>
    match error.description? with
    | some (name, message) => e.newError name message
    | none => (.undefined, e)

def closureOf (unit : CodeUnit) (env : Handle) (e : Engine) : Value × Engine :=
  e.newObject (.of (.closure unit env))

def getProperty (target : Value) (name : String) : EngineM Value :=
  .ask (·.getProperty target name)

def setProperty (target : Value) (name : String) (value : Value) : EngineM Unit :=
  .change (·.setProperty target name value)

def makeRef (value : Value) : EngineM String := do
  let e ← get
  let key := "_" ++ toString e.nextRef
  set { e with nextRef := e.nextRef + 1 }
  setProperty (.object e.registry) key value
  return key

def getRef (key : String) (e : Engine) : Value :=
  ((e.heap.object? e.registry).bind (·.properties.get? key)).getD .undefined

def unref (key : String) (e : Engine) : Engine :=
  { e with heap := e.heap.eraseProperty e.registry key }

def display (e : Engine) (value : Value) : String :=
  e.heap.display value

def report (line : String) (e : Engine) : Engine :=
  { e with diagnostics := e.diagnostics.tryWrite (line ++ "\n") }

def summary (e : Engine) : String :=
  "Interpreter \x7b strict: " ++ toString e.strict ++ ", stack_depth: " ++ toString e.stack.size
    ++ ", trace_depth: " ++ toString e.trace.size ++ ", protected_depth: "
    ++ toString e.frames.length ++ ", live_cells: " ++ toString e.heap.live ++ ", .. \x7d"

end Engine

end ScriptEngine
