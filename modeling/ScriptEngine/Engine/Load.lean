import ScriptEngine.Code.Compiler
import ScriptEngine.Engine.Protected

namespace ScriptEngine

/-- A program binds its names in the global environment. Evaluated code does the same, except in a
strict instance, where it gets a scope of its own inside the current one. -/
inductive LoadMode where
  | program | eval
deriving DecidableEq, Repr

namespace Engine

def compile (name source : String) : EngineM CodeUnit := do
  let e ← get
  let (parsed, ledger) := SyntaxTree.acquire name source e.ledger
  set { e with ledger }
  match parsed with
  | .error d => throw (.parsing d)
  | .ok tree =>
    let compiled := tree.compile e.strict
    modify fun e => { e with ledger := SyntaxTree.release e.ledger }
    match compiled with
    | .error d => throw (.compiling d)
    | .ok unit => return unit

def target (mode : LoadMode) (e : Engine) : Handle × Engine :=
  if mode = .eval ∧ e.strict then
    let (env, heap) := Environment.alloc e.heap none (some e.env)
    (env, { e with heap })
  else (e.globalEnv, e)

def bindSource (name source : String) (mode : LoadMode) : EngineM Value := do
  let unit ← compile name source
  let env ← modifyGet (target mode)
  modifyGet (closureOf unit env)

def load (name source : String) (mode : LoadMode) : EngineM Value :=
  guarding (bindSource name source mode)

def readFile (path : String) (file : Option Stream) : EngineM SourceBuffer := do
  let e ← get
  let (read, ledger) := SourceBuffer.ofFile path file e.ledger
  set { e with ledger }
  match read with
  | .ok buffer => return buffer
  | .error error => throw (.reading error)

def loadBuffer (path : String) (buffer : SourceBuffer) : EngineM Value := fun e =>
  let release (e : Engine) : Engine := { e with ledger := SourceBuffer.release e.ledger }
  match load path buffer.text .program e with
  | .ok value e => .ok value (release e)
  | .error error e => .error error (release e)

def loadFile (path : String) (file : Option Stream) : EngineM Value :=
  guarding do
    let buffer ← readFile path file
    loadBuffer path buffer

def tryLoading (load : EngineM Value) (e : Engine) : Bool × Engine :=
  match protect (do push (← load)) e with
  | .ok _ e => (true, e)
  | .error _ e => (false, e)

end Engine

end ScriptEngine
