import ScriptEngine.Fault
import ScriptEngine.Source.Diagnostic
import ScriptEngine.Source.Stream

namespace ScriptEngine

/-- A rethrown error carries the very value that an inner scope resumed with. An uncaught error
found no scope to resume. -/
inductive Error where
  | reading (error : ReadError)
  | parsing (diagnostic : Diagnostic)
  | compiling (diagnostic : Diagnostic)
  | fault (fault : Fault)
  | thrown (value : Value) (text : String)
  | rethrown (value : Value) (inner : Error)
  | uncaught (inner : Error)
  | unbalancedScope
deriving DecidableEq, Repr

namespace Error

def description? : Error → Option (ErrorName × String)
  | .reading e => some (.error, e.message)
  | .parsing d | .compiling d => some (.syntaxError, d.render)
  | .fault f => some (f.name, f.message)
  | .unbalancedScope => some (.error, "unbalanced protected scope")
  | .thrown _ _ => none
  | .rethrown _ inner | .uncaught inner => inner.description?

def text : Error → String
  | .thrown _ text => text
  | .rethrown _ inner => inner.text
  | .uncaught inner => "uncaught exception: " ++ inner.text
  | e =>
    match e.description? with
    | some (name, message) => name.text ++ ": " ++ message
    | none => ""

def carried? : Error → Option Value
  | .thrown value _ | .rethrown value _ => some value
  | .uncaught inner => inner.carried?
  | _ => none

def root : Error → Error
  | .uncaught inner | .rethrown _ inner => inner.root
  | e => e

def isUncaught : Error → Bool
  | .uncaught _ => true
  | _ => false

def carrying (value : Value) : Error → Error
  | .rethrown _ inner => .rethrown value inner
  | e => .rethrown value e

theorem carried?_carrying (value : Value) (e : Error) : (e.carrying value).carried? = some value := by
  cases e <;> rfl

theorem root_carrying (value : Value) (e : Error) : (e.carrying value).root = e.root := by
  cases e <;> rfl

end Error

end ScriptEngine
