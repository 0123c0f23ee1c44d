import ScriptEngine.Heap

namespace ScriptEngine.Environment

def alloc (h : Heap) (names outer : Option Handle) : Handle × Heap :=
  match names with
  | some v => h.alloc (.environment ⟨v, outer⟩)
  | none =>
    let (v, h) := h.allocObject (.of .plain)
    h.alloc (.environment ⟨v, outer⟩)

def bindings (h : Heap) (env : Handle) : Except Fault Handle :=
  match h.environment? env with
  | some e => .ok e.names
  | none => .error (.notLive .environment)

def define (h : Heap) (env : Handle) (name : String) (value : Value) : Except Fault Heap := do
  let v ← bindings h env
  match h.insertProperty? v name value with
  | some h => return h
  | none => throw (.notLive .bindings)

def hasOwn (h : Heap) (env : Handle) (name : String) : Except Fault Bool := do
  let v ← bindings h env
  return (h.object? v).any (·.properties.has name)

def declare (h : Heap) (env : Handle) (name : String) : Except Fault Heap := do
  if ← hasOwn h env name then return h
  define h env name .undefined

def lookupWithin (h : Heap) (name : String) : Nat → Handle → Option Value
  | 0, _ => none
  | n + 1, env =>
    match h.environment? env with
    | none => none
    | some e =>
      match (h.object? e.names).bind (·.properties.get? name) with
      | some value => some value
      | none => e.outer.bind (lookupWithin h name n)

def lookup (h : Heap) (env : Handle) (name : String) : Option Value :=
  lookupWithin h name h.chainLimit env

def get (h : Heap) (env : Handle) (name : String) : Except Fault Value :=
  match lookup h env name with
  | some value => .ok value
  | none => .error (.notDefined name)

inductive Binder where
  | bound (env : Handle)
  | outermost (env : Handle)
deriving DecidableEq, Repr

def binderWithin (h : Heap) (name : String) : Nat → Handle → Except Fault Binder
  | 0, env => .ok (.outermost env)
  | n + 1, env => do
    if ← hasOwn h env name then return .bound env
    match (h.environment? env).bind (·.outer) with
    | some outer => binderWithin h name n outer
    | none => return .outermost env

/-- Sets the nearest binding of a name. A name that is bound nowhere becomes a binding of the
outermost scope, which strict code refuses. -/
def assign (h : Heap) (env : Handle) (name : String) (value : Value) (strict : Bool) :
    Except Fault Heap := do
  match ← binderWithin h name h.chainLimit env with
  | .bound scope => define h scope name value
  | .outermost scope =>
    if strict then throw (.undeclared name)
    define h scope name value

end ScriptEngine.Environment
