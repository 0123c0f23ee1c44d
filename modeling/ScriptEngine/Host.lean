import ScriptEngine.Machine

/-!
An instance as its host sees it. An error that finds no open scope is handed to the panic handler,
with its value on the stack, and comes back as uncaught. The handlers that a host can install and
the context that it can attach are types of its own choice.
-/

namespace ScriptEngine

/-- Without a handler of its own choice an uncaught error is reported. -/
structure Host (κ χ : Type) where
  engine : Engine
  handler : Option κ
  context : Option χ

def Engine.reportUncaught (e : Engine) : Engine :=
  e.report ("uncaught exception: " ++ e.display (e.stack.back?.getD .undefined))

namespace Host

variable {κ χ α : Type}

/-- What each handler does; none if it does not come to an end. -/
abbrev Handlers (κ χ : Type) := κ → Host κ χ → Option (Host κ χ)

abbrev Outcome (κ χ α : Type) := EStateM.Result Error (Host κ χ) α

def ofEngine (engine : Engine) : Host κ χ :=
  ⟨engine, none, none⟩

def update (f : Engine → Engine) (h : Host κ χ) : Host κ χ :=
  { h with engine := f h.engine }

def panic (handlers : Handlers κ χ) (h : Host κ χ) : Option (Host κ χ) :=
  match h.handler with
  | none => some (h.update Engine.reportUncaught)
  | some k => handlers k h

def throw (handlers : Handlers κ χ) (error : Error) (h : Host κ χ) : Option (Error × Host κ χ) :=
  if !h.engine.frames.isEmpty || error.isUncaught then some (error, h)
  else
    let (value, e) := h.engine.exceptionValue error
    (panic handlers { h with engine := e.pushThrown value }).map fun after =>
      (.uncaught error, after.update (Engine.cutStack h.engine.stack.size))

def rethrow (handlers : Handlers κ χ) (error : Error) (h : Host κ χ) : Option (Error × Host κ χ) :=
  let (error, e) := h.engine.carry error
  throw handlers error { h with engine := e }

def surface (handlers : Handlers κ χ) (h : Host κ χ) :
    EStateM.Result Error Engine α → Option (Outcome κ χ α)
  | .ok a engine => some (.ok a { h with engine })
  | .error error engine =>
    (throw handlers error { h with engine }).map fun (error, h) => .error error h

def load (handlers : Handlers κ χ) (name source : String) (mode : LoadMode) (h : Host κ χ) :
    Option (Outcome κ χ Value) :=
  surface handlers h (Engine.load name source mode h.engine)

def loadFile (handlers : Handlers κ χ) (path : String) (file : Option Stream) (h : Host κ χ) :
    Option (Outcome κ χ Value) :=
  surface handlers h (Engine.loadFile path file h.engine)

def call (fuel : Nat) (handlers : Handlers κ χ) (receiver callee : Value) (args : List Value)
    (h : Host κ χ) : Option (Outcome κ χ Value) :=
  (h.engine.call fuel receiver callee args).bind (surface handlers h)

def setHandler (handler : Option κ) (h : Host κ χ) : Option κ × Host κ χ :=
  (h.handler, { h with handler })

def setContext (context : Option χ) (h : Host κ χ) : Option χ × Host κ χ :=
  (h.context, { h with context })

end Host

end ScriptEngine
