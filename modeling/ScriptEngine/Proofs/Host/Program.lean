import ScriptEngine.Engine.Create
import ScriptEngine.Host
import ScriptEngine.Proofs.Heap.Upkeep

/-!
What a host can do with an instance: programs over its operations. A program sees the whole
instance between two operations, so it can use every value and every scope that it has come across.
Handlers are programs too. A run is recorded with the number of collections that it made and with
the lowest depth that the stack had between its operations.
-/

namespace ScriptEngine

def Machine.collections : Nat → Machine → Nat
  | _, ⟨_, [], .returning _⟩ => 0
  | 0, _ => 0
  | fuel + 1, m => m.engine.heap.collectionsTo m.step.engine.heap + collections fuel m.step

inductive Reply where
  | nothing
  | value (value : Value)
  | key (key : String)
  | scope (id : ScopeId)
  | count (n : Nat)
  | error (error : Error)

/-- The operations on the instance alone. Only compiled code is bound. -/
inductive Operation where
  | push (value : Value)
  | pop
  | newObject
  | exceptionValue (error : Error)
  | bind (unit : CodeUnit) (compiled : unit.Compiled) (env : Handle)
  | setProperty (target : Value) (name : String) (value : Value)
  | makeRef (value : Value)
  | unref (key : String)
  | gc
  | enter
  | leave (id : ScopeId)
  | unwind (id : ScopeId) (error : Error)
  | redirect (output diagnostics : Sink)

def Operation.perform : Operation → EngineM Reply
  | .push value => do Engine.push value; return .nothing
  | .pop => return .value (← Engine.popped)
  | .newObject => return .value (← modifyGet (Engine.newObject (.of .plain)))
  | .exceptionValue error => return .value (← modifyGet (Engine.exceptionValue error))
  | .bind unit _ env => return .value (← modifyGet (Engine.closureOf unit env))
  | .setProperty target name value => do Engine.setProperty target name value; return .nothing
  | .makeRef value => return .key (← Engine.makeRef value)
  | .unref key => do modify (Engine.unref key); return .nothing
  | .gc => return .count (← modifyGet Engine.gc)
  | .enter => return .scope (← Engine.enterProtected)
  | .leave id => do Engine.leaveProtected id; return .nothing
  | .unwind id error => return .error (← modifyGet (Engine.unwind id error))
  | .redirect output diagnostics => do modify ({ · with output, diagnostics }); return .nothing

inductive Action (κ χ : Type) where
  | operate (operation : Operation)
  | throw (error : Error)
  | rethrow (error : Error)
  | load (name source : String) (mode : LoadMode)
  | loadFile (path : String) (file : Option Stream)
  | call (receiver callee : Value) (args : List Value)
  | setHandler (handler : Option κ)
  | setContext (context : Option χ)

structure Record (κ χ α : Type) where
  outcome : Host.Outcome κ χ α
  collections : Nat
  low : Nat

inductive Program (κ χ α : Type) where
  | done (result : Except Error α)
  | act (action : Action κ χ) (next : Except Error Reply → Host κ χ → Program κ χ α)
  | protect (body : Program κ χ α) (next : Except Error α → Host κ χ → Program κ χ α)

variable {κ χ α : Type}

namespace Record

def host (r : Record κ χ α) : Host κ χ :=
  stateOf r.outcome

theorem host_of_error {r : Record κ χ α} {error : Error} {h : Host κ χ} (ho : r.outcome = .error error h) : r.host = h :=
  congrArg stateOf ho

def since (r : Record κ χ α) (collections low : Nat) : Record κ χ α :=
  { r with collections := collections + r.collections, low := min low r.low }

end Record

namespace Host

abbrev Panics (κ χ : Type) := κ → Host κ χ → Option (Record κ χ Unit)

def Panics.handlers (panics : Panics κ χ) : Handlers κ χ :=
  fun k h => (panics k h).map (·.host)

def receive (h : Host κ χ) : EStateM.Result Error Engine α → Outcome κ χ α
  | .ok a engine => .ok a { h with engine }
  | .error error engine => .error error { h with engine }

def within : Outcome κ χ α → EStateM.Result Error Engine α
  | .ok a h => .ok a h.engine
  | .error error h => .error error h.engine

def throwCollections (panics : Panics κ χ) (error : Error) (h : Host κ χ) : Nat :=
  if !h.engine.frames.isEmpty || error.isUncaught then 0
  else
    match h.handler with
    | none => 0
    | some k =>
      let (value, e) := h.engine.exceptionValue error
      ((panics k { h with engine := e.pushThrown value }).map (·.collections)).getD 0

def surfaceCollections (panics : Panics κ χ) (h : Host κ χ) : EStateM.Result Error Engine α → Nat
  | .ok _ _ => 0
  | .error error engine => throwCollections panics error { h with engine }

def endProtected (id : ScopeId) (outcome : Outcome κ χ α) : Outcome κ χ α :=
  (stateOf outcome).receive (Engine.endProtected id (within outcome))

def protect (body : Host κ χ → Option (Record κ χ α)) (h : Host κ χ) : Option (Record κ χ α) :=
  match Engine.beginProtected h.engine with
  | .error error engine => some ⟨.error error { h with engine }, 0, h.engine.stack.size⟩
  | .ok id engine =>
    (body { h with engine }).map fun r =>
      let outcome := endProtected id r.outcome
      let engine := (stateOf outcome).engine
      ⟨outcome, r.collections + r.host.engine.heap.collectionsTo engine.heap, min r.low engine.stack.size⟩

end Host

namespace Action

open Host

def reply : Outcome κ χ Value → Outcome κ χ Reply
  | .ok value h => .ok (.value value) h
  | .error error h => .error error h

def perform (handlers : Handlers κ χ) (fuel : Nat) (h : Host κ χ) : Action κ χ → Option (Outcome κ χ Reply)
  | .operate operation => some (h.receive (operation.perform h.engine))
  | .throw error => (Host.throw handlers error h).map fun (error, h) => .ok (.error error) h
  | .rethrow error => (Host.rethrow handlers error h).map fun (error, h) => .ok (.error error) h
  | .load name source mode => (Host.load handlers name source mode h).map reply
  | .loadFile path file => (Host.loadFile handlers path file h).map reply
  | .call receiver callee args => (Host.call fuel handlers receiver callee args h).map reply
  | .setHandler handler => some (.ok .nothing (h.setHandler handler).2)
  | .setContext context => some (.ok .nothing (h.setContext context).2)

def collections (panics : Panics κ χ) (fuel : Nat) (h : Host κ χ) : Action κ χ → Nat
  | .operate operation => h.engine.heap.collectionsTo (stateOf (operation.perform h.engine)).heap
  | .throw error => throwCollections panics error h
  | .rethrow error =>
    let (error, engine) := h.engine.carry error
    throwCollections panics error { h with engine }
  | .load name source mode =>
    let r := Engine.load name source mode h.engine
    h.engine.heap.collectionsTo (stateOf r).heap + surfaceCollections panics h r
  | .loadFile path file =>
    let r := Engine.loadFile path file h.engine
    h.engine.heap.collectionsTo (stateOf r).heap + surfaceCollections panics h r
  | .call receiver callee args =>
    Machine.collections fuel ⟨h.engine, [], .calling receiver callee args⟩ +
      ((h.engine.call fuel receiver callee args).map (surfaceCollections panics h)).getD 0
  | .setHandler _ | .setContext _ => 0

end Action

namespace Program

open Host

def run (panics : Panics κ χ) (fuel : Nat) : Program κ χ α → Host κ χ → Option (Record κ χ α)
  | .done (.ok a), h => some ⟨.ok a h, 0, h.engine.stack.size⟩
  | .done (.error error), h => some ⟨.error error h, 0, h.engine.stack.size⟩
  | .act action next, h =>
    (action.perform panics.handlers fuel h).bind fun outcome =>
      (run panics fuel (next (answerOf outcome) (stateOf outcome)) (stateOf outcome)).map fun r =>
        r.since (action.collections panics fuel h) h.engine.stack.size
  | .protect body next, h =>
    (Host.protect (run panics fuel body) h).bind fun b =>
      (run panics fuel (next (answerOf b.outcome) b.host) b.host).map fun r => r.since b.collections b.low

def panics (handler : κ → Program κ χ Unit) : Nat → Panics κ χ
  | 0 => fun _ _ => none
  | fuel + 1 => fun k h => run (panics handler fuel) fuel (handler k) h

end Program

/-- The states that a host can bring an instance to, with the number of collections up to then. The
last case is the state that a handler is given. -/
inductive Host.Reached (handler : κ → Program κ χ Unit) : Nat → Host κ χ → Prop
  | created {flags : Flags} {limits : Limits} {e : Engine} :
      Engine.create? flags limits = some e → Reached handler 0 (.ofEngine e)
  | ran {α : Type} {p : Program κ χ α} {fuel n : Nat} {h : Host κ χ} {r : Record κ χ α} :
      Reached handler n h → p.run (Program.panics handler fuel) fuel h = some r →
        Reached handler (n + r.collections) r.host
  | raised {error : Error} {n : Nat} {h : Host κ χ} :
      Reached handler n h → h.engine.frames = [] →
        Reached handler n (h.update fun e => (e.exceptionValue error).2.pushThrown (e.exceptionValue error).1)

end ScriptEngine
