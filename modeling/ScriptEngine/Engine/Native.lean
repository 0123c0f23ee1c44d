import ScriptEngine.Engine.Load

namespace ScriptEngine

inductive NativeResult where
  | value (value : Value)
  | run (closure : Value)

namespace Engine

def print (args : List Value) : EngineM Unit := do
  let e ← get
  match e.output.write (" ".intercalate (args.map e.display) ++ "\n") with
  | .ok output => set { e with output }
  | .error reason => .fault (.unwritten reason)

def makeError (name : ErrorName) (args : List Value) (e : Engine) : Value × Engine :=
  match args with
  | [] | .undefined :: _ => e.newError name ""
  | value :: _ => e.newError name (e.display value)

def native (f : Builtin) (args : List Value) : EngineM NativeResult := do
  let e ← get
  match f, args with
  | .print, args => print args; return .value .undefined
  | .makeError name, args => return .value (← modifyGet (makeError name args))
  | .string, [] => return .value (.string "")
  | .string, value :: _ => return .value (.string (e.display value))
  | .number, [] => return .value (.number 0.0)
  | .number, value :: _ => return .value (.number value.toNumber)
  | .isNaN, args => return .value (.boolean (args.headD .undefined).toNumber.isNaN)
  | .isFinite, args => return .value (.boolean (args.headD .undefined).toNumber.isFinite)
  | .eval, [] => return .value .undefined
  | .eval, .string source :: _ => return .run (← load "(eval)" source .eval)
  | .eval, value :: _ => return .value value
  | .gc, _ => modify fun e => e.gc.2; return .value .undefined
  | .math function, args => return .value (.number (function.apply (args.map Value.toNumber)))

def callNative (f : Builtin) (args : List Value) : EngineM NativeResult := fun e =>
  match enterTrace ⟨f.name, "native", 0⟩ e with
  | .error error e => .error error e
  | .ok _ e =>
    match native f args e with
    | .ok (.value value) e => .ok (.value value) e.leaveTrace
    | .ok (.run closure) e => .ok (.run closure) e
    | .error error e => .error error e.leaveTrace

end Engine

end ScriptEngine
