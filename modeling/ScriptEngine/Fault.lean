import ScriptEngine.Value

namespace ScriptEngine

inductive ErrorName where
  | error | syntaxError | typeError | referenceError | rangeError
deriving DecidableEq, Repr

def ErrorName.text : ErrorName → String
  | .error => "Error"
  | .syntaxError => "SyntaxError"
  | .typeError => "TypeError"
  | .referenceError => "ReferenceError"
  | .rangeError => "RangeError"

inductive Referent where
  | object | environment | bindings
deriving DecidableEq, Repr

def Referent.text : Referent → String
  | .object => "object"
  | .environment => "environment"
  | .bindings => "binding object"

inductive Fault where
  | stackOverflow
  | stackUnderflow
  | callStackOverflow
  | exceptionStackOverflow
  | badFunctionIndex
  | notAFunction (callee : String)
  | notDefined (name : String)
  | undeclared (name : String)
  | notLive (what : Referent)
  | unreadable (name : String) (target : Value)
  | unsettable (name : String) (target : Value)
  | unwritten (reason : String)
  | raised (name : ErrorName) (message : String)
deriving DecidableEq, Repr

namespace Fault

def name : Fault → ErrorName
  | .stackOverflow | .stackUnderflow | .callStackOverflow | .exceptionStackOverflow
  | .badFunctionIndex => .rangeError
  | .notAFunction _ | .unreadable _ _ | .unsettable _ _ => .typeError
  | .notDefined _ | .undeclared _ | .notLive _ => .referenceError
  | .unwritten _ => .error
  | .raised name _ => name

def message : Fault → String
  | .stackOverflow => "stack overflow"
  | .stackUnderflow => "stack underflow"
  | .callStackOverflow => "call stack overflow"
  | .exceptionStackOverflow => "exception stack overflow"
  | .badFunctionIndex => "bad function index"
  | .notAFunction callee => callee ++ " is not a function"
  | .notDefined name => "'" ++ name ++ "' is not defined"
  | .undeclared name => "assignment to undeclared variable '" ++ name ++ "'"
  | .notLive what => what.text ++ " is no longer live"
  | .unreadable name target => "cannot read property '" ++ name ++ "' of " ++ target.text
  | .unsettable name target => "cannot set property '" ++ name ++ "' of " ++ target.text
  | .unwritten reason => "cannot write output: " ++ reason
  | .raised _ message => message

end Fault

end ScriptEngine
