import ScriptEngine.Tree

namespace ScriptEngine

inductive Instr where
  | undefined
  | null
  | boolean (value : Bool)
  | number (value : Float)
  | string (value : String)
  | this
  | getVar (name : String)
  | setVar (name : String)
  | defineVar (name : String)
  | declareVar (name : String)
  | closure (index : Nat)
  | newObject
  | initProp (name : String)
  | getProp (name : String)
  | setProp (name : String)
  | getIndex
  | setIndex
  | getMethod (name : String)
  | call (argc : Nat)
  | pop
  | setCompletion
  | negate
  | not
  | typeof
  | binary (op : BinaryOp)
  | jump (target : Nat)
  | jumpIfFalse (target : Nat)
  | jumpIfFalseKeep (target : Nat)
  | jumpIfTrueKeep (target : Nat)
  | return
  | throw
  | try (handler exit : Nat)
  | leave
  | enterCatch (name : String)
  | exitCatch
deriving DecidableEq, Repr

/-- The executable form of a script or a function body. A script binds its names in the environment
that it is closed over; a function opens one of its own. -/
structure CodeUnit where
  name : String
  file : String
  line : Nat
  params : List String
  code : Array Instr
  lines : Array Nat
  functions : List CodeUnit
  isScript : Bool
  strict : Bool

end ScriptEngine
