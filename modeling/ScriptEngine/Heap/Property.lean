import ScriptEngine.Heap

namespace ScriptEngine.Heap

def findProperty (h : Heap) (name : String) : Nat → Handle → Option Value
  | 0, _ => none
  | n + 1, a =>
    match h.object? a with
    | none => none
    | some o =>
      match o.properties.get? name with
      | some value => some value
      | none => o.parent.bind (findProperty h name n)

def getProperty (h : Heap) (target : Value) (name : String) : Except Fault Value :=
  match target with
  | .object a => .ok ((h.findProperty name h.chainLimit a).getD .undefined)
  | .string s => .ok (if name = "length" then .number (Float.ofNat s.length) else .undefined)
  | .boolean _ | .number _ => .ok .undefined
  | .undefined | .null => .error (.unreadable name target)

def setProperty (h : Heap) (target : Value) (name : String) (value : Value) : Except Fault Heap :=
  match target with
  | .object a =>
    match h.insertProperty? a name value with
    | some h => .ok h
    | none => .error (.notLive .object)
  | .string _ | .boolean _ | .number _ => .ok h
  | .undefined | .null => .error (.unsettable name target)

def isCallable (h : Heap) (value : Value) : Bool :=
  (value.handle?.bind h.object?).any (·.isCallable)

def typeOf (h : Heap) (value : Value) : String :=
  match value with
  | .undefined => "undefined"
  | .null => "object"
  | .boolean _ => "boolean"
  | .number _ => "number"
  | .string _ => "string"
  | .object _ => if h.isCallable value then "function" else "object"

def displayWithin (h : Heap) : Nat → Value → String
  | 0, value => value.text
  | n + 1, .object a =>
    match h.object? a with
    | none => (Value.object a).text
    | some o =>
      match o.kind with
      | .plain => "[object Object]"
      | .closure unit _ => "function " ++ unit.name ++ "() \x7b ... \x7d"
      | .native f => "function " ++ f.name ++ "() \x7b [native code] \x7d"
      | .error =>
        let part (name : String) : Option String :=
          match h.getProperty (.object a) name with
          | .ok .undefined | .error _ => none
          | .ok value => some (displayWithin h n value)
        let name := (part "name").getD "Error"
        let message := (part "message").getD ""
        if message.isEmpty then name else name ++ ": " ++ message
  | _ + 1, value => value.text

def display (h : Heap) (value : Value) : String :=
  h.displayWithin h.chainLimit value

end ScriptEngine.Heap
