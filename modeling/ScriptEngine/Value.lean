import ScriptEngine.Decimal.Layout
import ScriptEngine.Decimal.Reader
import ScriptEngine.Text.Blank

namespace ScriptEngine

structure Handle where
  index : Nat
deriving DecidableEq, Repr

inductive Value where
  | undefined
  | null
  | boolean (value : Bool)
  | number (value : Float)
  | string (value : String)
  | object (handle : Handle)
deriving DecidableEq, Repr

namespace Value

instance : Inhabited Value := ⟨.undefined⟩

def handle? : Value → Option Handle
  | .object h => some h
  | _ => none

def string? : Value → Option String
  | .string s => some s
  | _ => none

def truthy : Value → Bool
  | .undefined | .null => false
  | .boolean b => b
  | .number x => !(x == 0.0) && !x.isNaN
  | .string s => !s.isEmpty
  | .object _ => true

def readNumber (s : String) : Float :=
  let t := Text.trim s
  if t.isEmpty then 0.0 else (Decimal.read? t).getD Decimal.notANumber

def toNumber : Value → Float
  | .undefined | .object _ => Decimal.notANumber
  | .null => 0.0
  | .boolean b => if b then 1.0 else 0.0
  | .number x => x
  | .string s => readNumber s

def strictEquals : Value → Value → Bool
  | .undefined, .undefined | .null, .null => true
  | .boolean a, .boolean b => a == b
  | .number a, .number b => a == b
  | .string a, .string b => a == b
  | .object a, .object b => a == b
  | _, _ => false

def isNullish : Value → Bool
  | .undefined | .null => true
  | _ => false

/-- The comparison that converts: the two empty values are equal to each other only, objects are
equal to themselves only, and otherwise two texts compare as texts and all else as numbers. -/
def looseEquals (a b : Value) : Bool :=
  if a.isNullish || b.isNullish then a.isNullish && b.isNullish
  else match a, b with
    | .object x, .object y => x == y
    | .object _, _ | _, .object _ => false
    | .string x, .string y => x == y
    | a, b => a.toNumber == b.toNumber

def text : Value → String
  | .undefined => "undefined"
  | .null => "null"
  | .boolean b => if b then "true" else "false"
  | .number x => Decimal.text x
  | .string s => s
  | .object _ => "[object]"

end Value

end ScriptEngine
