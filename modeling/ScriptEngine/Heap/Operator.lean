import ScriptEngine.Heap.Property

namespace ScriptEngine

def compareNumbers (x y : Float) : Option Ordering :=
  if x < y then some .lt
  else if x == y then some .eq
  else if y < x then some .gt
  else none

def Value.compare? : Value → Value → Option Ordering
  | .string a, .string b => some (compare a b)
  | a, b => compareNumbers a.toNumber b.toNumber

def Value.isTextual : Value → Bool
  | .string _ | .object _ => true
  | _ => false

namespace Heap

def add (h : Heap) (left right : Value) : Value :=
  if left.isTextual || right.isTextual then .string (h.display left ++ h.display right)
  else .number (left.toNumber + right.toNumber)

def binary (h : Heap) (op : BinaryOp) (left right : Value) : Value :=
  match op with
  | .add => h.add left right
  | .sub => .number (left.toNumber - right.toNumber)
  | .mul => .number (left.toNumber * right.toNumber)
  | .div => .number (left.toNumber / right.toNumber)
  | .mod => .number (Decimal.remainder left.toNumber right.toNumber)
  | .equal => .boolean (left.looseEquals right)
  | .notEqual => .boolean (!left.looseEquals right)
  | .strictEqual => .boolean (left.strictEquals right)
  | .strictNotEqual => .boolean (!left.strictEquals right)
  | .less => .boolean ((left.compare? right).any (·.isLT))
  | .lessEqual => .boolean ((left.compare? right).any (·.isLE))
  | .greater => .boolean ((left.compare? right).any (·.isGT))
  | .greaterEqual => .boolean ((left.compare? right).any (·.isGE))

end Heap

end ScriptEngine
