import ScriptEngine.Fault

namespace ScriptEngine

inductive MathFunction where
  | abs | floor | ceil | sqrt | round | pow | max | min
deriving DecidableEq, Repr

inductive Builtin where
  | print
  | makeError (name : ErrorName)
  | string
  | number
  | isNaN
  | eval
  | gc
  | isFinite
  | math (function : MathFunction)
deriving DecidableEq, Repr

def MathFunction.name : MathFunction → String
  | .abs => "abs"
  | .floor => "floor"
  | .ceil => "ceil"
  | .sqrt => "sqrt"
  | .round => "round"
  | .pow => "pow"
  | .max => "max"
  | .min => "min"

namespace Builtin

def name : Builtin → String
  | .print => "print"
  | .makeError name => name.text
  | .string => "String"
  | .number => "Number"
  | .isNaN => "isNaN"
  | .eval => "eval"
  | .gc => "gc"
  | .isFinite => "isFinite"
  | .math function => function.name

def globals : List Builtin :=
  [.print, .makeError .error, .makeError .typeError, .makeError .rangeError,
    .makeError .referenceError, .string, .number, .isNaN, .eval, .gc, .isFinite]

def mathMembers : List Builtin :=
  [.math .abs, .math .floor, .math .ceil, .math .sqrt, .math .round, .math .pow, .math .max,
    .math .min]

end Builtin

def greater (x y : Float) : Float :=
  if x < y then y else x

def smaller (x y : Float) : Float :=
  if y < x then y else x

def extreme (choose : Float → Float → Float) (x : Float) : List Float → Float
  | [] => x
  | y :: ys => if y.isNaN then Decimal.notANumber else extreme choose (choose x y) ys

def pi : Float := 3.141592653589793

namespace MathFunction

def apply (f : MathFunction) (args : List Float) : Float :=
  let x := args.head?.getD Decimal.notANumber
  match f with
  | .abs => x.abs
  | .floor => x.floor
  | .ceil => x.ceil
  | .sqrt => x.sqrt
  | .round => (x + 0.5).floor
  | .pow => x.pow ((args.drop 1).head?.getD Decimal.notANumber)
  | .max => extreme greater (-Decimal.infinite) args
  | .min => extreme smaller Decimal.infinite args

end MathFunction

end ScriptEngine
