namespace ScriptEngine.Decimal

structure Dyadic where
  significand : Nat
  exponent : Int
deriving DecidableEq, Repr

namespace Dyadic

def fractionSize : Nat := 0x10000000000000

def scaleSize : Nat := 0x800

def leastExponent : Int := -1074

def ofFloat (x : Float) : Dyadic :=
  let bits := x.toBits.toNat
  let fraction := bits % fractionSize
  let scale := bits / fractionSize % scaleSize
  if scale = 0 then ⟨fraction, leastExponent⟩
  else ⟨fractionSize + fraction, leastExponent + (scale - 1 : Nat)⟩

def toFloat (d : Dyadic) : Float :=
  (Float.ofNat d.significand).scaleB d.exponent

def multipleOf (e : Int) (d : Dyadic) : Nat :=
  d.significand * Nat.pow 2 (d.exponent - e).toNat

def mod (a b : Dyadic) : Dyadic :=
  let e := min a.exponent b.exponent
  ⟨a.multipleOf e % b.multipleOf e, e⟩

end Dyadic

def isNegative (x : Float) : Bool :=
  0x8000000000000000 ≤ x.toBits.toNat

def notANumber : Float := 0.0 / 0.0

def infinite : Float := 1.0 / 0.0

def remainder (x y : Float) : Float :=
  if x.isNaN || y.isNaN || x.isInf || y == 0.0 then notANumber
  else if y.isInf then x
  else
    let r := ((Dyadic.ofFloat x).mod (Dyadic.ofFloat y)).toFloat
    if isNegative x then -r else r

end ScriptEngine.Decimal
