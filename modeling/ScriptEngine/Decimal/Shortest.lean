import ScriptEngine.Decimal.Dyadic

namespace ScriptEngine.Decimal

structure Scientific where
  coefficient : Nat
  exponent : Int
deriving DecidableEq, Repr

/-- The numbers that round to a double, as fractions over one denominator. The ends belong to the
interval iff the significand is even, for a half goes to the even neighbour. -/
structure Interval where
  low : Nat
  value : Nat
  high : Nat
  denominator : Nat
  closed : Bool
deriving DecidableEq, Repr

namespace Interval

def ofDyadic (d : Dyadic) : Interval :=
  let narrow := d.significand = Dyadic.fractionSize ∧ d.exponent ≠ Dyadic.leastExponent
  let unit := Nat.pow 2 (d.exponent - 2).toNat
  { low := (4 * d.significand - if narrow then 1 else 2) * unit
    value := 4 * d.significand * unit
    high := (4 * d.significand + 2) * unit
    denominator := Nat.pow 2 (2 - d.exponent).toNat
    closed := d.significand % 2 = 0 }

def contains (i : Interval) (c : Nat) (k : Int) : Bool :=
  let point := c * (i.denominator * Nat.pow 10 k.toNat)
  let scale := Nat.pow 10 (-k).toNat
  if i.closed then i.low * scale ≤ point ∧ point ≤ i.high * scale
  else i.low * scale < point ∧ point < i.high * scale

/-- The point of the grid `10 ^ k · ℤ` in the interval that is nearest to its value, the upper one
of two that are equally near. -/
def onGrid? (i : Interval) (k : Int) : Option Nat :=
  let numerator := i.value * Nat.pow 10 (-k).toNat
  let step := i.denominator * Nat.pow 10 k.toNat
  let below := numerator / step
  match i.contains below k, i.contains (below + 1) k with
  | true, true => some (if step ≤ 2 * (numerator % step) then below + 1 else below)
  | true, false => some below
  | false, true => some (below + 1)
  | false, false => none

def coarsest (i : Interval) : Nat → Int → Scientific
  | 0, k => ⟨i.value * Nat.pow 10 (-k).toNat / (i.denominator * Nat.pow 10 k.toNat), k⟩
  | n + 1, k =>
    match i.onGrid? k with
    | some c => ⟨c, k⟩
    | none => i.coarsest n (k - 1)

end Interval

def Dyadic.decimalCeiling (d : Dyadic) : Int :=
  (Nat.log2 d.significand + 1 + d.exponent) * 30103 / 100000 + 2

def shortest (d : Dyadic) : Scientific :=
  (Interval.ofDyadic d).coarsest 24 d.decimalCeiling

end ScriptEngine.Decimal
