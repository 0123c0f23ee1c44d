import ScriptEngine.Decimal.Shortest

namespace ScriptEngine.Decimal

def zeros (n : Nat) : List Char :=
  List.replicate n '0'

def withPoint (digits : List Char) (places : Nat) : List Char :=
  let padded := zeros (places + 1 - digits.length) ++ digits
  padded.take (padded.length - places) ++ '.' :: padded.drop (padded.length - places)

def Scientific.positional (s : Scientific) : List Char :=
  let digits := Nat.toDigits 10 s.coefficient
  if 0 ≤ s.exponent then digits ++ zeros s.exponent.toNat else withPoint digits (-s.exponent).toNat

def text (x : Float) : String :=
  if x.isNaN then "NaN"
  else if x.isInf then (if isNegative x then "-Infinity" else "Infinity")
  else if x == 0.0 then "0"
  else
    let magnitude := (shortest (Dyadic.ofFloat x)).positional
    String.ofList (if isNegative x then '-' :: magnitude else magnitude)

end ScriptEngine.Decimal
