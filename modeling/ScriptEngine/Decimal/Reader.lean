import ScriptEngine.Decimal.Shortest

namespace ScriptEngine.Decimal

def digitsValue (digits : List Char) : Nat :=
  digits.foldl (fun n c => 10 * n + (c.toNat - '0'.toNat)) 0

def Scientific.toFloat (s : Scientific) : Float :=
  let magnitude := (Nat.toDigits 10 s.coefficient).length + s.exponent
  if s.coefficient = 0 ∨ magnitude < -330 then 0.0
  else if 310 < magnitude then infinite
  else Float.ofScientific s.coefficient (s.exponent < 0) s.exponent.natAbs

def sign : List Char → Bool × List Char
  | '+' :: cs => (false, cs)
  | '-' :: cs => (true, cs)
  | cs => (false, cs)

def fraction : List Char → List Char × List Char
  | '.' :: cs => cs.span Char.isDigit
  | cs => ([], cs)

def exponent? : List Char → Option Int
  | [] => some 0
  | c :: cs =>
    let (negative, digits) := sign cs
    if (c = 'e' ∨ c = 'E') ∧ digits ≠ [] ∧ digits.all Char.isDigit then
      some (if negative then -(digitsValue digits : Int) else digitsValue digits)
    else none

def scientific? (cs : List Char) : Option Scientific :=
  let (whole, rest) := cs.span Char.isDigit
  let (part, rest) := fraction rest
  if whole = [] ∧ part = [] then none
  else (exponent? rest).map fun e => ⟨digitsValue (whole ++ part), e - part.length⟩

def magnitude? (cs : List Char) : Option Float :=
  match String.ofList (cs.map Char.toLower) with
  | "inf" => some infinite
  | "infinity" => some infinite
  | "nan" => some notANumber
  | _ => (scientific? cs).map Scientific.toFloat

def read? (s : String) : Option Float :=
  let (negative, cs) := sign s.toList
  (magnitude? cs).map fun x => if negative then -x else x

end ScriptEngine.Decimal
