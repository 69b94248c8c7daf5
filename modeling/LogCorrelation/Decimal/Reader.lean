import LogCorrelation.Decimal.Digits

/-!
# Decimal.Reader — doubles read from decimal text

A numeral is a sign, whole digits, and perhaps a fraction and an exponent.  Its double is the one nearest to the
number it denotes.  Beside numerals `ofText?` reads the words for infinity and for what is no number.
-/

namespace LogCorrelation.Decimal

/-- A number as it is written in decimal. -/
structure Numeral where
  negative : Bool
  /-- The digits before the point. -/
  whole : List Char
  /-- The digits after the point. -/
  fraction : List Char
  /-- The power of ten after the exponent mark. -/
  exponent : Int
deriving DecidableEq, Repr

/-- The double nearest to the number that a numeral denotes. -/
def Numeral.toFloat (n : Numeral) : Float :=
  let exponent := n.exponent - n.fraction.length
  let magnitude := Float.ofScientific (value (n.whole ++ n.fraction)) (exponent < 0) exponent.natAbs
  if n.negative then -magnitude else magnitude

/-- The sign in front of a text, and the rest. -/
def signOf : List Char → Bool × List Char
  | '-' :: cs => (true, cs)
  | '+' :: cs => (false, cs)
  | cs => (false, cs)

/-- The integer that a sign and digits denote. -/
def exponent? (cs : List Char) : Option Int :=
  let (negative, ds) := signOf cs
  if ds ≠ [] ∧ ds.all Char.isDigit then
    some (if negative then -(value ds : Int) else value ds)
  else
    none

/-- The numeral that a text is. -/
def numeral? (cs : List Char) : Option Numeral :=
  let (negative, cs) := signOf cs
  let whole := cs.takeWhile Char.isDigit
  let (fraction, rest) := match cs.dropWhile Char.isDigit with
    | '.' :: cs => (cs.takeWhile Char.isDigit, cs.dropWhile Char.isDigit)
    | cs => ([], cs)
  if whole = [] ∧ fraction = [] then
    none
  else
    match rest with
    | [] => some ⟨negative, whole, fraction, 0⟩
    | 'e' :: cs | 'E' :: cs => (exponent? cs).map fun exponent => ⟨negative, whole, fraction, exponent⟩
    | _ => none

/-- The double that a text denotes. -/
def ofText? (s : String) : Option Float :=
  let (negative, cs) := signOf s.toList
  let signed (x : Float) : Float := if negative then -x else x
  match (String.ofList cs).toLower with
  | "nan" => some (signed (0.0 / 0.0))
  | "inf" | "infinity" => some (signed (1.0 / 0.0))
  | _ => (numeral? s.toList).map (·.toFloat)

end LogCorrelation.Decimal
