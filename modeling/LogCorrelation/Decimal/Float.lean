import LogCorrelation.Decimal.Digits
import LogCorrelation.Decimal.Shortest

/-!
# Decimal.Float — decimal text of doubles

* `Layout.text` writes the fewest digits that read back, laid out as a `Layout` says.
* `fixed` writes a given number of places, rounding the exact value to nearest, ties to even.
* `floor?` and `ceil?` round to an integer.

A double is read through its unpacked form: a sign and `mantissa * 2 ^ exponent`.
-/

namespace LogCorrelation.Decimal

open Float.Model.UnpackedFloat (Sign)

/-! ### Shortest text -/

/-- The layout of the shortest digits. -/
structure Layout where
  /-- Which of two equally near decimals is written. -/
  tie : Tie
  /-- The least exponent of the leading digit that is written without an exponent. -/
  leastPlain : Int
  /-- The greatest such exponent. -/
  greatestPlain : Int
  /-- What stands between the digits and an exponent that is not negative. -/
  mark : String
  notANumber : String
  infinity : String
  negativeInfinity : String

/-- The digits of a number without an exponent, with at least one digit on both sides of the point. -/
def plain (s : Scaled) : List Char :=
  let ds := digits s.coefficient
  if 0 ≤ s.exponent then
    ds ++ List.replicate s.exponent.toNat '0' ++ ['.', '0']
  else
    let places := (-s.exponent).toNat
    if places < ds.length then
      ds.take (ds.length - places) ++ '.' :: ds.drop (ds.length - places)
    else
      '0' :: '.' :: List.replicate (places - ds.length) '0' ++ ds

/-- The exponent of the leading digit. -/
def Scaled.leading (s : Scaled) : Int := s.exponent + (digits s.coefficient).length - 1

/-- The digits of a number with the point after the first one, and its exponent. -/
def scientific (mark : String) (s : Scaled) : List Char :=
  let ds := digits s.coefficient
  let exponent := s.leading
  ds.take 1 ++ (if ds.length = 1 then [] else '.' :: ds.drop 1) ++
    (if 0 ≤ exponent then mark.toList else ['e', '-']) ++ digits exponent.natAbs

/-- The sign of a negative number. -/
def signMark : Sign → List Char
  | .positive => []
  | .negative => ['-']

/-- A decimal laid out. -/
def Layout.digits (l : Layout) (s : Scaled) : List Char :=
  if l.leastPlain ≤ s.leading && s.leading ≤ l.greatestPlain then plain s else scientific l.mark s

/-- The shortest text of a double. -/
def Layout.text (l : Layout) (x : Float) : String :=
  match x.toModel.unpack with
  | .notANumber => l.notANumber
  | .infinity .positive => l.infinity
  | .infinity .negative => l.negativeInfinity
  | .zero sign => String.ofList (signMark sign ++ ['0', '.', '0'])
  | .finite sign mantissa exponent _ =>
    String.ofList (signMark sign ++ l.digits (Binary.shortest l.tie ⟨mantissa, exponent⟩))

/-! ### Fixed places -/

/-- A quotient rounded to the nearest integer, ties to even. -/
def roundDiv (num den : Nat) : Nat :=
  let q := num / den
  match compare (2 * (num % den)) den with
  | .lt => q
  | .gt => q + 1
  | .eq => q + q % 2

/-- The multiple of `10 ^ -places` nearest to a binary number, counted in such steps. -/
def Binary.steps (b : Binary) (places : Nat) : Nat :=
  roundDiv (b.mantissa * Nat.pow 2 b.exponent.toNat * Nat.pow 10 places) (Nat.pow 2 (-b.exponent).toNat)

/-- A number of steps of `10 ^ -places`, for at least one place. -/
def stepsText (places steps : Nat) : List Char :=
  digits (steps / Nat.pow 10 places) ++ '.' :: padded places (steps % Nat.pow 10 places)

/-- A double with `places` digits after the point. -/
def fixed (places : Nat) (x : Float) : String :=
  match x.toModel.unpack with
  | .notANumber => "NaN"
  | .infinity .positive => "inf"
  | .infinity .negative => "-inf"
  | .zero sign => String.ofList (signMark sign ++ stepsText places 0)
  | .finite sign mantissa exponent _ =>
    String.ofList (signMark sign ++ stepsText places (Binary.steps ⟨mantissa, exponent⟩ places))

/-! ### Integers -/

/-- The greatest integer not above a double, if the double is finite. -/
def floor? (x : Float) : Option Int :=
  match x.toModel.unpack with
  | .notANumber | .infinity _ => none
  | .zero _ => some 0
  | .finite sign mantissa exponent _ =>
    let magnitude : Int := (mantissa * Nat.pow 2 exponent.toNat : Nat)
    let signed := match sign with
      | .positive => magnitude
      | .negative => -magnitude
    some (signed / (Nat.pow 2 (-exponent).toNat : Nat))

/-- The least integer not below a double, if the double is finite. -/
def ceil? (x : Float) : Option Int := (floor? (-x)).map (- ·)

end LogCorrelation.Decimal
