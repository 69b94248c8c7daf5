/-!
# Decimal.Shortest — the shortest decimal that reads back as a given binary number

A positive binary number is `mantissa * 2 ^ exponent`.  The reals that round to it form an interval around it, which
holds its ends if and only if the mantissa is even.  For a grid of the multiples of a power of ten, only the two
grid points next to the number need to be tried.  The grids are nested, so the coarsest grid that has a point in the
interval gives the fewest digits, and of its two points the nearer one is taken.
-/

namespace LogCorrelation.Decimal

/-- Which of two equally near neighbours is taken. -/
inductive Tie
  | up
  | toEven
deriving DecidableEq, Repr

/-- A positive number `mantissa * 2 ^ exponent` in the form that a double has: fifty-three bits, or the least
exponent. -/
structure Binary where
  mantissa : Nat
  exponent : Int
deriving DecidableEq, Repr

/-- The number `coefficient * 10 ^ exponent`. -/
structure Scaled where
  coefficient : Nat
  exponent : Int
deriving DecidableEq, Repr

namespace Binary

/-- The least mantissa of fifty-three bits. -/
def leastNormal : Nat := 4503599627370496

/-- The least exponent of a double. -/
def leastExponent : Int := -1074

/-! ### The interval, in quarters of the last place -/

/-- Whether the next lower double is only half a last place away. -/
def narrowBelow (b : Binary) : Bool := b.mantissa == leastNormal && leastExponent < b.exponent

/-- The number in quarters of its last place. -/
def centre (b : Binary) : Nat := 4 * b.mantissa

/-- The lower end of the interval. -/
def low (b : Binary) : Nat := b.centre - if b.narrowBelow then 1 else 2

/-- The upper end of the interval. -/
def high (b : Binary) : Nat := b.centre + 2

/-! ### One grid -/

/-- A common measure of the grid `10 ^ k` and of quarters of the last place: the weight of a grid step and the weight
of a quarter. -/
def weights (b : Binary) (k : Int) : Nat × Nat :=
  (Nat.pow 10 k.toNat * Nat.pow 2 (2 - b.exponent).toNat, Nat.pow 10 (-k).toNat * Nat.pow 2 (b.exponent - 2).toNat)

/-- Whether the grid point `d * 10 ^ k` lies in the interval. -/
def holds (b : Binary) (k : Int) (d : Nat) : Bool :=
  let (step, quarter) := b.weights k
  if b.mantissa % 2 = 0 then
    b.low * quarter ≤ d * step && d * step ≤ b.high * quarter
  else
    b.low * quarter < d * step && d * step < b.high * quarter

/-- The last grid point not above the number. -/
def below (b : Binary) (k : Int) : Nat :=
  let (step, quarter) := b.weights k
  b.centre * quarter / step

/-- Of the two grid points next to the number, the nearer. -/
def nearer (tie : Tie) (b : Binary) (k : Int) : Nat :=
  let (step, quarter) := b.weights k
  let d := b.below k
  match compare (2 * (b.centre * quarter % step)) step, tie with
  | .lt, _ => d
  | .gt, _ => d + 1
  | .eq, .up => d + 1
  | .eq, .toEven => d + d % 2

/-- The grid point in the interval that is nearest to the number, if the grid has one. -/
def onGrid? (tie : Tie) (b : Binary) (k : Int) : Option Nat :=
  let d := b.below k
  match b.holds k d, b.holds k (d + 1) with
  | true, true => some (b.nearer tie k)
  | true, false => some d
  | false, true => some (d + 1)
  | false, false => none

/-! ### All grids -/

/-- The first hit on the grids `10 ^ k`, `10 ^ (k - 1)`, …; on the last grid the nearest point. -/
def search (tie : Tie) (b : Binary) : Nat → Int → Scaled
  | 0, k => ⟨b.nearer tie k, k⟩
  | fuel + 1, k =>
    match b.onGrid? tie k with
    | some d => ⟨d, k⟩
    | none => search tie b fuel (k - 1)

/-- A grid at least as coarse as the number: `30103 / 100000` is just above the decimal logarithm of two. -/
def coarsest (b : Binary) : Int := (b.mantissa.log2 + 1 + b.exponent) * 30103 / 100000 + 1

/-- The shortest decimal in the interval.  A hit is at most eighteen grids away, since seventeen digits tell every two
doubles apart. -/
def shortest (tie : Tie) (b : Binary) : Scaled := b.search tie 20 b.coarsest

end Binary

end LogCorrelation.Decimal
