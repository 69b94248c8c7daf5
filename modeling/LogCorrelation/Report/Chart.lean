import LogCorrelation.Decimal.Float
import LogCorrelation.Report.Basic
import LogCorrelation.Text.Markup

/-!
# Report.Chart — the charts of a report

A chart has a curve for each class of batches, over the number of the batch within its class.  Points are placed on a
picture of 800 by 360 pixels: the horizontal axis reaches to the greatest batch number, the vertical one a twentieth
above the greatest value.
-/

namespace LogCorrelation.Report

/-- A curve of a chart. -/
structure Curve where
  label : String
  colour : String
  /-- Batch numbers with their values, in order; a batch without a value has no point. -/
  points : List (Nat × Float)

/-- A chart. -/
structure Chart where
  title : String
  valueTitle : String
  curves : List Curve

/-- The title of the horizontal axis. -/
def batchTitle : String := "Batch Index"

/-- The colours of the curves, the even class first. -/
def curveColours : List String := ["#FF6666", "#66B3FF"]

/-! ### Points -/

/-- Values numbered from `index` on, without those that are unknown. -/
def numbered (index : Nat) : List (Option Float) → List (Nat × Float)
  | [] => []
  | none :: rest => numbered (index + 1) rest
  | some value :: rest => (index, value) :: numbered (index + 1) rest

/-- The curve of each class, given the values of a class. -/
def curvesOf (r : Report) (values : Batch.CommandClass → List (Option Float)) : List Curve :=
  r.classes.toList.zipWith (fun c colour => ⟨c.label, colour, numbered 0 (values c)⟩) curveColours

/-- The curves of the counts. -/
def countCurves (r : Report) : List Curve := r.curvesOf fun c => c.counts.map fun n => some (Float.ofNat n)

/-- The curves of the latencies. -/
def latencyCurves (r : Report) : List Curve := r.curvesOf (·.latencies)

/-! ### Titles -/

/-- A digit at its place among `count` digits, behind a comma if it is not the first and a multiple of three digits is
left from it on. -/
def groupedDigit (count : Nat) : Char × Nat → List Char
  | (d, index) => if 0 < index ∧ (count - index) % 3 = 0 then [',', d] else [d]

/-- Digits with a comma before every group of three, counted from the end. -/
def groupDigits (ds : List Char) : List Char := ds.zipIdx.flatMap (groupedDigit ds.length)

/-- A number with its digits in groups of three. -/
def grouped (n : Nat) : String := String.ofList (groupDigits (Decimal.digits n))

/-- The chart of the counts. -/
def countChart (r : Report) : Chart where
  title := s!"I/O Requests per {grouped r.batchSize} Commands"
  valueTitle := "I/O requests"
  curves := r.countCurves

/-- The chart of the latencies. -/
def latencyChart (r : Report) : Chart where
  title := s!"Latency per {grouped r.batchSize} Commands"
  valueTitle := "Latency (ms)"
  curves := r.latencyCurves

namespace Chart

/-! ### Ranges -/

/-- All points, curve after curve. -/
def points (c : Chart) : List (Nat × Float) := c.curves.flatMap (·.points)

/-- The end of the horizontal axis: the greatest batch number, but at least one. -/
def maxIndex (c : Chart) : Nat := max 1 ((c.points.map (·.1)).foldl max 0)

/-- The greater of two values; what is no number does not count. -/
def greater (a b : Float) : Float := if a < b then b else a

/-- The end of the vertical axis: a twentieth above the greatest value, or one if no value is positive. -/
def maxValue (c : Chart) : Float :=
  let greatest := (c.points.map (·.2)).foldl greater 0.0
  if 0.0 < greatest then greatest * 1.05 else 1.0

/-! ### Pixels -/

/-- An integer no less than `low` and no greater than `high`. -/
def clamp (low high n : Int) : Int := max low (min high n)

/-- The horizontal pixel of a batch number, given the end of the axis. -/
def horizontal (maxIndex index : Nat) : Int :=
  let offset := 719.0 * (Float.ofNat index / Float.ofNat maxIndex) + 0.001
  clamp 70 790 (70 + (Decimal.floor? offset).getD 0)

/-- The greatest number of pixels that an offset can have; pixels are counted in thirty-two bits. -/
def greatestOffset : Int := 2147483647

/-- Pixels from the row of zero down to a value, for its share of the vertical axis.  A share that is no number lies on
the row of zero. -/
def offsetOf (share : Float) : Int :=
  let offset := -299.0 * share - 0.001
  match Decimal.ceil? offset with
  | some n => clamp (-greatestOffset - 1) greatestOffset n
  | none => if offset.isNaN then 0 else if offset < 0.0 then -greatestOffset - 1 else greatestOffset

/-- The vertical pixel of a value, given the end of the axis.  An infinite share lies at the end of the axis on its
side, and a row below the greatest that thirty-two bits hold wraps around. -/
def vertical (maxValue value : Float) : Int :=
  let share := value / maxValue
  if share.isInf then
    if share < 0.0 then 309 else 10
  else
    clamp 10 310 ((309 + offsetOf share).bmod 4294967296)

/-- The pixels of a curve. -/
def pixels (c : Chart) (curve : Curve) : List (Int × Int) :=
  let maxIndex := c.maxIndex
  let maxValue := c.maxValue
  curve.points.map fun (index, value) => (horizontal maxIndex index, vertical maxValue value)

/-- The labels in the legend. -/
def legend (c : Chart) : List String := c.curves.map fun curve => Text.escapeSvg curve.label

/-- The curves that are drawn: those with a point. -/
def drawn (c : Chart) : List Curve := c.curves.filter fun curve => !curve.points.isEmpty

end Chart

end LogCorrelation.Report
