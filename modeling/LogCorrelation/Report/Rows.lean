import LogCorrelation.Decimal.Float
import LogCorrelation.Report.Basic
import LogCorrelation.Report.Plain

/-!
# Report.Rows — the report as comma-separated rows

One row for each interval, in order, under a header.  A field that holds a comma, a quote or a line feed is written
between quotes, the quotes in it twice.
-/

namespace LogCorrelation.Report

/-- The row of one interval. -/
structure Row where
  index : Nat
  label : String
  count : Nat
  latency : Option Float

/-- The rows of the counts and latencies from here on, the first having the number `index`. -/
def rowsFrom (classes : Batch.Alternation) (index : Nat) : List Nat → List (Option Float) → List Row
  | [], _ => []
  | count :: counts, latencies =>
    ⟨index, (classes.classOf index).label, count, latencies.head?.join⟩ ::
      rowsFrom classes (index + 1) counts latencies.tail

/-- One row for each interval; an interval without a command has no latency. -/
def rows (r : Report) : List Row := rowsFrom r.classes 0 r.counts r.latencies

/-- The fields of a row. -/
def Row.fields (row : Row) : List String :=
  [toString row.index, row.label, toString row.count, row.latency.elim "" (Decimal.fixed latencyPlaces)]

/-- The names of the fields. -/
def rowHeader : List String := ["index", "series", "io_count", "latency_ms"]

/-! ### Comma-separated text -/

/-- Whether a field has to stand between quotes. -/
def needsQuotes (field : List Char) : Bool := field.any fun c => c == ',' || c == '"' || c == '\n'

/-- A field as it is written. -/
def writeField (field : List Char) : List Char :=
  if needsQuotes field then
    '"' :: field.flatMap (fun c => if c = '"' then ['"', '"'] else [c]) ++ ['"']
  else
    field

/-- Fields with commas between them. -/
def writeFields : List (List Char) → List Char
  | [] => []
  | [field] => writeField field
  | field :: rest => writeField field ++ ',' :: writeFields rest

/-- A record, with the line feed that ends it. -/
def writeRecord (fields : List String) : List Char := writeFields (fields.map (·.toList)) ++ ['\n']

/-- The report as comma-separated rows. -/
def commaSeparated (r : Report) : String :=
  String.ofList ((rowHeader :: r.rows.map (·.fields)).flatMap writeRecord)

end LogCorrelation.Report
