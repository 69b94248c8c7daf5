import LogCorrelation.Decimal.Float
import LogCorrelation.Report.Basic

/-!
# Report.Plain — the report as plain text

The first line lists all counts and all latencies, the second one tells the totals, and a table for each class of
batches follows.
-/

namespace LogCorrelation.Report

/-- Latencies in the first line have the fewest digits that read back; from 1e16 on and below 1e-4 they have an
exponent. -/
def latencyLayout : Decimal.Layout where
  tie := .up
  leastPlain := -4
  greatestPlain := 15
  mark := "e"
  notANumber := "NaN"
  infinity := "inf"
  negativeInfinity := "-inf"

/-- The number of places of a latency in a table. -/
def latencyPlaces : Nat := 3

/-- A text with blanks in front to fill `width` characters. -/
def alignRight (width : Nat) (s : String) : String :=
  String.ofList (List.replicate (width - s.length) ' ') ++ s

/-- Items between brackets. -/
def bracketed (items : List String) : String := "[" ++ ", ".intercalate items ++ "]"

/-- A latency in the first line. -/
def shortLatency : Option Float → String
  | none => "-"
  | some latency => latencyLayout.text latency

/-- A latency in a table; where there is none at all the column is blank. -/
def tableLatency : Option (Option Float) → String
  | none => ""
  | some none => "-"
  | some (some latency) => Decimal.fixed latencyPlaces latency

/-- One line of a table. -/
def tableLine (batch ioRequests latency : String) : String :=
  alignRight 8 batch ++ "  " ++ alignRight 12 ioRequests ++ "  " ++ alignRight 14 latency ++ "\n"

/-- The lines of a table, the first batch having the number `index`. -/
def tableLines (index : Nat) : List (Option Nat × Option (Option Float)) → List String
  | [] => []
  | (count, latency) :: rest =>
    tableLine (toString index) (count.elim "" toString) (tableLatency latency) :: tableLines (index + 1) rest

/-- The table of a class of batches. -/
def table (batchSize : Nat) (c : Batch.CommandClass) : String :=
  s!"{c.label} ({c.length} batches of {batchSize} commands)\n" ++
    tableLine "batch" "io_requests" "latency_ms" ++ String.join (tableLines 0 c.rows)

/-- The line with all counts and all latencies. -/
def dataLine (r : Report) : String :=
  bracketed (r.counts.map toString) ++ " " ++ bracketed (r.latencies.map shortLatency) ++ "\n"

/-- The line with the totals. -/
def totalsLine (r : Report) : String :=
  s!"{r.commandCount} command timestamps, {r.eventCount} I/O events" ++
    (if r.firstFilled then ", first latency copied from index 2" else "") ++ "\n"

/-- The report as plain text. -/
def plain (r : Report) : String :=
  r.dataLine ++ r.totalsLine ++ String.join (r.classes.toList.map fun c => "\n" ++ table r.batchSize c)

end LogCorrelation.Report
