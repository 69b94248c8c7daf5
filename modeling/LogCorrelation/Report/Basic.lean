import LogCorrelation.Batch.Alternation
import LogCorrelation.Intervals.FirstLatency
import LogCorrelation.Settings.Basic

/-!
# Report — what is told about a run

A report holds the measured intervals, with the first latency filled in if the settings ask for it, and the same data
separated into the two alternating classes of batches.
-/

namespace LogCorrelation

/-- What all formats tell about a run. -/
structure Report where
  /-- The number of commands from one command time to the next. -/
  batchSize : Nat
  /-- Whether the first latency was to be filled in. -/
  firstFilled : Bool
  counts : List Nat
  latencies : List (Option Float)
  classes : Batch.Alternation

namespace Report

/-- The latencies of a report on intervals. -/
def latenciesOf (p : Intervals) (s : Settings) : Except Intervals.FirstLatencyFault (List (Option Float)) :=
  if s.fillFirst then (Intervals.fillFirst p.latencies).map (·.map some) else .ok p.latencies

/-- The report on intervals. -/
def ofIntervals (p : Intervals) (s : Settings) : Except Intervals.FirstLatencyFault Report :=
  (latenciesOf p s).map fun latencies =>
    { batchSize := s.batchSize
      firstFilled := s.fillFirst
      counts := p.counts
      latencies
      classes := .ofData s.evenLabel s.oddLabel p.counts latencies }

/-- The number of commands. -/
def commandCount (r : Report) : Nat := r.latencies.length

/-- The number of events in all intervals. -/
def eventCount (r : Report) : Nat := r.counts.foldr (· + ·) 0

end Report

end LogCorrelation
