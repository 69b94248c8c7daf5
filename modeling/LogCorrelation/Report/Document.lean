import LogCorrelation.CommandLine.Help
import LogCorrelation.Json.Basic
import LogCorrelation.Report.Basic

/-!
# Report.Document — the report as a JSON document

A document repeats the report's data under names, once for the whole and once for each class of batches, and adds
the totals.
-/

namespace LogCorrelation.Report

/-- A class of batches in a document. -/
structure DocumentClass where
  label : String
  counts : List Nat
  latencies : List (Option Float)

/-- What a document holds. -/
structure Document where
  version : String
  batchSize : Nat
  commands : Nat
  events : Nat
  firstFilled : Bool
  counts : List Nat
  latencies : List (Option Float)
  classes : List DocumentClass

/-- The document of a report. -/
def document (r : Report) : Document where
  version := CommandLine.version
  batchSize := r.batchSize
  commands := r.commandCount
  events := r.eventCount
  firstFilled := r.firstFilled
  counts := r.counts
  latencies := r.latencies
  classes := r.classes.toList.map fun c => ⟨c.label, c.counts, c.latencies⟩

/-- Counts as a JSON list. -/
def countsJson (counts : List Nat) : Json := .list (counts.map .count)

/-- Latencies as a JSON list; an unknown one is null. -/
def latenciesJson (latencies : List (Option Float)) : Json :=
  .list (latencies.map fun latency => latency.elim .null .real)

/-- A class of batches as a JSON object. -/
def DocumentClass.json (c : DocumentClass) : Json :=
  .object
    [("label", .text c.label), ("io_counts", countsJson c.counts), ("latencies_ms", latenciesJson c.latencies)]

/-- A document as a JSON object. -/
def Document.json (d : Document) : Json :=
  .object
    [("version", .text d.version), ("batch_size", .count d.batchSize), ("commands", .count d.commands),
      ("io_events", .count d.events), ("first_latency_corrected", .truth d.firstFilled),
      ("io_counts", countsJson d.counts), ("latencies_ms", latenciesJson d.latencies),
      ("series", .list (d.classes.map (·.json)))]

/-- The report as JSON text. -/
def jsonText (r : Report) : String := r.document.json.pretty

end LogCorrelation.Report
