import LogCorrelation.Json.ValueTexts
import LogCorrelation.Report.Document

/-!
# Report.DocumentReader — documents read back from JSON

Every field of a document has to be there and of its kind; a latency that is null is unknown.  The texts of latencies
are found beside, as they stand in the text of a document and of the classes in it.
-/

namespace LogCorrelation.Report

/-! ### Values of one kind -/

/-- The text that a value is. -/
def text? : Json → Option String
  | .text s => some s
  | _ => none

/-- The natural number that a value is. -/
def count? : Json → Option Nat
  | .count n => some n
  | _ => none

/-- The truth value that a value is. -/
def truth? : Json → Option Bool
  | .truth b => some b
  | _ => none

/-- The items of the list that a value is. -/
def list? : Json → Option (List Json)
  | .list items => some items
  | _ => none

/-- A latency, or null if it is unknown. -/
def latency? : Json → Option (Option Float)
  | .null => some none
  | .real x => some (some x)
  | _ => none

/-! ### Documents -/

/-- The class of batches that a JSON object describes. -/
def DocumentClass.ofJson? (j : Json) : Option DocumentClass := do
  return {
    label := ← (← j.field? "label") |> text?
    counts := ← (← (← j.field? "io_counts") |> list?).mapM count?
    latencies := ← (← (← j.field? "latencies_ms") |> list?).mapM latency? }

/-- The document that a JSON object describes. -/
def Document.ofJson? (j : Json) : Option Document := do
  return {
    version := ← (← j.field? "version") |> text?
    batchSize := ← (← j.field? "batch_size") |> count?
    commands := ← (← j.field? "commands") |> count?
    events := ← (← j.field? "io_events") |> count?
    firstFilled := ← (← j.field? "first_latency_corrected") |> truth?
    counts := ← (← (← j.field? "io_counts") |> list?).mapM count?
    latencies := ← (← (← j.field? "latencies_ms") |> list?).mapM latency?
    classes := ← (← (← j.field? "series") |> list?).mapM DocumentClass.ofJson? }

/-- The document that a text holds. -/
def Document.read (s : String) : Option Document := (Json.read s).bind ofJson?

/-! ### Texts of latencies -/

/-- The texts of the items in a field of an object. -/
def fieldItemTexts (name : String) (cs : List Char) : Option (List (List Char)) := do
  Json.itemTexts (← (← Json.fieldTexts cs).lookup name)

/-- The texts of the latencies in a document, or in a class of it. -/
def latencyTexts (cs : List Char) : Option (List (List Char)) := fieldItemTexts "latencies_ms" cs

/-- The texts of the latencies in each class of a document. -/
def classLatencyTexts (cs : List Char) : Option (List (List (List Char))) := do
  (← fieldItemTexts "series" cs).mapM latencyTexts

end LogCorrelation.Report
