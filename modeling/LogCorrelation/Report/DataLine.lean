import LogCorrelation.Decimal.Reader
import LogCorrelation.Report.Plain

/-!
# Report.DataLine — the first line of the plain report read back

Counts and latencies stand between brackets, separated by a comma and a blank; a hyphen is an unknown latency.
-/

namespace LogCorrelation.Report

/-- The texts between separators of a comma and a blank. -/
def separated : List Char → List (List Char)
  | [] => [[]]
  | ',' :: ' ' :: rest => [] :: separated rest
  | c :: rest =>
    match separated rest with
    | [] => [[c]]
    | item :: items => (c :: item) :: items

/-- The items between brackets, and what follows the closing bracket. -/
def readBracketed : List Char → Option (List (List Char) × List Char)
  | '[' :: cs =>
    match cs.dropWhile (· ≠ ']') with
    | ']' :: rest =>
      let inner := cs.takeWhile (· ≠ ']')
      some (if inner = [] then [] else separated inner, rest)
    | _ => none
  | _ => none

/-- The count that digits denote. -/
def readCount (cs : List Char) : Option Nat :=
  if cs ≠ [] ∧ cs.all Char.isDigit then some (Decimal.value cs) else none

/-- The latency that a text denotes. -/
def readLatency (cs : List Char) : Option (Option Float) :=
  if cs = ['-'] then some none else (Decimal.ofText? (String.ofList cs)).map some

/-- The texts of the counts and of the latencies in the first line of a plain report. -/
def dataLineTexts (s : String) : Option (List (List Char) × List (List Char)) := do
  let (counts, rest) ← readBracketed s.toList
  let ' ' :: rest := rest | none
  let (latencies, rest) ← readBracketed rest
  let '\n' :: _ := rest | none
  return (counts, latencies)

/-- The counts and latencies in the first line of a plain report. -/
def readDataLine (s : String) : Option (List Nat × List (Option Float)) := do
  let (counts, latencies) ← dataLineTexts s
  return (← counts.mapM readCount, ← latencies.mapM readLatency)

end LogCorrelation.Report
