import LogCorrelation.Text.Quoted
import LogCorrelation.TimeOfDay.Text

/-!
# Log.Fault — what can be wrong with a log

Each fault names the log.  Those met while reading also give the line, counted from one, blank lines included.
`causes` lists the texts of the underlying faults, outermost first.
-/

namespace LogCorrelation.Log

/-- Why a log could not be read as a sequence of times. -/
inductive Fault
  /-- The file could not be opened. -/
  | notOpened (log path cause : String)
  /-- The line could not be read, or is not UTF-8. -/
  | unreadable (log : String) (line : Nat) (cause : String)
  /-- The line holds something else than a time of day. -/
  | malformed (log : String) (line : Nat) (cause : TimeOfDay.Malformed)
  /-- The line's time precedes an earlier line's. -/
  | outOfOrder (log : String) (line : Nat) (previous current : TimeOfDay)
deriving DecidableEq

namespace Fault

/-- The wording of a fault. -/
def message : Fault → String
  | .notOpened log path cause => s!"failed to open {log} log {Text.quoted path}: {cause}"
  | .unreadable log line cause => s!"failed to read {log} log at line {line}: {cause}"
  | .malformed log line cause => s!"{log} log line {line}: {cause.message}"
  | .outOfOrder log line previous current =>
    s!"{log} log line {line}: timestamp {current.text} precedes {previous.text} " ++
      "(logs crossing midnight must be normalized first)"

/-- The texts of the faults behind this one. -/
def causes : Fault → List String
  | .notOpened _ _ cause => [cause]
  | .unreadable _ _ cause => [cause]
  | .malformed _ _ cause => [cause.message]
  | .outOfOrder .. => []

end Fault

end LogCorrelation.Log
