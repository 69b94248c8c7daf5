import LogCorrelation.Intervals.OnePass
import LogCorrelation.Log.Reader
import LogCorrelation.Report.Basic

/-!
# Report.OfLogs — from two logs to a report

Both logs are opened before either is read.  Whatever goes wrong first is the answer; no report is made of a part of
the logs.
-/

namespace LogCorrelation.Report

/-- Why two logs give no report. -/
inductive Fault
  | log (fault : Log.Fault)
  | firstLatency (fault : Intervals.FirstLatencyFault)

/-- The texts of a fault and of what stands behind it, outermost first. -/
def Fault.chain : Fault → List String
  | .log (.notOpened name path cause) => [(Log.Fault.notOpened name path cause).message, cause]
  | .log fault => "Failed to partition I/O log" :: fault.message :: fault.causes
  | .firstLatency fault => [fault.message]

/-- The name of the log of commands. -/
def commandLogName : String := "commands"

/-- The name of the log of events. -/
def ioLogName : String := "io events"

/-- A log as its storage hands it out, or why it cannot be opened. -/
abbrev Opened := Except String Log.Source

/-- The source of a log, or the fault that it could not be opened. -/
def sourceOf (name path : String) : Opened → Except Fault Log.Source
  | .ok source => .ok source
  | .error cause => .error (.log (.notOpened name path cause))

/-- The intervals of two logs. -/
def intervalsOf (commands io : Log.Source) : Except Fault Intervals :=
  (Intervals.measure (Log.Reader.ofSource commandLogName commands).feed
    (Log.Reader.ofSource ioLogName io).feed).outcome.mapError .log

/-- The report on the logs that the settings name. -/
def ofLogs (s : Settings) (commands io : Opened) : Except Fault Report := do
  let commands ← sourceOf commandLogName s.commandLog commands
  let io ← sourceOf ioLogName s.ioLog io
  let intervals ← intervalsOf commands io
  (ofIntervals intervals s).mapError .firstLatency

end LogCorrelation.Report
