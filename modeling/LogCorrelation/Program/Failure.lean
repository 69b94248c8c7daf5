import LogCorrelation.Report.OfLogs
import LogCorrelation.Report.Rendering
import LogCorrelation.Settings.Document

/-!
# Program.Failure — what a failed run tells

A failure has a first text and the texts of its causes.  A single cause is indented by four blanks; several are
numbered.  Further lines of a text are indented under its first.
-/

namespace LogCorrelation.Program

/-- Why a run failed after its command line was accepted. -/
inductive Failure
  /-- The settings file could not be read. -/
  | settingsUnread (path cause : String)
  /-- The settings file does not describe settings, or they break a rule. -/
  | settingsInvalid (path : String) (fault : Settings.Fault)
  /-- The settings and options taken together break a rule. -/
  | settings (fault : Settings.Fault)
  /-- The logs give no report. -/
  | report (fault : Report.Fault)
  /-- The report could not be put into its format. -/
  | rendering (fault : Report.RenderingFault)
  /-- The report could not be written. -/
  | notWritten (path cause : String)

/-- The texts behind a fault of a settings file. -/
def settingsCauses (fault : Settings.Fault) : List String :=
  match fault with
  | .notADocument => [fault.message, "TOML parse error"]
  | _ => [fault.message]

/-- The text of a failure and of its causes, outermost first. -/
def Failure.chain : Failure → List String
  | .settingsUnread path cause => [s!"Failed to read config file: {path}", cause]
  | .settingsInvalid path fault => s!"Invalid config file: {path}" :: settingsCauses fault
  | .settings fault => [fault.message]
  | .report fault => fault.chain
  | .rendering fault => fault.chain
  | .notWritten path cause => [s!"Failed to write report to {path}", cause]

/-- A text whose lines after the first are indented. -/
def hanging (indent : Nat) (s : String) : String :=
  ("\n".pushn ' ' indent).intercalate (s.splitOn "\n")

/-- Numbered causes, each on lines of its own. -/
def numberedCauses (number : Nat) : List String → List String
  | [] => []
  | cause :: rest =>
    let label := toString number
    ("".pushn ' ' (5 - label.length) ++ label ++ ": " ++ hanging 7 cause ++ "\n") :: numberedCauses (number + 1) rest

/-- What stands under the first text. -/
def causesText : List String → String
  | [] => ""
  | [cause] => "\nCaused by:\n    " ++ hanging 4 cause ++ "\n"
  | causes => "\nCaused by:\n" ++ String.join (numberedCauses 0 causes)

/-- What a failed run prints. -/
def Failure.text (f : Failure) : String :=
  match f.chain with
  | [] => ""
  | first :: causes => s!"Error: {first}\n" ++ causesText causes

end LogCorrelation.Program
