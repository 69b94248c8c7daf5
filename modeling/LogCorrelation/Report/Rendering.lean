import LogCorrelation.CommandLine.Options
import LogCorrelation.Report.Document
import LogCorrelation.Report.Page
import LogCorrelation.Report.Plain
import LogCorrelation.Report.Rows

/-!
# Report.Rendering — a report in the format asked for

A plain text and comma-separated rows are made here.  What writes a JSON value and what draws a chart is not part of a
report: both are handed over as a `Press`, and both may fail.
-/

namespace LogCorrelation.Report

/-- What documents and pages are made with.  A failure comes with its text and those of its causes, outermost first. -/
structure Press where
  /-- The text of a JSON value. -/
  write : Json → Except (List String) String
  /-- The drawing of a chart. -/
  draw : Chart → Except (List String) String

/-- Why a report could not be put into its format. -/
inductive RenderingFault
  /-- The document could not be written. -/
  | document (causes : List String)
  /-- A chart could not be drawn. -/
  | charts (causes : List String)
deriving DecidableEq, Repr

/-- The text of a fault and of its causes, outermost first. -/
def RenderingFault.chain : RenderingFault → List String
  | .document causes => "Failed to serialize JSON report" :: causes
  | .charts causes => "Failed to render HTML charts" :: causes

/-- The report in a format. -/
def render (press : Press) (r : Report) : CommandLine.Format → Except RenderingFault String
  | .text => .ok r.plain
  | .json => (press.write r.document.json).mapError .document
  | .csv => .ok r.commaSeparated
  | .html => (r.page.print press.draw).mapError .charts

end LogCorrelation.Report
