import LogCorrelation.Report.Chart

/-!
# Report.Page — the report as an HTML page

A page is a sequence of pieces, markup and charts.  Its markup depends on the batch size and the totals only: labels
stand in the charts.  `Page.text` joins the pieces, given a way to draw a chart; `Page.print` does so where drawing may
fail, and fails with the first chart that does.
-/

namespace LogCorrelation.Report

/-- A piece of a page. -/
inductive Piece
  | markup (s : String)
  | chart (c : Chart)

/-- A page, piece by piece. -/
abbrev Page := List Piece

/-- The text of a page. -/
def Page.text (draw : Chart → String) (page : Page) : String :=
  String.join <| page.map fun
    | .markup s => s
    | .chart c => draw c

/-- The text of a piece, if its chart can be drawn. -/
def Piece.print {ε : Type} (draw : Chart → Except ε String) : Piece → Except ε String
  | .markup s => .ok s
  | .chart c => draw c

/-- The text of a page, if its charts can be drawn. -/
def Page.print {ε : Type} (draw : Chart → Except ε String) (page : Page) : Except ε String :=
  String.join <$> page.mapM (Piece.print draw)

/-- Where drawing does not fail, a page has its text. -/
theorem Page.print_ok {ε : Type} (draw : Chart → String) (page : Page) :
    page.print (fun c => (.ok (draw c) : Except ε String)) = .ok (page.text draw) := by
  have hpiece (piece : Piece) : piece.print (fun c => (.ok (draw c) : Except ε String)) = pure (match piece with
      | .markup s => s
      | .chart c => draw c) := by
    cases piece <;> rfl
  rw [Page.print, funext hpiece, List.mapM_pure]
  rfl

/-- The charts of a page. -/
def Page.charts (page : Page) : List Chart :=
  page.filterMap fun
    | .markup _ => none
    | .chart c => some c

/-- The title of the page. -/
def pageTitle : String := "Benchmark I/O Correlation Report"

/-- The lines of the style sheet. -/
def styleLines : List String :=
  ["body \x7b",
    "    font-family: -apple-system, BlinkMacSystemFont, 'Segoe UI', Roboto, sans-serif;",
    "    margin: 20px;",
    "    background-color: #f5f5f5;",
    "\x7d",
    "h1, h2 \x7b",
    "    color: #333;",
    "\x7d",
    ".chart \x7b",
    "    display: inline-block;",
    "    background-color: white;",
    "    box-shadow: 0 1px 3px rgba(0,0,0,0.1);",
    "    margin-bottom: 20px;",
    "\x7d",
    ".summary \x7b",
    "    font-family: monospace;",
    "    color: #555;",
    "\x7d",
    ".footer \x7b",
    "    margin-top: 20px;",
    "    font-size: 0.8em;",
    "    color: #888;",
    "    text-align: center;",
    "\x7d",
    ""]

/-- Lines, each after a line break and indented by eight blanks. -/
def indented (lines : List String) : String := String.join (lines.map ("\n        " ++ ·))

/-- What stands before the charts. -/
def pageHead (commandCount eventCount : Nat) : String :=
  "<!DOCTYPE html>\n<html lang=\"en\">\n<head>\n" ++
    "    <meta charset=\"UTF-8\">\n" ++
    "    <meta name=\"viewport\" content=\"width=device-width, initial-scale=1.0\">\n" ++
    s!"    <title>{pageTitle}</title>\n" ++
    s!"    <style>{indented styleLines}</style>\n</head>\n<body>\n" ++
    s!"    <h1>{pageTitle}</h1>\n" ++
    s!"    <p class=\"summary\">{commandCount} command timestamps, {eventCount} I/O events</p>\n"

/-- What stands after the charts. -/
def pageFoot : String :=
  "    <div class=\"footer\">\n        Generated by benchcorr\n    </div>\n</body>\n</html>\n"

/-- A chart under its title. -/
def titled (c : Chart) : Page :=
  [.markup s!"    <h2>{Text.escapeHtml c.title}</h2>\n    <div class=\"chart\">\n", .chart c, .markup "\n    </div>\n"]

/-- The report as a page. -/
def page (r : Report) : Page :=
  .markup (pageHead r.commandCount r.eventCount) :: titled r.countChart ++ titled r.latencyChart ++ [.markup pageFoot]

theorem charts_page (r : Report) : r.page.charts = [r.countChart, r.latencyChart] := rfl

theorem mem_charts_page {r : Report} {c : Chart} : c ∈ r.page.charts ↔ c = r.countChart ∨ c = r.latencyChart := by
  rw [charts_page, List.mem_cons, List.mem_singleton]

end LogCorrelation.Report
