import LogCorrelation.Report.Rendering

/-!
# Report.Drawing — charts drawn as SVG

A drawing has a white ground, the frame of the plotting area, the titles of the axes, the curves and a legend.  This is
one way to draw a chart among others, and `Press.own` makes pages with it.
-/

namespace LogCorrelation.Report

namespace Chart

/-- A pixel as the points of a curve are written. -/
def pixelText (pixel : Int × Int) : String := s!"{pixel.1},{pixel.2}"

/-- A curve of the chart. -/
def drawCurve (c : Chart) (curve : Curve) : String :=
  s!"<polyline fill=\"none\" stroke=\"{curve.colour}\" stroke-width=\"2\" points=\"" ++
    " ".intercalate ((c.pixels curve).map pixelText) ++ "\"/>\n"

/-- The legend's entry for a curve, at a height. -/
def drawLegendEntry (height : Nat) (curve : Curve) : String :=
  s!"<polyline fill=\"none\" stroke=\"{curve.colour}\" points=\"80,{height} 100,{height}\"/>\n" ++
    s!"<text x=\"106\" y=\"{height}\" dy=\"0.35em\" font-size=\"12\">{Text.escapeSvg curve.label}</text>\n"

/-- The legend's entries, one below the other. -/
def drawLegend (height : Nat) : List Curve → List String
  | [] => []
  | curve :: rest => drawLegendEntry height curve :: drawLegend (height + 16) rest

/-- The chart as an SVG element. -/
def draw (c : Chart) : String :=
  "<svg width=\"800\" height=\"360\" viewBox=\"0 0 800 360\" xmlns=\"http://www.w3.org/2000/svg\">\n" ++
    "<rect x=\"0\" y=\"0\" width=\"800\" height=\"360\" fill=\"#FFFFFF\"/>\n" ++
    "<rect x=\"70\" y=\"10\" width=\"720\" height=\"300\" fill=\"none\" stroke=\"#000000\"/>\n" ++
    s!"<text x=\"430\" y=\"346\" text-anchor=\"middle\" font-size=\"12\">{Text.escapeSvg batchTitle}</text>\n" ++
    "<text x=\"20\" y=\"160\" text-anchor=\"middle\" font-size=\"12\" transform=\"rotate(270, 20, 160)\">" ++
    s!"{Text.escapeSvg c.valueTitle}</text>\n" ++
    String.join (c.drawn.map c.drawCurve) ++ String.join (drawLegend 22 c.curves) ++ "</svg>\n"

end Chart

/-- A press that never fails: indented JSON, and charts drawn as here. -/
def Press.own : Press where
  write j := .ok j.pretty
  draw c := .ok c.draw

end LogCorrelation.Report
