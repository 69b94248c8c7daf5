import LogCorrelation.Proofs.Report.FirstFilled
import LogCorrelation.Proofs.Report.Labels
import LogCorrelation.Proofs.Text.Elements
import LogCorrelation.Report.Drawing

/-!
# Proofs.Report.LabelsConfined — labels stay within the legends

A page is markup around two drawings.  Its markup is made of the batch size and of the totals, and a label reaches a
drawing as an escaped text of its legend only, so that it cannot close the SVG element that it stands in.  Whatever the
labels are, two pages differ in nothing but their legends.

* `cutSvg_text_page`: the page outside of its SVG elements.
* `labels_confined`: two reports that are equal but for their labels.
* `isSvg_drawWith`, `render_own_html`: drawings of this library are such elements, and pages are made with them.
-/

namespace LogCorrelation.Report

open Text (avoids avoids_join avoids_ofList avoids_of_not_mem avoids_toList_append cutSvg cutSvg_append cutSvg_element
  escapeHtml escapeSvg IsSvg not_mem_escapeHtml not_mem_escapeSvg opensSvg_ofList svgEnd svgTag)

/-! ### What is left without labels -/

/-- The chart with its labels left out: its titles, and the colours and points of its curves. -/
def Chart.withoutLabels (c : Chart) : Chart := { c with curves := c.curves.map fun curve => { curve with label := "" } }

/-- The report with its labels left out. -/
def withoutLabels (r : Report) : Report :=
  { r with classes := ⟨{ r.classes.even with label := "" }, { r.classes.odd with label := "" }⟩ }

theorem charts_withoutLabels (r : Report) : r.page.charts.map (·.withoutLabels) = r.withoutLabels.page.charts := rfl

theorem points_withoutLabels (c : Chart) : c.withoutLabels.points = c.points := by
  simp only [Chart.points, Chart.withoutLabels, List.flatMap_map]

theorem maxIndex_withoutLabels (c : Chart) : c.withoutLabels.maxIndex = c.maxIndex := by
  rw [Chart.maxIndex, points_withoutLabels, Chart.maxIndex]

theorem maxValue_withoutLabels (c : Chart) : c.withoutLabels.maxValue = c.maxValue := by
  rw [Chart.maxValue, points_withoutLabels, Chart.maxValue]

/-! ### Markup -/

/-- What stands around a drawing. -/
def chartFrame (title : String) : String :=
  s!"    <h2>{escapeHtml title}</h2>\n    <div class=\"chart\">\n" ++ "<svg/>\n" ++ "\n    </div>\n"

/-- A page with its drawings cut down, from the batch size and the totals alone. -/
def pageFrame (batchSize commandCount eventCount : Nat) : String :=
  pageHead commandCount eventCount ++ chartFrame s!"I/O Requests per {grouped batchSize} Commands" ++
    chartFrame s!"Latency per {grouped batchSize} Commands" ++ pageFoot

theorem avoids_toString (tag : List Char) (n : ℕ) : avoids tag (toString n).toList = true :=
  avoids_of_not_mem (not_mem_toString n (by decide))

theorem avoids_indented_styleLines : avoids svgTag (indented styleLines).toList = true := by
  have hlines : ∀ line ∈ styleLines, avoids svgTag line.toList = true := by
    simp only [styleLines, List.forall_mem_cons]
    and_intros
    all_goals first
      | exact avoids_ofList rfl
      | exact List.forall_mem_nil _
  apply avoids_join
  exact List.forall_mem_map.mpr fun line hline => avoids_toList_append (avoids_ofList rfl) (hlines line hline)

theorem avoids_pageHead (commandCount eventCount : ℕ) :
    avoids svgTag (pageHead commandCount eventCount).toList = true := by
  have htitle : avoids svgTag pageTitle.toList = true := avoids_ofList rfl
  have hfirst : avoids svgTag s!"    <title>{pageTitle}</title>\n".toList = true :=
    avoids_toList_append (avoids_toList_append (avoids_ofList rfl) htitle) (avoids_ofList rfl)
  have hstyle : avoids svgTag s!"    <style>{indented styleLines}</style>\n</head>\n<body>\n".toList = true :=
    avoids_toList_append (avoids_toList_append (avoids_ofList rfl) avoids_indented_styleLines) (avoids_ofList rfl)
  have hheading : avoids svgTag s!"    <h1>{pageTitle}</h1>\n".toList = true :=
    avoids_toList_append (avoids_toList_append (avoids_ofList rfl) htitle) (avoids_ofList rfl)
  have hsummary : avoids svgTag
      s!"    <p class=\"summary\">{commandCount} command timestamps, {eventCount} I/O events</p>\n".toList = true := by
    repeat' with_reducible apply avoids_toList_append
    all_goals first
      | with_reducible exact avoids_toString svgTag _
      | exact avoids_ofList rfl
  unfold pageHead
  refine avoids_toList_append (avoids_toList_append (avoids_toList_append (avoids_toList_append ?_ hfirst) hstyle)
    hheading) hsummary
  exact avoids_toList_append (avoids_toList_append (avoids_ofList rfl) (avoids_ofList rfl)) (avoids_ofList rfl)

theorem avoids_escapeHtml (tag : List Char) (s : String) : avoids tag (escapeHtml s).toList = true :=
  avoids_of_not_mem (not_mem_escapeHtml s)

/-! ### Pages -/

section Pages

variable (render : Chart → List String → String)

/-- A chart drawn: a label reaches the drawing as an escaped text of the legend only. -/
def drawBy (c : Chart) : String := render c.withoutLabels c.legend

/-- Drawings are SVG elements, as long as no text in them begins a tag. -/
def DrawsElements : Prop :=
  ∀ (c : Chart) (legend : List String), (∀ text ∈ legend, '<' ∉ text.toList) →
    (∀ curve ∈ c.curves, '<' ∉ curve.colour.toList) → IsSvg (render c legend)

variable {render}

theorem isSvg_drawBy (hrender : DrawsElements render) {r : Report} {c : Chart} (hc : c ∈ r.page.charts) :
    IsSvg (drawBy render c) := by
  apply hrender
  · exact List.forall_mem_map.mpr fun curve _ => not_mem_escapeSvg curve.label
  · have hcolours : c.withoutLabels.curves.map (·.colour) = curveColours := by
      rcases mem_charts_page.mp hc with rfl | rfl <;> rfl
    intro curve hcurve
    have hcolour : curve.colour ∈ curveColours := hcolours ▸ List.mem_map_of_mem hcurve
    have hall : ∀ colour ∈ curveColours, '<' ∉ colour.toList := by decide
    exact hall curve.colour hcolour

theorem toList_text_append (draw : Chart → String) (p q : Page) :
    (Page.text draw (p ++ q)).toList = (Page.text draw p).toList ++ (Page.text draw q).toList := by
  simp only [Page.text, String.toList_join, List.map_append, List.flatMap_append]

theorem toList_text_markup (draw : Chart → String) (s : String) : (Page.text draw [.markup s]).toList = s.toList := by
  simp only [Page.text, String.toList_join, List.map_cons, List.map_nil, List.flatMap_cons, List.flatMap_nil,
    List.append_nil]

theorem toList_text_chart (draw : Chart → String) (c : Chart) :
    (Page.text draw [.chart c]).toList = (draw c).toList := by
  simp only [Page.text, String.toList_join, List.map_cons, List.map_nil, List.flatMap_cons, List.flatMap_nil,
    List.append_nil]

/-- A chart under its title, drawn and cut down. -/
theorem cutSvg_titled {draw : Chart → String} {c : Chart} (h : IsSvg (draw c)) (rest : List Char) :
    cutSvg false ((Page.text draw (titled c)).toList ++ rest) = (chartFrame c.title).toList ++ cutSvg false rest := by
  let before := s!"    <h2>{escapeHtml c.title}</h2>\n    <div class=\"chart\">\n"
  have hbefore : avoids svgTag before.toList = true :=
    avoids_toList_append (avoids_toList_append (avoids_ofList rfl) (avoids_escapeHtml _ _)) (avoids_ofList rfl)
  have hafter : avoids svgTag "\n    </div>\n".toList = true := avoids_ofList rfl
  have htext : (Page.text draw (titled c)).toList = before.toList ++ (draw c).toList ++ "\n    </div>\n".toList := by
    have hpieces : titled c = [.markup before] ++ [.chart c] ++ [.markup "\n    </div>\n"] := rfl
    rw [hpieces, toList_text_append, toList_text_append, toList_text_markup, toList_text_markup, toList_text_chart]
  have hframe : (chartFrame c.title).toList = before.toList ++ "<svg/>\n".toList ++ "\n    </div>\n".toList := by
    simp only [chartFrame, before, String.toList_append]
  rw [htext, hframe, List.append_assoc, List.append_assoc, cutSvg_append hbefore, cutSvg_element h,
    cutSvg_append hafter]
  simp only [List.append_assoc]

/-- **Outside of its SVG elements a page is made of the batch size and the totals.** -/
theorem cutSvg_text_page (hrender : DrawsElements render) (r : Report) :
    cutSvg false (r.page.text (drawBy render)).toList = (pageFrame r.batchSize r.commandCount r.eventCount).toList := by
  have hcount : IsSvg (drawBy render r.countChart) := isSvg_drawBy hrender (mem_charts_page.mpr (.inl rfl))
  have hlatency : IsSvg (drawBy render r.latencyChart) := isSvg_drawBy hrender (mem_charts_page.mpr (.inr rfl))
  have hfoot : avoids svgTag pageFoot.toList = true := avoids_ofList rfl
  have htext : (r.page.text (drawBy render)).toList = (pageHead r.commandCount r.eventCount).toList ++
      ((Page.text (drawBy render) (titled r.countChart)).toList ++
        ((Page.text (drawBy render) (titled r.latencyChart)).toList ++ (pageFoot.toList ++ []))) := by
    have hpage : r.page = [.markup (pageHead r.commandCount r.eventCount)] ++ titled r.countChart ++
      titled r.latencyChart ++ [.markup pageFoot] := rfl
    simp only [hpage, toList_text_append, toList_text_markup, List.append_assoc, List.append_nil]
  have hframe : pageFrame r.batchSize r.commandCount r.eventCount = pageHead r.commandCount r.eventCount ++
      chartFrame r.countChart.title ++ chartFrame r.latencyChart.title ++ pageFoot := rfl
  have hend : cutSvg false [] = [] := rfl
  rw [htext, hframe, cutSvg_append (avoids_pageHead _ _), cutSvg_titled hcount, cutSvg_titled hlatency,
    cutSvg_append hfoot, hend]
  simp only [String.toList_append, List.append_assoc, List.append_nil]

end Pages

/-! ### Labels -/

/-- **Two pages that differ in nothing but their legends.**  Outside of the SVG elements both are made of the same batch
size and totals; both have the same charts but for labels, with the same axes; and of both charts the drawings differ in
the texts of the legends only, the even label standing first. -/
structure DifferInLegends (render : Chart → List String → String) (r r' : Report) : Prop where
  outside : cutSvg false (r.page.text (drawBy render)).toList =
    (pageFrame r.batchSize r.commandCount r.eventCount).toList
  outside' : cutSvg false (r'.page.text (drawBy render)).toList =
    (pageFrame r.batchSize r.commandCount r.eventCount).toList
  two : r.page.charts.length = 2
  charts : r.page.charts.map (·.withoutLabels) = r'.page.charts.map (·.withoutLabels)
  axes : r.page.charts.map (fun c => (c.maxIndex, c.maxValue)) = r'.page.charts.map fun c => (c.maxIndex, c.maxValue)
  legends : ∀ c ∈ r.page.charts, c.legend = r.legendTexts
  legends' : ∀ c ∈ r'.page.charts, c.legend = r'.legendTexts
  drawings : r.page.charts.map (drawBy render) = (r.page.charts.map (·.withoutLabels)).map (render · r.legendTexts)
  drawings' : r'.page.charts.map (drawBy render) = (r.page.charts.map (·.withoutLabels)).map (render · r'.legendTexts)

theorem map_drawBy (render : Chart → List String → String) (r : Report) :
    r.page.charts.map (drawBy render) = (r.page.charts.map (·.withoutLabels)).map (render · r.legendTexts) := by
  rw [List.map_map]
  exact List.map_congr_left fun c hc => congrArg (render c.withoutLabels) (legend_eq_legendTexts hc)

/-- **Labels cannot alter the page.**  Of two reports that are equal but for their labels, whatever these are, the pages
differ in nothing but their legends. -/
theorem labels_confined {render : Chart → List String → String} (hrender : DrawsElements render) {r r' : Report}
    (h : r.withoutLabels = r'.withoutLabels) : DifferInLegends render r r' := by
  have hcharts : r.page.charts.map (·.withoutLabels) = r'.page.charts.map (·.withoutLabels) := by
    rw [charts_withoutLabels, charts_withoutLabels, h]
  have hsize : r.batchSize = r'.batchSize := congrArg (·.batchSize) h
  have hcommands : r.commandCount = r'.commandCount := congrArg (·.latencies.length) h
  have hevents : r.eventCount = r'.eventCount := congrArg (·.counts.foldr (· + ·) 0) h
  have haxes (r : Report) : r.page.charts.map (fun c => (c.maxIndex, c.maxValue)) =
      (r.page.charts.map (·.withoutLabels)).map fun c => (c.maxIndex, c.maxValue) := by
    rw [List.map_map]
    refine List.map_congr_left fun c _ => ?_
    rw [Function.comp_apply, maxIndex_withoutLabels, maxValue_withoutLabels]
  refine ⟨cutSvg_text_page hrender r, ?_, rfl, hcharts, ?_, fun _ => legend_eq_legendTexts,
    fun _ => legend_eq_legendTexts, map_drawBy render r, ?_⟩
  · rw [hsize, hcommands, hevents]
    exact cutSvg_text_page hrender r'
  · rw [haxes, haxes, hcharts]
  · rw [hcharts]
    exact map_drawBy render r'

/-! ### Drawings of this library -/

/-- The legend's entry of a colour, with a text that is escaped already. -/
def legendEntry (height : Nat) (colour text : String) : String :=
  s!"<polyline fill=\"none\" stroke=\"{colour}\" points=\"80,{height} 100,{height}\"/>\n" ++
    s!"<text x=\"106\" y=\"{height}\" dy=\"0.35em\" font-size=\"12\">{text}</text>\n"

/-- The legend's entries, one below the other. -/
def legendEntries (height : Nat) : List Curve → List String → List String
  | curve :: curves, text :: texts => legendEntry height curve.colour text :: legendEntries (height + 16) curves texts
  | _, _ => []

/-- A drawing, given the texts of its legend. -/
def drawWith (c : Chart) (legend : List String) : String :=
  "<svg width=\"800\" height=\"360\" viewBox=\"0 0 800 360\" xmlns=\"http://www.w3.org/2000/svg\">\n" ++
    "<rect x=\"0\" y=\"0\" width=\"800\" height=\"360\" fill=\"#FFFFFF\"/>\n" ++
    "<rect x=\"70\" y=\"10\" width=\"720\" height=\"300\" fill=\"none\" stroke=\"#000000\"/>\n" ++
    s!"<text x=\"430\" y=\"346\" text-anchor=\"middle\" font-size=\"12\">{escapeSvg batchTitle}</text>\n" ++
    "<text x=\"20\" y=\"160\" text-anchor=\"middle\" font-size=\"12\" transform=\"rotate(270, 20, 160)\">" ++
    s!"{escapeSvg c.valueTitle}</text>\n" ++
    String.join (c.drawn.map c.drawCurve) ++ String.join (legendEntries 22 c.curves legend) ++ "</svg>\n"

theorem drawCurve_withoutLabels (c : Chart) (curve : Curve) :
    c.withoutLabels.drawCurve { curve with label := "" } = c.drawCurve curve := by
  have hpixels : c.withoutLabels.pixels { curve with label := "" } = c.pixels curve := by
    unfold Chart.pixels
    rw [maxIndex_withoutLabels, maxValue_withoutLabels]
  unfold Chart.drawCurve
  rw [hpixels]

theorem map_drawCurve_withoutLabels (c : Chart) :
    c.withoutLabels.drawn.map c.withoutLabels.drawCurve = c.drawn.map c.drawCurve := by
  have hdrawn : c.withoutLabels.drawn = c.drawn.map fun curve => { curve with label := "" } := by
    simp only [Chart.drawn, Chart.withoutLabels, List.filter_map]
    rfl
  rw [hdrawn, List.map_map]
  exact List.map_congr_left fun curve _ => drawCurve_withoutLabels c curve

theorem legendEntries_eq (height : ℕ) (curves : List Curve) :
    legendEntries height (curves.map fun curve => { curve with label := "" })
      (curves.map fun curve => escapeSvg curve.label) = Chart.drawLegend height curves := by
  induction curves generalizing height with
  | nil => rfl
  | cons curve curves ih =>
    rw [List.map_cons, List.map_cons, legendEntries, ih, Chart.drawLegend]
    rfl

/-- The drawing of a chart is its drawing without labels, with its legend. -/
theorem drawBy_drawWith (c : Chart) : drawBy drawWith c = c.draw := by
  have hentries : legendEntries 22 c.withoutLabels.curves c.legend = Chart.drawLegend 22 c.curves :=
    legendEntries_eq 22 c.curves
  have htitle : c.withoutLabels.valueTitle = c.valueTitle := rfl
  unfold drawBy drawWith Chart.draw
  rw [map_drawCurve_withoutLabels, hentries, htitle]

/-- Pages with such drawings are those of a press that draws in this way. -/
theorem render_own_html (r : Report) : r.render .own .html = .ok (r.page.text (drawBy drawWith)) := by
  have hdraw : r.page.text (drawBy drawWith) = r.page.text Chart.draw := congrArg r.page.text (funext drawBy_drawWith)
  have hprint : r.page.print Press.own.draw = .ok (r.page.text Chart.draw) :=
    Page.print_ok Chart.draw r.page
  rw [hdraw, render, hprint]
  rfl

theorem not_mem_toString_int {c : Char} (hdigit : c.isDigit = false) (hsign : c ≠ '-') (n : ℤ) :
    c ∉ (toString n).toList := by
  cases n with
  | ofNat n => exact not_mem_toString n hdigit
  | negSucc n =>
    have htext : (toString (Int.negSucc n)).toList = '-' :: (toString (n + 1)).toList := by
      show ("-" ++ toString (n + 1)).toList = _
      rw [String.toList_append]
      rfl
    rw [htext, List.mem_cons, not_or]
    exact ⟨hsign, not_mem_toString (n + 1) hdigit⟩

theorem not_mem_pixelText (pixel : ℤ × ℤ) : '<' ∉ (Chart.pixelText pixel).toList := by
  have hnumber (n : ℤ) : '<' ∉ (toString n).toList := not_mem_toString_int (by decide) (by decide) n
  simp only [Chart.pixelText, String.toList_append, List.mem_append, not_or]
  exact ⟨⟨hnumber _, by decide⟩, hnumber _⟩

theorem avoids_drawCurve (c : Chart) {curve : Curve} (h : '<' ∉ curve.colour.toList) :
    avoids svgEnd (c.drawCurve curve).toList = true := by
  have hpoints : '<' ∉ (" ".intercalate ((c.pixels curve).map Chart.pixelText)).toList := by
    rw [String.toList_intercalate]
    intro hmem
    obtain hblank | ⟨item, hitem, hmem⟩ := mem_intercalate hmem
    · exact absurd hblank (by decide)
    · obtain ⟨text, htext, rfl⟩ := List.mem_map.mp hitem
      obtain ⟨pixel, -, rfl⟩ := List.mem_map.mp htext
      exact not_mem_pixelText pixel hmem
  unfold Chart.drawCurve
  repeat' with_reducible apply avoids_toList_append
  all_goals first
    | exact avoids_of_not_mem h
    | exact avoids_of_not_mem hpoints
    | exact avoids_ofList rfl

theorem avoids_legendEntry {height : ℕ} {colour text : String} (hcolour : '<' ∉ colour.toList)
    (htext : '<' ∉ text.toList) : avoids svgEnd (legendEntry height colour text).toList = true := by
  unfold legendEntry
  repeat' with_reducible apply avoids_toList_append
  all_goals first
    | exact avoids_of_not_mem hcolour
    | exact avoids_of_not_mem htext
    | with_reducible exact avoids_toString svgEnd height
    | exact avoids_ofList rfl

theorem avoids_of_mem_legendEntries {height : ℕ} {curves : List Curve} {legend : List String}
    (hcurves : ∀ curve ∈ curves, '<' ∉ curve.colour.toList) (hlegend : ∀ text ∈ legend, '<' ∉ text.toList) :
    ∀ entry ∈ legendEntries height curves legend, avoids svgEnd entry.toList = true := by
  fun_induction legendEntries height curves legend with
  | case1 height curve curves text texts ih =>
    refine List.forall_mem_cons.mpr ⟨?_, ?_⟩
    · exact avoids_legendEntry (hcurves curve List.mem_cons_self) (hlegend text List.mem_cons_self)
    · exact ih (fun c hc => hcurves c (List.mem_cons_of_mem _ hc)) fun t ht => hlegend t (List.mem_cons_of_mem _ ht)
  | case2 => exact List.forall_mem_nil _

/-- **Drawings of this library are SVG elements.** -/
theorem isSvg_drawWith : DrawsElements drawWith := by
  intro c legend hlegend hcolours
  have hbatch : avoids svgEnd
      s!"<text x=\"430\" y=\"346\" text-anchor=\"middle\" font-size=\"12\">{escapeSvg batchTitle}</text>\n".toList = true :=
    avoids_toList_append (avoids_toList_append (avoids_ofList rfl) (avoids_of_not_mem (not_mem_escapeSvg _)))
      (avoids_ofList rfl)
  have htitle : avoids svgEnd s!"{escapeSvg c.valueTitle}</text>\n".toList = true :=
    avoids_toList_append (avoids_of_not_mem (not_mem_escapeSvg _)) (avoids_ofList rfl)
  have hcurves : avoids svgEnd (String.join (c.drawn.map c.drawCurve)).toList = true :=
    avoids_join (List.forall_mem_map.mpr fun curve hcurve =>
      avoids_drawCurve c (hcolours curve (List.mem_filter.mp hcurve).1))
  have hentries : avoids svgEnd (String.join (legendEntries 22 c.curves legend)).toList = true :=
    avoids_join (avoids_of_mem_legendEntries hcolours hlegend)
  exact (((((((opensSvg_ofList rfl).append (avoids_ofList rfl)).append (avoids_ofList rfl)).append hbatch).append
    (avoids_ofList rfl)).append htitle).append hcurves).append hentries |>.isSvg

/-- Labels that would close the element and open another, were they not escaped. -/
theorem labels_confined_hostile_labels :
    let data : Settings → Report := fun s => ⟨1, false, [1, 0, 2], [none, some 1000.0],
      .ofData s.evenLabel s.oddLabel [1, 0, 2] [none, some 1000.0]⟩
    let r := data { evenLabel := "</text></svg><script>alert(1)</script>", oddLabel := "<svg" }
    let r' := data {}
    DrawsElements drawWith ∧ r.withoutLabels = r'.withoutLabels ∧ DifferInLegends drawWith r r' ∧
      r.render .own .html = .ok (r.page.text (drawBy drawWith)) ∧
      r.legendTexts = ["&lt;/text&gt;&lt;/svg&gt;&lt;script&gt;alert(1)&lt;/script&gt;", "&lt;svg"] := by
  intro data r r'
  have h : r.withoutLabels = r'.withoutLabels := rfl
  exact ⟨isSvg_drawWith, h, labels_confined isSvg_drawWith h, render_own_html r, by decide +kernel⟩

end LogCorrelation.Report
