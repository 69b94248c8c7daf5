import LogCorrelation.Proofs.Report.Formats
import LogCorrelation.Proofs.Text.Markup
import LogCorrelation.Report.Rendering

/-!
# Proofs.Report.Labels — a label tells the parity of its interval

Labels that differ stay apart in every format: as a field between commas, as a label of the document, as the head of a
table and in a legend.  So whoever sees the label of an interval knows whether its index is even.

* `writeField_inj`: different fields are written differently.
* `LabelsTellParity`: what the two labels tell, format by format.
-/

namespace LogCorrelation.Report

open Intervals (Feed)

/-! ### Fields -/

/-- The text of a record is read back, so no two fields are written alike. -/
theorem writeField_inj {cs ds : List Char} : writeField cs = writeField ds ↔ cs = ds := by
  refine ⟨fun h => ?_, congrArg writeField⟩
  have hread (field : List Char) :
      readRecords (String.ofList (writeField field ++ ['\n'])) = some [[String.ofList field]] := by
    have hrows : ∀ row ∈ [[String.ofList field]], row ≠ [] := by simp
    have hback := readRecords_flatMap_writeRecord hrows
    simpa [writeRecord, writeFields] using hback
  have hsame : some [[String.ofList cs]] = some [[String.ofList ds]] := by rw [← hread cs, ← hread ds, h]
  have hfields : String.ofList cs = String.ofList ds := by simpa using hsame
  exact String.ofList_inj.mp hfields

/-! ### Parity -/

variable {s : Settings} {r : Report}

theorem labelAt_eq_iff (h : s.evenLabel ≠ s.oddLabel) (i j : Nat) : labelAt s i = labelAt s j ↔ i % 2 = j % 2 := by
  have hi := Nat.mod_two_eq_zero_or_one i
  have hj := Nat.mod_two_eq_zero_or_one j
  unfold labelAt
  split <;> split
  · exact iff_of_true rfl (by omega)
  · exact iff_of_false h (by omega)
  · exact iff_of_false h.symm (by omega)
  · exact iff_of_true rfl (by omega)

/-- The series that a record of comma-separated rows belongs to. -/
def seriesOf (record : List String) : Option String := record[1]?

/-- **A label tells the parity of its interval** in every format of a report. -/
structure LabelsTellParity (s : Settings) (r : Report) : Prop where
  labels : ∀ i j, labelAt s i = labelAt s j ↔ i % 2 = j % 2
  intervals : ∃ shown, ReadsAs s r shown ∧
    ∀ (i count : Nat), r.counts[i]? = some count → TellsInterval s r shown i count r.latencies[i]?
  records : ∃ records, readRecords r.commaSeparated = some (rowHeader :: records) ∧
    records.length = r.counts.length ∧
    ∀ i j a b, records[i]? = some a → records[j]? = some b →
      seriesOf a = some (labelAt s i) ∧ (seriesOf a = seriesOf b ↔ i % 2 = j % 2)
  written : ∀ i j, writeField (labelAt s i).toList = writeField (labelAt s j).toList ↔ i % 2 = j % 2
  legends : ∀ c ∈ r.page.charts, c.legend = [Text.escapeSvg s.evenLabel, Text.escapeSvg s.oddLabel]
  drawn : Text.escapeSvg s.evenLabel ≠ Text.escapeSvg s.oddLabel

theorem seriesOf_of_getElem?_rows (h : r.classes = .ofData s.evenLabel s.oddLabel r.counts r.latencies) {i : Nat}
    {a : List String} (ha : (r.rows.map (·.fields))[i]? = some a) : seriesOf a = some (labelAt s i) := by
  rw [List.getElem?_map, getElem?_rows, label_classOf h, Option.map_map] at ha
  obtain ⟨count, -, rfl⟩ := Option.map_eq_some_iff.mp ha
  rfl

/-- The texts of both labels as legends show them, that of the even class first. -/
def legendTexts (r : Report) : List String :=
  [Text.escapeSvg r.classes.even.label, Text.escapeSvg r.classes.odd.label]

theorem legend_eq_legendTexts {c : Chart} (hc : c ∈ r.page.charts) : c.legend = r.legendTexts := by
  rcases mem_charts_page.mp hc with rfl | rfl <;> rfl

theorem legend_of_mem_charts (h : r.classes = .ofData s.evenLabel s.oddLabel r.counts r.latencies) {c : Chart}
    (hc : c ∈ r.page.charts) : c.legend = [Text.escapeSvg s.evenLabel, Text.escapeSvg s.oddLabel] := by
  rw [legend_eq_legendTexts hc, legendTexts, h]
  rfl

/-- Two labels that differ are enough. -/
theorem labelsTellParity {ε : Type} {commands io : Feed ε} {p : Intervals}
    (hp : (Intervals.measure commands io).outcome = .ok p) (hr : ofIntervals p s = .ok r)
    (hlabels : s.evenLabel ≠ s.oddLabel) : LabelsTellParity s r := by
  have hdata := (data_of_ofIntervals_eq_ok hr).2.2
  have hseries {i : Nat} {a : List String} (ha : (r.rows.map (·.fields))[i]? = some a) :
      seriesOf a = some (labelAt s i) := seriesOf_of_getElem?_rows hdata ha
  exact {
    labels := labelAt_eq_iff hlabels
    intervals := ⟨_, readsAs_ofReport hp hr, fun _ _ => tellsInterval hdata⟩
    records := by
      refine ⟨_, readRecords_commaSeparated_eq_rows r, ?_, fun i j a b ha hb => ⟨hseries ha, ?_⟩⟩
      · rw [List.length_map, length_rows]
      · rw [hseries ha, hseries hb, Option.some.injEq, labelAt_eq_iff hlabels]
    written := fun i j => by rw [writeField_inj, String.toList_inj, labelAt_eq_iff hlabels]
    legends := fun _ => legend_of_mem_charts hdata
    drawn := fun h => hlabels (Text.escapeSvg_inj.mp h) }

end LogCorrelation.Report
