import LogCorrelation.Proofs.Report.RowsRoundTrip
import LogCorrelation.Proofs.Report.TableReadBack

/-!
# Proofs.Report.Formats — all formats tell the same intervals

The comma-separated rows walk the counts in order and take the label from the parity of the index.  The document and
the tables of the plain text show the two classes that the counts and the latencies are split into.  What they tell is
taken from their texts, each by a reader of its own.

* `readsAs_ofReport`: what the texts of a report on measured intervals are read as.
* `tellsInterval`: an interval is told alike wherever it stands.
* `formats_agree`: so is every interval, and nothing else is told.
-/

namespace LogCorrelation.Report

open Batch (Alternation CommandClass)
open Intervals (Feed)

/-- What is read in the comma-separated rows, behind their header, and in the tables of the plain text. -/
structure Shown where
  records : List (List String)
  tables : List (List TableRow)

/-- What the texts of a report are read as. -/
structure ReadsAs (s : Settings) (r : Report) (shown : Shown) : Prop where
  records : readRecords r.commaSeparated = some (["index", "series", "io_count", "latency_ms"] :: shown.records)
  document : Document.read r.jsonText = some r.document
  tables : readTables [s.evenLabel, s.oddLabel] r.plain = some shown.tables

/-- **All formats tell the interval at index `i` alike**: as a row and a record of its own, and in the document and in
the tables at half the index in the class of its parity. -/
structure TellsInterval (s : Settings) (r : Report) (shown : Shown) (i count : Nat) (latency : Option (Option Float)) :
    Prop where
  row : r.rows[i]? = some ⟨i, labelAt s i, count, latency.join⟩
  record : ∃ field, shown.records[i]? = some [toString i, labelAt s i, toString count, field] ∧
    TellsLatency latency.join field
  documentClass : ∃ d, r.document.classes[i % 2]? = some d ∧ d.label = labelAt s i ∧
    d.counts[i / 2]? = some count ∧ d.latencies[i / 2]? = latency
  table : ∃ rows column, shown.tables[i % 2]? = some rows ∧ rows[i / 2]? = some ⟨i / 2, count, column⟩ ∧
    ShowsLatency latency column

/-- No format tells more than the intervals of `n` commands.  A count is read in every row of a table, and only the last
interval shows a blank, for its latency. -/
structure TellsNothingElse (r : Report) (shown : Shown) (n : Nat) : Prop where
  rows : r.rows.length = n + 1
  records : shown.records.length = n + 1
  documentCounts : (r.document.classes.map fun d => d.counts.length).sum = n + 1
  documentLatencies : (r.document.classes.map fun d => d.latencies.length).sum = n
  tables : shown.tables.length = 2 ∧ (shown.tables.map List.length).sum = n + 1
  blankLatency : ∀ i rows, shown.tables[i % 2]? = some rows →
    rows.countP (fun row => row.latency.isNone) = if i % 2 = n % 2 then 1 else 0

/-- The records and the rows of tables that are written. -/
def Shown.ofReport (r : Report) : Shown :=
  ⟨r.rows.map (·.fields), r.classes.toList.map fun c => seenRows 0 c.rows⟩

theorem getElem?_tables (r : Report) (i : Nat) :
    (Shown.ofReport r).tables[i % 2]? = some (seenRows 0 (r.classes.classOf i).rows) := by
  show (r.classes.toList.map fun c => seenRows 0 c.rows)[i % 2]? = _
  rw [List.getElem?_map, r.classes.getElem?_toList_mod_two]
  rfl

/-! ### Classes of the data -/

section Separated

variable {s : Settings} {r : Report} (h : r.classes = .ofData s.evenLabel s.oddLabel r.counts r.latencies)

include h

theorem tellsInterval {i count : Nat} (hcount : r.counts[i]? = some count) :
    TellsInterval s r (.ofReport r) i count r.latencies[i]? := by
  have hlabel := label_classOf h i
  obtain ⟨hcounts, hlatencies⟩ := getElem?_classOf h i
  rw [hcount] at hcounts
  obtain ⟨field, hfields, hfield⟩ := exists_fields hcount
  rw [hlabel] at hfields
  refine ⟨?_, ⟨field, hfields, hfield⟩, ⟨⟨_, _, _⟩, ?_, hlabel, hcounts, hlatencies⟩, _, _, getElem?_tables r i, ?_,
    showsLatency_seenLatency _⟩
  · rw [getElem?_rows, hcount, hlabel]
    rfl
  · show (r.classes.toList.map fun c => (⟨c.label, c.counts, c.latencies⟩ : DocumentClass))[i % 2]? = _
    rw [List.getElem?_map, r.classes.getElem?_toList_mod_two]
    rfl
  · rw [getElem?_seenRows_class hcounts, hlatencies]

variable (hlength : r.counts.length = r.latencies.length + 1)

include hlength

theorem length_latencies_classOf_le (i : Nat) :
    (r.classes.classOf i).latencies.length ≤ (r.classes.classOf i).counts.length :=
  length_classOf h hlength i ▸ Nat.le_add_right _ _

theorem tellsNothingElse : TellsNothingElse r (.ofReport r) r.latencies.length := by
  have hle := length_latencies_classOf_le h hlength
  have heven : (seenRows 0 r.classes.even.rows).length = r.classes.even.counts.length := length_seenRows_class (hle 0)
  have hodd : (seenRows 0 r.classes.odd.rows).length = r.classes.odd.counts.length := length_seenRows_class (hle 1)
  obtain ⟨hcounts, hlatencies⟩ := length_classes h hlength
  have hrows : r.rows.length = r.latencies.length + 1 := (length_rows r).trans hlength
  refine ⟨hrows, ?_, ?_, ?_, ⟨rfl, ?_⟩, fun i rows hrows => ?_⟩
  · show (r.rows.map (·.fields)).length = _
    rw [List.length_map, hrows]
  · show r.classes.even.counts.length + (r.classes.odd.counts.length + 0) = _
    omega
  · show r.classes.even.latencies.length + (r.classes.odd.latencies.length + 0) = _
    omega
  · show (seenRows 0 r.classes.even.rows).length + ((seenRows 0 r.classes.odd.rows).length + 0) = _
    omega
  · obtain rfl := Option.some.inj ((getElem?_tables r i).symm.trans hrows)
    rw [countP_seenRows_class, length_classOf h hlength i, Nat.add_sub_cancel_left]

end Separated

/-! ### Measured intervals -/

section Measured

variable {ε : Type} {commands io : Feed ε} {p : Intervals} {s : Settings} {r : Report}
  (hp : (Intervals.measure commands io).outcome = .ok p) (hr : ofIntervals p s = .ok r)

include hp hr

/-- A report has a latency for each command, and one count more. -/
theorem lengths_of_measure :
    r.latencies.length = commands.times.length ∧ r.counts.length = commands.times.length + 1 := by
  constructor
  · rw [(counts_and_length_of_ofIntervals_eq_ok hr).2, Intervals.eq_ofTimes_of_measure hp, Intervals.latencies_ofTimes,
      Intervals.length_gaps]
  · rw [(counts_and_length_of_ofIntervals_eq_ok hr).1, Intervals.eq_ofTimes_of_measure hp, Intervals.counts_ofTimes,
      Intervals.length_tally]

theorem readsBack_of_measure : ∀ x, some x ∈ r.latencies → Json.ReadsBack x := by
  intro x hx
  obtain ⟨a, b, rfl⟩ := isTimed_of_measure hp hr _ hx x rfl
  exact Json.readsBack_elapsed a b

/-- **The texts of a report** are read as what was written. -/
theorem readsAs_ofReport : ReadsAs s r (.ofReport r) := by
  obtain ⟨hlatencies, hcounts⟩ := lengths_of_measure hp hr
  have hclasses := (data_of_ofIntervals_eq_ok hr).2.2
  have htimed := isTimed_of_measure hp hr
  have hfinite : ∀ x, some x ∈ r.latencies → x.isFinite = true := fun x hx => (htimed _ hx).isFinite x rfl
  have hrows : ∀ c ∈ r.classes.toList, ∀ row ∈ c.rows, row.1 ≠ none := by
    intro c hc
    obtain ⟨i, rfl⟩ := Alternation.mem_toList_iff.mp hc
    exact count_ne_none_of_mem_rows (length_latencies_classOf_le hclasses (by omega) i)
  have heven : r.classes.even.label = s.evenLabel := by rw [hclasses]; rfl
  have hodd : r.classes.odd.label = s.oddLabel := by rw [hclasses]; rfl
  refine ⟨readRecords_commaSeparated_eq_rows r, (read_jsonText hr (readsBack_of_measure hp hr)).2, ?_⟩
  rw [← heven, ← hodd]
  exact readTables_plain hfinite hrows

end Measured

/-- **All formats describe the same rows.**  The texts of a report on the intervals of `n` commands are read back, and
tell each interval alike in the comma-separated rows, in the document and in the tables of the plain text, and nothing
else. -/
theorem formats_agree {ε : Type} {commands io : Feed ε} {p : Intervals} {s : Settings} {r : Report}
    (hp : (Intervals.measure commands io).outcome = .ok p) (hr : ofIntervals p s = .ok r) :
    latenciesOf p s = .ok r.latencies ∧ r.latencies.length = commands.times.length ∧
      ∃ shown, ReadsAs s r shown ∧
        (∀ i ≤ commands.times.length, ∃ count, p.counts[i]? = some count ∧
          TellsInterval s r shown i count r.latencies[i]?) ∧
        TellsNothingElse r shown commands.times.length := by
  obtain ⟨hlatencies, hcounts, hclasses⟩ := data_of_ofIntervals_eq_ok hr
  obtain ⟨hlength, hmore⟩ := lengths_of_measure hp hr
  refine ⟨hlatencies, hlength, _, readsAs_ofReport hp hr, fun i hi => ?_, ?_⟩
  · have hlt : i < r.counts.length := by omega
    obtain ⟨count, hcount⟩ : ∃ count, r.counts[i]? = some count := ⟨_, List.getElem?_eq_getElem hlt⟩
    exact ⟨count, hcounts ▸ hcount, tellsInterval hclasses hcount⟩
  · rw [← hlength] at hmore ⊢
    exact tellsNothingElse hclasses hmore

/-- Three commands and the first latency filled in: the events behind the last command stand in the second table, with a
blank latency. -/
theorem formats_agree_of_three_commands :
    let commands : List TimeOfDay :=
      [⟨1, 0, by decide, by decide⟩, ⟨2, 0, by decide, by decide⟩, ⟨4, 0, by decide, by decide⟩]
    let events : List TimeOfDay := [⟨1, 500000, by decide, by decide⟩, ⟨4, 0, by decide, by decide⟩]
    ∃ p r shown,
      (Intervals.measure (.ofTimes commands) (.ofTimes events) : Intervals.Run String Intervals).outcome = .ok p ∧
      ofIntervals p {} = .ok r ∧ ReadsAs {} r shown ∧ TellsInterval {} r shown 3 1 none ∧
      TellsNothingElse r shown 3 := by
  intro commands events
  have hp : (Intervals.measure (.ofTimes commands) (.ofTimes events) : Intervals.Run String Intervals).outcome =
      .ok (.ofTimes commands events) := rfl
  obtain ⟨r, hr⟩ : ∃ r, ofIntervals (.ofTimes commands events) {} = .ok r := ⟨_, rfl⟩
  obtain ⟨-, hlength, shown, hshown, htells, hnothing⟩ := formats_agree hp hr
  obtain ⟨count, hcount, hthree⟩ := htells 3 (by decide)
  obtain rfl : 1 = count := Option.some.inj hcount
  have hnone : r.latencies[3]? = none := List.getElem?_eq_none (Nat.le_of_eq hlength)
  rw [hnone] at hthree
  exact ⟨_, r, shown, hp, hr, hshown, hthree, hnothing⟩

end LogCorrelation.Report
