import LogCorrelation.Proofs.Json.ValueTexts
import LogCorrelation.Proofs.Report.Formats

/-!
# Proofs.Report.LatencyText — latencies are printed without loss

A latency is a whole number of microseconds, told in milliseconds.  Every format prints that very number: records and
tables with three places, the first line of the plain text and the document without the zeros at the end.

* `textsOf_places`: both texts of a number of microseconds.
* `latencyTexts_document`, `classLatencyTexts_document`: the texts of all latencies of a document.
* `latency_written_exactly`: what all formats print of a latency.
-/

namespace LogCorrelation.Report

open Decimal (Denotes HasPlaces allPlaces shortPlaces withoutZeros)
open Intervals (Feed)
open Json (ReadsBack fieldTexts fieldTexts_write itemTexts_write realsOfItems)
open TimeOfDay (parse)

/-! ### Texts of microseconds -/

/-- The texts of a number of microseconds in milliseconds: all three digits after the point, or all but the zeros at the
end, of which one stays if there is nothing else. -/
structure TextsOf (micros : ℕ) (full short : List Char) : Prop where
  fullDigits : full = (toString (micros / 1000)).toList ++ '.' ::
    [Nat.digitChar (micros / 100 % 10), Nat.digitChar (micros / 10 % 10), Nat.digitChar (micros % 10)]
  shortDigits : ∃ fraction zeros, short = (toString (micros / 1000)).toList ++ '.' :: fraction ∧ fraction ≠ [] ∧
    full = short ++ List.replicate zeros '0' ∧ (fraction = ['0'] ∨ fraction.getLast? ≠ some '0')
  denotesFull : Denotes full (micros / 1000)
  denotesShort : Denotes short (micros / 1000)

theorem textsOf_places (micros : ℕ) : TextsOf micros (allPlaces 3 micros) (shortPlaces 3 micros) where
  fullDigits := by
    have hfirst : micros % 10 ^ 3 / 10 / 10 % 10 = micros / 100 % 10 := by omega
    have hsecond : micros % 10 ^ 3 / 10 % 10 = micros / 10 % 10 := by omega
    have hthird : micros % 10 ^ 3 % 10 = micros % 10 := by omega
    rw [Decimal.toList_toString, ← hfirst, ← hsecond, ← hthird]
    rfl
  shortDigits := by
    have hne : Decimal.padded 3 (micros % 10 ^ 3) ≠ [] := List.cons_ne_nil _ _
    obtain ⟨zeros, hzeros⟩ := Decimal.exists_eq_withoutZeros_append hne
    refine ⟨withoutZeros (Decimal.padded 3 (micros % 10 ^ 3)), zeros, ?_, Decimal.withoutZeros_ne_nil _, ?_,
      Decimal.getLast?_withoutZeros _⟩
    · rw [Decimal.toList_toString]
      rfl
    · rw [shortPlaces, List.append_assoc, List.cons_append, ← hzeros]
      rfl
  denotesFull := by
    have h := Decimal.denotes_allPlaces (Nat.zero_lt_succ 2) micros
    norm_num at h
    exact h
  denotesShort := by
    have h := Decimal.denotes_shortPlaces (Nat.zero_lt_succ 2) micros
    norm_num at h
    exact h

/-! ### Texts in a document -/

/-- What a document says of a latency. -/
def documentText (latency : Option Float) : List Char := Json.write 0 (latency.elim .null .real)

section Document

variable {latencies : List (Option Float)} {depth : ℕ}

theorem write_elim (latency : Option Float) : Json.write depth (latency.elim .null .real) = documentText latency := by
  cases latency <;> rfl

theorem itemTexts_latenciesJson (h : ∀ x, some x ∈ latencies → ReadsBack x) :
    Json.itemTexts ((latenciesJson latencies).write depth) = some (latencies.map documentText) := by
  have hreals : ∀ x ∈ realsOfItems (latencies.map fun latency => latency.elim .null .real), ReadsBack x :=
    fun x hx => h x (mem_reals_latenciesJson hx)
  rw [latenciesJson, itemTexts_write hreals, List.map_map]
  exact congrArg some (List.map_congr_left fun latency _ => write_elim latency)

theorem latencyTexts_documentClass {c : DocumentClass} (h : ∀ x, some x ∈ c.latencies → ReadsBack x) :
    latencyTexts (c.json.write depth) = some (c.latencies.map documentText) := by
  have hreals : ∀ x ∈ c.json.reals, ReadsBack x := fun x hx => h x (mem_reals_documentClass hx)
  unfold latencyTexts fieldItemTexts
  rw [DocumentClass.json, fieldTexts_write hreals]
  exact itemTexts_latenciesJson h

section Whole

variable {d : Document} (hlatencies : ∀ x, some x ∈ d.latencies → ReadsBack x)
  (hclasses : ∀ c ∈ d.classes, ∀ x, some x ∈ c.latencies → ReadsBack x)

include hlatencies hclasses

theorem readsBack_of_mem_document : ∀ x ∈ d.json.reals, ReadsBack x := by
  intro x hx
  obtain hlatency | ⟨c, hc, hlatency⟩ := mem_reals_document hx
  · exact hlatencies x hlatency
  · exact hclasses c hc x hlatency

/-- The texts of the latencies of a document. -/
theorem latencyTexts_document : latencyTexts d.json.pretty.toList = some (d.latencies.map documentText) := by
  have hreals := readsBack_of_mem_document hlatencies hclasses
  unfold latencyTexts fieldItemTexts
  rw [Json.pretty, String.toList_ofList, Document.json, fieldTexts_write hreals]
  exact itemTexts_latenciesJson hlatencies

/-- The texts of the latencies of its classes. -/
theorem classLatencyTexts_document :
    classLatencyTexts d.json.pretty.toList = some (d.classes.map fun c => c.latencies.map documentText) := by
  have hreals := readsBack_of_mem_document hlatencies hclasses
  have hitems : ∀ x ∈ realsOfItems (d.classes.map (·.json)), ReadsBack x := by
    intro x hx
    obtain ⟨item, hitem, hx⟩ := mem_realsOfItems hx
    obtain ⟨c, hc, rfl⟩ := List.mem_map.mp hitem
    exact hclasses c hc x (mem_reals_documentClass hx)
  have hseries : fieldItemTexts "series" d.json.pretty.toList = some (d.classes.map fun c => c.json.write 2) := by
    unfold fieldItemTexts
    rw [Json.pretty, String.toList_ofList, Document.json, fieldTexts_write hreals]
    have htexts : Json.itemTexts (Json.write 1 (.list (d.classes.map (·.json)))) =
        some ((d.classes.map (·.json)).map (Json.write 2)) := itemTexts_write hitems
    rw [List.map_map] at htexts
    exact htexts
  unfold classLatencyTexts
  rw [hseries]
  exact mapM_map_eq_some_map fun c hc => latencyTexts_documentClass (hclasses c hc)

end Whole

end Document

/-! ### Latencies -/

/-- What the texts of a report show of the latency of the interval at index `i`: all places in its record and in the
table of its class, and the shorter text in the first line and, for the whole and for its class, in the document. -/
structure Prints (r : Report) (shown : Shown) (i : ℕ) (full short : List Char) : Prop where
  record : ∃ record, shown.records[i]? = some record ∧ record[3]? = some (String.ofList full)
  table : ∃ rows row, shown.tables[i % 2]? = some rows ∧ rows[i / 2]? = some row ∧ row.latency = some full
  firstLine : ∃ counts latencies, dataLineTexts r.plain = some (counts, latencies) ∧ latencies[i]? = some short
  document : ∃ latencies, latencyTexts r.jsonText.toList = some latencies ∧ latencies[i]? = some short
  documentClass : ∃ classes latencies, classLatencyTexts r.jsonText.toList = some classes ∧
    classes[i % 2]? = some latencies ∧ latencies[i / 2]? = some short

/-- What a latency looks like wherever it stands in a report on measured intervals. -/
def PrintedAs (latency : Float) (full short : List Char) : Prop :=
  ∀ {ε : Type} (commands io : Feed ε) (p : Intervals) (s : Settings) (r : Report),
    (Intervals.measure commands io).outcome = .ok p → ofIntervals p s = .ok r →
    ∃ shown, ReadsAs s r shown ∧
      ∀ i : ℕ, r.latencies[i]? = some (some latency) → Prints r shown i full short

/-- A latency that is printed everywhere as a number of microseconds. -/
structure WrittenExactly (latency : Float) (micros : ℕ) : Prop where
  texts : TextsOf micros (allPlaces 3 micros) (shortPlaces 3 micros)
  printed : PrintedAs latency (allPlaces 3 micros) (shortPlaces 3 micros)

/-- The texts of all latencies in the document of a report on measured intervals. -/
theorem documentTexts_of_measure {ε : Type} {commands io : Feed ε} {p : Intervals} {s : Settings} {r : Report}
    (hp : (Intervals.measure commands io).outcome = .ok p) (hr : ofIntervals p s = .ok r) :
    latencyTexts r.jsonText.toList = some (r.latencies.map documentText) ∧
      classLatencyTexts r.jsonText.toList =
        some (r.document.classes.map fun c => c.latencies.map documentText) := by
  have hback := readsBack_of_measure hp hr
  have hclasses : ∀ c ∈ r.document.classes, ∀ x, some x ∈ c.latencies → ReadsBack x :=
    fun c hc x hx => hback x (mem_latencies_of_mem_classes hr hc hx)
  exact ⟨latencyTexts_document hback hclasses, classLatencyTexts_document hback hclasses⟩

/-- Its texts are all that matters of a latency. -/
theorem printedAs_of_texts {x : Float} {full short : List Char} (hplaces : HasPlaces 3 x full)
    (hshort : (latencyLayout.text x).toList = short) (hreal : documentText (some x) = short) :
    PrintedAs x full short := by
  intro ε commands io p s r hp hr
  refine ⟨_, readsAs_ofReport hp hr, fun i hlatency => ?_⟩
  obtain ⟨hlatencies, hcounts⟩ := lengths_of_measure hp hr
  have hlt : i < r.latencies.length := (List.getElem?_eq_some_iff.mp hlatency).1
  obtain ⟨count, hcount⟩ : ∃ count, r.counts[i]? = some count := ⟨_, List.getElem?_eq_getElem (by omega)⟩
  have htells := tellsInterval (data_of_ofIntervals_eq_ok hr).2.2 hcount
  rw [hlatency] at htells
  obtain ⟨htexts, hclassTexts⟩ := documentTexts_of_measure hp hr
  refine ⟨?_, ?_, ⟨_, _, dataLineTexts_plain (isTimed_of_measure hp hr), ?_⟩, ⟨_, htexts, ?_⟩, ?_⟩
  · obtain ⟨field, hrecord, hfield⟩ := htells.record
    refine ⟨_, hrecord, ?_⟩
    rw [HasPlaces.unique hplaces hfield, String.ofList_toList]
    rfl
  · obtain ⟨rows, column, hrows, hrow, text, rfl, htext⟩ := htells.table
    refine ⟨rows, _, hrows, hrow, ?_⟩
    rw [HasPlaces.unique hplaces htext]
  · rw [List.getElem?_map, hlatency]
    exact congrArg some hshort
  · rw [List.getElem?_map, hlatency]
    exact congrArg some hreal
  · obtain ⟨c, hc, -, -, hclass⟩ := htells.documentClass
    refine ⟨_, c.latencies.map documentText, hclassTexts, ?_, ?_⟩
    · rw [List.getElem?_map, hc]
      rfl
    · rw [List.getElem?_map, hclass]
      exact congrArg some hreal

/-- **Latencies are printed without loss.**  Between two times that were read, in order, lies a whole number of
microseconds, and its milliseconds are what every format prints of the latency. -/
theorem latency_written_exactly {text text' : String} {a b : TimeOfDay} (ha : parse text = .ok a)
    (hb : parse text' = .ok b) (h : a ≤ b) :
    a.micros ≤ b.micros ∧ WrittenExactly (a.elapsed b) (b.micros - a.micros) := by
  have hle : a.micros ≤ b.micros := by
    rw [← not_lt, TimeOfDay.micros_lt_micros_iff (TimeOfDay.micro_lt_of_parse_eq_ok hb)
      (TimeOfDay.micro_lt_of_parse_eq_ok ha)]
    exact h
  have hcount : a.microsFrom b = (b.micros - a.micros : ℕ) := (Int.ofNat_sub hle).symm
  have hfixed := TimeOfDay.fixed_elapsed a b
  have hshort := TimeOfDay.text_elapsed a b (l := latencyLayout) (by decide) (by decide)
  have hreal := TimeOfDay.text_elapsed a b (l := Json.realLayout) (by decide) (by decide)
  have hmark : Decimal.signMark (signOf (a.microsFrom b)) = [] := by rw [hcount, signOf_natCast, Decimal.signMark]
  rw [hmark, hcount, Int.natAbs_natCast, List.nil_append] at hfixed hshort hreal
  have hplaces := Decimal.hasPlaces_fixed 3 (a.elapsed b)
  rw [hfixed, String.toList_ofList] at hplaces
  refine ⟨hle, textsOf_places _, printedAs_of_texts hplaces ?_ ?_⟩
  · rw [hshort, String.toList_ofList]
  · show (Json.realLayout.text (a.elapsed b)).toList = _
    rw [hreal, String.toList_ofList]

/-- Two commands nearly a whole day apart, to the microsecond. -/
theorem latency_written_exactly_over_a_day :
    let a : TimeOfDay := ⟨0, 1, by decide, by decide⟩
    let b : TimeOfDay := ⟨86399, 999991, by decide, by decide⟩
    parse "00:00:00.000001" = .ok a ∧ parse "23:59:59.999991" = .ok b ∧ a ≤ b ∧
      WrittenExactly (a.elapsed b) 86399999990 ∧
      ∃ r shown, ofIntervals (.ofTimes [a, b] []) { fillFirst := false } = .ok r ∧
        ReadsAs { fillFirst := false } r shown ∧
        Prints r shown 1 "86399999.990".toList "86399999.99".toList := by
  intro a b
  have ha : parse "00:00:00.000001" = .ok a := rfl
  have hb : parse "23:59:59.999991" = .ok b := rfl
  have hle : a ≤ b := by decide
  have hmicros : b.micros - a.micros = 86399999990 := by decide +kernel
  have hwritten : WrittenExactly (a.elapsed b) 86399999990 := hmicros ▸ (latency_written_exactly ha hb hle).2
  have hfull : allPlaces 3 86399999990 = "86399999.990".toList := by decide +kernel
  have hshort : shortPlaces 3 86399999990 = "86399999.99".toList := by decide +kernel
  have hp : (Intervals.measure (.ofTimes [a, b]) (.ofTimes []) : Intervals.Run String Intervals).outcome =
      .ok (.ofTimes [a, b] []) := rfl
  obtain ⟨r, hr⟩ : ∃ r, ofIntervals (.ofTimes [a, b] []) { fillFirst := false } = .ok r := ⟨_, rfl⟩
  obtain ⟨shown, hshown, hprints⟩ := hwritten.printed _ _ _ _ r hp hr
  have hsecond : r.latencies[1]? = some (some (a.elapsed b)) := by
    rw [← Except.ok.inj (data_of_ofIntervals_eq_ok hr).1]
    rfl
  have hone := hprints 1 hsecond
  rw [hfull, hshort] at hone
  exact ⟨ha, hb, hle, hwritten, r, shown, hr, hshown, hone⟩

end LogCorrelation.Report
