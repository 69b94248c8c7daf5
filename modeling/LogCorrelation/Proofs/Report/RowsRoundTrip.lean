import LogCorrelation.Proofs.Decimal.FixedPlaces
import LogCorrelation.Proofs.Report.Rows
import LogCorrelation.Report.RowsReader

/-!
# Proofs.Report.RowsRoundTrip — comma-separated rows read back

The reader goes over a written text character by character.  Behind a written field it stands at a place where a comma
or a line feed ends the field, whatever characters the field holds: quotes, commas, line feeds, or none at all.

* `foldlM_writeField`: the reader behind one written field.
* `readRecords_flatMap_writeRecord`: any records, none of them without fields, come back from their text.
* `readRecords_commaSeparated`: the rows of a report.
-/

namespace LogCorrelation.Report

open Decimal (HasPlaces)

variable (records : List (List (List Char))) (fields : List (List Char)) (field : List Char)

/-! ### One field -/

theorem foldlM_step_cons {s s' : RecordState} {c : Char} (h : s.step c = some s') (cs : List Char) :
    (c :: cs).foldlM RecordState.step s = cs.foldlM RecordState.step s' := by
  rw [List.foldlM_cons, h]
  rfl

theorem needsQuotes_cons {c : Char} {cs : List Char} :
    needsQuotes (c :: cs) = false ↔ (c ≠ ',' ∧ c ≠ '"' ∧ c ≠ '\n') ∧ needsQuotes cs = false := by
  simp [needsQuotes, and_assoc]

/-- Characters of a field without quotes are taken over as they are. -/
theorem foldlM_plain {place : RecordPlace} {cs : List Char} (h : needsQuotes cs = false)
    (hplace : place = .fieldStart ∨ place = .plain) (rest : List Char) :
    ∃ after : RecordPlace, after ≠ .quoted ∧
      (cs ++ rest).foldlM RecordState.step ⟨records, fields, field, place⟩ =
        rest.foldlM RecordState.step ⟨records, fields, cs.reverse ++ field, after⟩ := by
  induction cs generalizing field place with
  | nil =>
    refine ⟨place, ?_, rfl⟩
    rcases hplace with rfl | rfl <;> decide
  | cons c cs ih =>
    obtain ⟨⟨hcomma, hquote, hfeed⟩, hcs⟩ := needsQuotes_cons.mp h
    have hstep : RecordState.step ⟨records, fields, field, place⟩ c = some ⟨records, fields, c :: field, .plain⟩ := by
      rcases hplace with rfl | rfl <;> simp [RecordState.step, RecordState.push, hcomma, hquote, hfeed]
    obtain ⟨after, hafter, hread⟩ := ih (c :: field) hcs (.inr rfl)
    refine ⟨after, hafter, ?_⟩
    rw [List.cons_append, foldlM_step_cons hstep, hread, List.reverse_cons, List.append_assoc]
    rfl

/-- Between quotes every character is taken over, a doubled quote once. -/
theorem foldlM_quoted (cs rest : List Char) :
    (cs.flatMap (fun c => if c = '"' then ['"', '"'] else [c]) ++ rest).foldlM RecordState.step
        ⟨records, fields, field, .quoted⟩ =
      rest.foldlM RecordState.step ⟨records, fields, cs.reverse ++ field, .quoted⟩ := by
  induction cs generalizing field with
  | nil => rfl
  | cons c cs ih =>
    rw [List.flatMap_cons, List.append_assoc, List.reverse_cons, List.append_assoc]
    by_cases hc : c = '"'
    · subst hc
      have hfirst : RecordState.step ⟨records, fields, field, .quoted⟩ '"' =
          some ⟨records, fields, field, .closed⟩ := rfl
      have hsecond : RecordState.step ⟨records, fields, field, .closed⟩ '"' =
          some ⟨records, fields, '"' :: field, .quoted⟩ := rfl
      rw [if_pos rfl]
      exact (foldlM_step_cons hfirst _).trans ((foldlM_step_cons hsecond _).trans (ih _))
    · have hstep : RecordState.step ⟨records, fields, field, .quoted⟩ c =
          some ⟨records, fields, c :: field, .quoted⟩ := by
        simp [RecordState.step, RecordState.push, hc]
      rw [if_neg hc]
      exact (foldlM_step_cons hstep _).trans (ih _)

/-- **Behind a written field** the reader holds its characters and stands where a comma or a line feed ends it. -/
theorem foldlM_writeField (cs rest : List Char) :
    ∃ after : RecordPlace, after ≠ .quoted ∧
      (writeField cs ++ rest).foldlM RecordState.step ⟨records, fields, [], .fieldStart⟩ =
        rest.foldlM RecordState.step ⟨records, fields, cs.reverse, after⟩ := by
  cases hcs : needsQuotes cs with
  | false =>
    obtain ⟨after, hafter, hread⟩ := foldlM_plain records fields [] hcs (.inl rfl) rest
    rw [List.append_nil] at hread
    exact ⟨after, hafter, by rw [writeField, hcs]; exact hread⟩
  | true =>
    have hopen : RecordState.step ⟨records, fields, [], .fieldStart⟩ '"' = some ⟨records, fields, [], .quoted⟩ := rfl
    have hclose : RecordState.step ⟨records, fields, cs.reverse, .quoted⟩ '"' =
        some ⟨records, fields, cs.reverse, .closed⟩ := rfl
    refine ⟨.closed, by decide, ?_⟩
    rw [writeField, hcs, if_pos rfl, List.cons_append, List.cons_append, List.append_assoc, foldlM_step_cons hopen,
      foldlM_quoted, List.append_nil, List.singleton_append, foldlM_step_cons hclose]

theorem step_comma {after : RecordPlace} (h : after ≠ .quoted) :
    RecordState.step ⟨records, fields, field, after⟩ ',' =
      some ⟨records, field.reverse :: fields, [], .fieldStart⟩ := by
  cases after with
  | quoted => exact absurd rfl h
  | fieldStart => rfl
  | plain => rfl
  | closed => rfl

theorem step_lineFeed {after : RecordPlace} (h : after ≠ .quoted) :
    RecordState.step ⟨records, fields, field, after⟩ '\n' =
      some ⟨(field.reverse :: fields).reverse :: records, [], [], .fieldStart⟩ := by
  cases after with
  | quoted => exact absurd rfl h
  | fieldStart => rfl
  | plain => rfl
  | closed => rfl

/-! ### Records -/

/-- The fields written from here on join those read before, and the line feed ends the record. -/
theorem foldlM_writeFields {cells : List (List Char)} (h : cells ≠ []) (rest : List Char) :
    (writeFields cells ++ '\n' :: rest).foldlM RecordState.step ⟨records, fields, [], .fieldStart⟩ =
      rest.foldlM RecordState.step ⟨(fields.reverse ++ cells) :: records, [], [], .fieldStart⟩ := by
  induction cells generalizing fields with
  | nil => exact absurd rfl h
  | cons cell cells ih =>
    cases cells with
    | nil =>
      obtain ⟨after, hafter, hread⟩ := foldlM_writeField records fields cell ('\n' :: rest)
      rw [writeFields, hread, foldlM_step_cons (step_lineFeed _ _ _ hafter), List.reverse_reverse, List.reverse_cons]
    | cons next cells =>
      obtain ⟨after, hafter, hread⟩ := foldlM_writeField records fields cell
        (',' :: (writeFields (next :: cells) ++ '\n' :: rest))
      have hsplit : writeFields (cell :: next :: cells) ++ '\n' :: rest =
          writeField cell ++ ',' :: (writeFields (next :: cells) ++ '\n' :: rest) := by
        rw [writeFields, List.append_assoc, List.cons_append]
        exact List.cons_ne_nil _ _
      rw [hsplit, hread, foldlM_step_cons (step_comma _ _ _ hafter), List.reverse_reverse, ih _ (List.cons_ne_nil _ _),
        List.reverse_cons, List.append_assoc, List.singleton_append]

theorem foldlM_flatMap_writeRecord {rows : List (List String)} (h : ∀ row ∈ rows, row ≠ []) :
    (rows.flatMap writeRecord).foldlM RecordState.step ⟨records, [], [], .fieldStart⟩ =
      some ⟨(rows.map (·.map (·.toList))).reverse ++ records, [], [], .fieldStart⟩ := by
  induction rows generalizing records with
  | nil => rfl
  | cons row rows ih =>
    obtain ⟨hrow, hrows⟩ := List.forall_mem_cons.mp h
    have hcells : row.map (·.toList) ≠ [] := by simpa using hrow
    rw [List.flatMap_cons, writeRecord, List.append_assoc, List.singleton_append, foldlM_writeFields _ _ hcells,
      ih _ hrows, List.map_cons, List.reverse_cons, List.append_assoc]
    rfl

theorem readRecords_of_foldlM {s : String} {records : List (List (List Char))}
    (h : s.toList.foldlM RecordState.step {} = some ⟨records, [], [], .fieldStart⟩) :
    readRecords s = some (records.reverse.map fun record => record.map String.ofList) := by
  rw [readRecords, h]

/-- **Records come back from their text**, whatever characters stand in their fields. -/
theorem readRecords_flatMap_writeRecord {rows : List (List String)} (h : ∀ row ∈ rows, row ≠ []) :
    readRecords (String.ofList (rows.flatMap writeRecord)) = some rows := by
  have hread := foldlM_flatMap_writeRecord [] h
  rw [List.append_nil, ← String.toList_ofList (l := rows.flatMap writeRecord)] at hread
  rw [readRecords_of_foldlM hread, List.reverse_reverse, List.map_map]
  simp [Function.comp_def]

/-! ### The rows of a report -/

/-- What a field tells of a latency: three places, or nothing if there is none. -/
def TellsLatency : Option Float → String → Prop
  | none, field => field = ""
  | some x, field => HasPlaces 3 x field.toList

theorem tellsLatency_elim (latency : Option Float) :
    TellsLatency latency (latency.elim "" (Decimal.fixed latencyPlaces)) := by
  cases latency with
  | none => rfl
  | some x => exact Decimal.hasPlaces_fixed 3 x

/-- The record of an interval. -/
theorem exists_fields {r : Report} {i count : Nat} (h : r.counts[i]? = some count) :
    ∃ latency, (r.rows.map (·.fields))[i]? = some [toString i, (r.classes.classOf i).label, toString count, latency] ∧
      TellsLatency r.latencies[i]?.join latency := by
  refine ⟨_, ?_, tellsLatency_elim _⟩
  rw [List.getElem?_map, getElem?_rows, h]
  rfl

theorem readRecords_commaSeparated_eq_rows (r : Report) :
    readRecords r.commaSeparated = some (rowHeader :: r.rows.map (·.fields)) := by
  refine readRecords_flatMap_writeRecord fun row hrow => ?_
  rcases List.mem_cons.mp hrow with rfl | hrow
  · exact List.cons_ne_nil _ _
  · obtain ⟨_, -, rfl⟩ := List.mem_map.mp hrow
    exact List.cons_ne_nil _ _

/-- **The rows of any report read back**: the header and one record for each interval, in order, with its index, the
label of its parity, its count, and its latency to three places or nothing. -/
theorem readRecords_commaSeparated (r : Report) :
    ∃ records, readRecords r.commaSeparated = some (["index", "series", "io_count", "latency_ms"] :: records) ∧
      records.length = r.counts.length ∧
      ∀ (i count : Nat), r.counts[i]? = some count → ∃ latency,
        records[i]? = some
          [toString i, if i % 2 = 0 then r.classes.even.label else r.classes.odd.label, toString count, latency] ∧
        TellsLatency r.latencies[i]?.join latency := by
  refine ⟨_, readRecords_commaSeparated_eq_rows r, ?_, fun i count hcount => ?_⟩
  · rw [List.length_map, length_rows]
  · have hlabel : (r.classes.classOf i).label = if i % 2 = 0 then r.classes.even.label else r.classes.odd.label :=
      apply_ite Batch.CommandClass.label _ _ _
    rw [← hlabel]
    exact exists_fields hcount

end LogCorrelation.Report
