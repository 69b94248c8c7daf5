import LogCorrelation.Proofs.Decimal.FixedPlaces
import LogCorrelation.Proofs.Report.PlainDetermines
import LogCorrelation.Report.TableReader

/-!
# Proofs.Report.TableReadBack — the tables of the plain text are read back

The reader cuts a table into lines and a line into words.  No line of a table is empty and none of its words has a blank
in it, so every batch comes back as one row: its number, its count, and its latency as it is seen.

* `words_append`: a line is cut at every blank.
* `read_rowLine`, `readRows_tableBody`: a line is read as its row, a table as its rows.
* `readTables_plain`: the tables of a report, with nothing left behind them.
-/

namespace LogCorrelation.Report

open Batch (CommandClass)
open Decimal (HasPlaces)

/-! ### Words -/

@[simp] theorem words_nil : words [] = [] := by simp [words]

/-- A line is cut at every blank. -/
theorem words_append (as bs : List Char) : words (as ++ ' ' :: bs) = words as ++ words bs := by
  rw [words, List.splitOn_append_cons_self, List.filter_append]
  rfl

theorem words_of_not_mem {w : List Char} (hne : w ≠ []) (h : ' ' ∉ w) : words w = [w] := by
  rw [words, List.splitOn_eq_singleton h]
  simp [hne]

theorem words_replicate_append (n : ℕ) (cs : List Char) : words (List.replicate n ' ' ++ cs) = words cs := by
  induction n with
  | zero => rfl
  | succ n ih =>
    rw [List.replicate_succ, List.cons_append]
    have hcut := words_append [] (List.replicate n ' ' ++ cs)
    rwa [words_nil, List.nil_append, List.nil_append, ih] at hcut

theorem words_alignRight (width : ℕ) (s : String) : words (alignRight width s).toList = words s.toList := by
  rw [alignRight, String.toList_append, String.toList_ofList, words_replicate_append]

/-! ### Lines -/

/-- A line of a table, without the line feed that ends it. -/
def rowLine (batch ioRequests latency : String) : List Char :=
  (alignRight 8 batch).toList ++ ' ' :: ' ' :: (alignRight 12 ioRequests).toList ++
    ' ' :: ' ' :: (alignRight 14 latency).toList

theorem toList_tableLine (batch ioRequests latency : String) :
    (tableLine batch ioRequests latency).toList = rowLine batch ioRequests latency ++ ['\n'] := by
  have hgap : "  ".toList = [' ', ' '] := rfl
  have hfeed : "\n".toList = ['\n'] := rfl
  simp only [tableLine, rowLine, String.toList_append, hgap, hfeed, List.append_assoc, List.cons_append,
    List.nil_append]

theorem words_rowLine (batch ioRequests latency : String) :
    words (rowLine batch ioRequests latency) =
      words batch.toList ++ words ioRequests.toList ++ words latency.toList := by
  have hblank (cs : List Char) : words (' ' :: cs) = words cs := words_replicate_append 1 cs
  rw [rowLine, words_append, hblank, words_alignRight, words_append, hblank, words_alignRight, words_alignRight]

theorem not_mem_alignRight {width : ℕ} {s : String} {c : Char} (hblank : c ≠ ' ') (h : c ∉ s.toList) :
    c ∉ (alignRight width s).toList := by
  rw [alignRight, String.toList_append, String.toList_ofList, List.mem_append, List.mem_replicate, not_or]
  exact ⟨fun hc => hblank hc.2, h⟩

theorem not_mem_rowLine {batch ioRequests latency : String} {c : Char} (hblank : c ≠ ' ') (hbatch : c ∉ batch.toList)
    (hrequests : c ∉ ioRequests.toList) (hlatency : c ∉ latency.toList) : c ∉ rowLine batch ioRequests latency := by
  simp only [rowLine, List.mem_append, List.mem_cons, not_or]
  exact ⟨⟨not_mem_alignRight hblank hbatch, hblank, hblank, not_mem_alignRight hblank hrequests⟩, hblank, hblank,
    not_mem_alignRight hblank hlatency⟩

theorem rowLine_ne_nil (batch ioRequests latency : String) : rowLine batch ioRequests latency ≠ [] := by
  simp [rowLine]

/-! ### Rows -/

/-- What is seen of a latency in a table: nothing where there is none, a hyphen where it is unknown, and otherwise three
places. -/
def ShowsLatency : Option (Option Float) → Option (List Char) → Prop
  | none, cell => cell = none
  | some none, cell => cell = some ['-']
  | some (some x), cell => ∃ text, cell = some text ∧ HasPlaces 3 x text

/-- The text of a latency, unless the column is blank. -/
def seenLatency (latency : Option (Option Float)) : Option (List Char) :=
  latency.map fun _ => (tableLatency latency).toList

theorem showsLatency_seenLatency (latency : Option (Option Float)) : ShowsLatency latency (seenLatency latency) := by
  match latency with
  | none => rfl
  | some none => rfl
  | some (some x) => exact ⟨_, rfl, Decimal.hasPlaces_fixed 3 x⟩

theorem not_mem_tableLatency (latency : Option (Option Float)) {c : Char} (hdigit : c.isDigit = false)
    (hother : c ∉ ['.', '-', 'N', 'a', 'i', 'n', 'f']) : c ∉ (tableLatency latency).toList := by
  match latency with
  | none => exact List.not_mem_nil
  | some none =>
    intro hc
    obtain rfl : c = '-' := List.mem_singleton.mp hc
    exact hother (by simp)
  | some (some x) => exact (Decimal.hasPlaces_fixed 3 x).not_mem hdigit hother

theorem words_tableLatency (latency : Option (Option Float)) :
    words (tableLatency latency).toList = (seenLatency latency).toList := by
  match latency with
  | none => rfl
  | some none => rfl
  | some (some x) =>
    have hplaces := Decimal.hasPlaces_fixed 3 x
    exact words_of_not_mem hplaces.ne.1 (hplaces.not_mem (by decide) (by simp))

theorem words_toString (n : ℕ) : words (toString n).toList = [(toString n).toList] :=
  words_of_not_mem (toString_ne_nil n) (not_mem_toString n (by decide))

theorem ofColumns?_toString (batch count : ℕ) (latency : Option (List Char)) :
    TableRow.ofColumns? (toString batch).toList (toString count).toList latency = some ⟨batch, count, latency⟩ := by
  rw [TableRow.ofColumns?, readCount_toString, readCount_toString]
  rfl

/-- **A line is read as its row.** -/
theorem read_rowLine (batch count : ℕ) (latency : Option (Option Float)) :
    TableRow.read (rowLine (toString batch) (toString count) (tableLatency latency)) =
      some ⟨batch, count, seenLatency latency⟩ := by
  rw [TableRow.read, words_rowLine, words_toString, words_toString, words_tableLatency]
  cases seenLatency latency with
  | none => exact ofColumns?_toString batch count none
  | some text => exact ofColumns?_toString batch count (some text)

/-- The rows that are read from a table, the first batch having the number `index`. -/
def seenRows (index : ℕ) : List (Option ℕ × Option (Option Float)) → List TableRow
  | [] => []
  | (count, latency) :: rest => ⟨index, count.getD 0, seenLatency latency⟩ :: seenRows (index + 1) rest

/-- The lines of those rows. -/
def rowLines (index : ℕ) : List (Option ℕ × Option (Option Float)) → List (List Char)
  | [] => []
  | (count, latency) :: rest =>
    rowLine (toString index) (toString (count.getD 0)) (tableLatency latency) :: rowLines (index + 1) rest

section Rows

variable {rows : List (Option ℕ × Option (Option Float))} {index : ℕ}

theorem toList_join_tableLines (hcounts : ∀ row ∈ rows, row.1 ≠ none) :
    (String.join (tableLines index rows)).toList = (rowLines index rows).flatMap (· ++ ['\n']) := by
  induction rows generalizing index with
  | nil => rfl
  | cons row rows ih =>
    obtain ⟨hrow, hrows⟩ := List.forall_mem_cons.mp hcounts
    obtain ⟨_ | count, latency⟩ := row
    · exact absurd rfl hrow
    · rw [tableLines, String.join_cons, String.toList_append, toList_tableLine, ih hrows, rowLines, List.flatMap_cons]
      rfl

theorem not_mem_of_mem_rowLines {line : List Char} (h : line ∈ rowLines index rows) : '\n' ∉ line ∧ line ≠ [] := by
  induction rows generalizing index with
  | nil => exact absurd h List.not_mem_nil
  | cons row rows ih =>
    obtain ⟨count, latency⟩ := row
    rw [rowLines, List.mem_cons] at h
    rcases h with hline | h
    · have hlatency : '\n' ∉ (tableLatency latency).toList := not_mem_tableLatency latency (by decide) (by simp)
      rw [hline]
      exact ⟨not_mem_rowLine (by decide) (not_mem_toString _ (by decide)) (not_mem_toString _ (by decide)) hlatency,
        rowLine_ne_nil _ _ _⟩
    · exact ih h

theorem mapM_read_rowLines : (rowLines index rows).mapM TableRow.read = some (seenRows index rows) := by
  induction rows generalizing index with
  | nil => rfl
  | cons row rows ih =>
    rw [rowLines, List.mapM_cons, read_rowLine, ih]
    rfl

theorem getElem?_seenRows {k count : ℕ} {latency : Option (Option Float)} (h : rows[k]? = some (some count, latency)) :
    (seenRows index rows)[k]? = some ⟨index + k, count, seenLatency latency⟩ := by
  induction rows generalizing index k with
  | nil => exact absurd h (by simp)
  | cons row rows ih =>
    cases k with
    | zero =>
      obtain rfl : row = (some count, latency) := Option.some.inj h
      rfl
    | succ k =>
      rw [seenRows, List.getElem?_cons_succ, ih h, Nat.add_assoc, Nat.add_comm 1]

theorem length_seenRows : (seenRows index rows).length = rows.length := by
  induction rows generalizing index with
  | nil => rfl
  | cons row rows ih => rw [seenRows, List.length_cons, ih, List.length_cons]

theorem countP_seenRows :
    (seenRows index rows).countP (fun row => row.latency.isNone) = rows.countP fun row => row.2.isNone := by
  induction rows generalizing index with
  | nil => rfl
  | cons row rows ih =>
    have hnone : (seenLatency row.2).isNone = row.2.isNone := by rw [seenLatency, Option.isNone_map]
    rw [seenRows, List.countP_cons, ih, List.countP_cons, hnone]

end Rows

/-! ### Tables -/

/-- Lines are told apart by the line feeds behind them. -/
theorem splitOn_flatMap_append {lines : List (List Char)} (h : ∀ line ∈ lines, '\n' ∉ line) (rest : List Char) :
    (lines.flatMap (· ++ ['\n']) ++ rest).splitOn '\n' = lines ++ rest.splitOn '\n' := by
  induction lines with
  | nil => rfl
  | cons line lines ih =>
    obtain ⟨hline, hlines⟩ := List.forall_mem_cons.mp h
    rw [List.flatMap_cons, List.append_assoc, List.append_assoc, List.singleton_append,
      List.splitOn_append_cons_self, List.splitOn_eq_singleton hline, ih hlines]
    rfl

/-- A text that is empty or begins with a line feed has an empty line first. -/
theorem exists_splitOn_eq {rest : List Char} (h : rest = [] ∨ ∃ cs, rest = '\n' :: cs) :
    ∃ lines, rest.splitOn '\n' = [] :: lines := by
  rcases h with rfl | ⟨cs, rfl⟩
  · exact ⟨[], rfl⟩
  · exact ⟨cs.splitOn '\n', List.splitOn_append_cons_self [] cs⟩

/-- **A table is read as its rows**, up to the empty line behind it. -/
theorem readRows_tableBody {rows : List (Option ℕ × Option (Option Float))} (hcounts : ∀ row ∈ rows, row.1 ≠ none)
    {rest : List Char} (hrest : rest = [] ∨ ∃ cs, rest = '\n' :: cs) :
    readRows (tableBody rows ++ rest) = some (seenRows 0 rows, rest) := by
  have htitles : (tableLine "batch" "io_requests" "latency_ms").toList =
      rowLine "batch" "io_requests" "latency_ms" ++ ['\n'] := toList_tableLine _ _ _
  have hlines : ∀ line ∈ rowLines 0 rows, '\n' ∉ line := fun line hline => (not_mem_of_mem_rowLines hline).1
  have hshown : ∀ line ∈ rowLines 0 rows, decide (line ≠ []) = true :=
    fun line hline => decide_eq_true (not_mem_of_mem_rowLines hline).2
  have hsplit : (tableBody rows ++ rest).splitOn '\n' =
      rowLine "batch" "io_requests" "latency_ms" :: (rowLines 0 rows ++ rest.splitOn '\n') := by
    rw [tableBody, String.toList_append, htitles, toList_join_tableLines hcounts, List.append_assoc, List.append_assoc,
      List.singleton_append, List.splitOn_append_cons_self, List.splitOn_eq_singleton (by decide),
      splitOn_flatMap_append hlines]
    rfl
  obtain ⟨lines, hempty⟩ := exists_splitOn_eq hrest
  have htake : (rowLines 0 rows ++ rest.splitOn '\n').takeWhile (· ≠ []) = rowLines 0 rows := by
    rw [hempty, List.takeWhile_append_of_pos hshown, List.takeWhile_cons_of_neg (by simp), List.append_nil]
  have hdrop : (rowLines 0 rows ++ rest.splitOn '\n').dropWhile (· ≠ []) = rest.splitOn '\n' := by
    rw [hempty, List.dropWhile_append_of_pos hshown, List.dropWhile_cons_of_neg (by simp)]
  have hcolumns : words (rowLine "batch" "io_requests" "latency_ms") = columnTitles := by
    rw [words_rowLine]
    decide
  unfold readRows
  rw [hsplit]
  dsimp only
  rw [if_pos hcolumns, htake, hdrop, mapM_read_rowLines, List.intercalate_splitOn]
  rfl

theorem afterLine_append {line : List Char} (h : '\n' ∉ line) (rest : List Char) :
    afterLine (line ++ '\n' :: rest) = rest := by
  have hline : ∀ c ∈ line, decide (c ≠ '\n') = true := by
    intro c hc
    rw [decide_eq_true_iff]
    rintro rfl
    exact h hc
  rw [afterLine, List.dropWhile_append_of_pos hline, List.dropWhile_cons_of_neg (by simp)]
  rfl

/-- A table is found by its label. -/
theorem readTablesUnder_cons {label : String} {batches batchSize : ℕ} {rows : List (Option ℕ × Option (Option Float))}
    (hcounts : ∀ row ∈ rows, row.1 ≠ none) {rest : List Char} (hrest : rest = [] ∨ ∃ cs, rest = '\n' :: cs)
    (labels : List String) :
    readTablesUnder (label :: labels) ('\n' :: (heading label batches batchSize ++ '\n' :: (tableBody rows ++ rest))) =
      (readTablesUnder labels rest).map (seenRows 0 rows :: ·) := by
  let behind := heading "" batches batchSize
  have hheading : heading label batches batchSize = label.toList ++ behind := by
    simp only [behind, heading, List.append_assoc]
    rfl
  have htext : '\n' :: (heading label batches batchSize ++ '\n' :: (tableBody rows ++ rest)) =
      '\n' :: label.toList ++ (behind ++ '\n' :: (tableBody rows ++ rest)) := by
    rw [hheading, List.append_assoc, List.cons_append]
  have hbehind : '\n' ∉ behind := not_mem_heading (by decide)
  have hprefix := List.isPrefixOf_iff_prefix.mpr (List.prefix_append ('\n' :: label.toList) (behind ++ '\n' ::
    (tableBody rows ++ rest)))
  rw [htext, readTablesUnder, if_pos hprefix, List.drop_left, afterLine_append hbehind,
    readRows_tableBody hcounts hrest]

/-- **The tables of a report are read back**, if no batch is without a count. -/
theorem readTables_plain {r : Report} (hfinite : ∀ x, some x ∈ r.latencies → x.isFinite = true)
    (hcounts : ∀ c ∈ r.classes.toList, ∀ row ∈ c.rows, row.1 ≠ none) :
    readTables [r.classes.even.label, r.classes.odd.label] r.plain =
      some (r.classes.toList.map fun c => seenRows 0 c.rows) := by
  have heven := hcounts r.classes.even (by simp [Batch.Alternation.toList])
  have hodd := hcounts r.classes.odd (by simp [Batch.Alternation.toList])
  have hlast : tableBody r.classes.odd.rows = tableBody r.classes.odd.rows ++ [] := (List.append_nil _).symm
  rw [readTables, toList_plain, afterLine_append (not_mem_lists hfinite), afterLine_append (not_mem_summary r),
    toList_tables, readTablesUnder_cons heven (.inr ⟨_, rfl⟩), hlast, readTablesUnder_cons hodd (.inl rfl)]
  rfl

/-! ### The rows of a class -/

section Class

variable {c : CommandClass} (h : c.latencies.length ≤ c.counts.length)

include h

/-- A class with a count for each latency has no row without a count. -/
theorem count_ne_none_of_mem_rows : ∀ row ∈ c.rows, row.1 ≠ none := by
  have hnone := Batch.countP_pairUp_left c.counts c.latencies
  rw [Nat.sub_eq_zero_of_le h, List.countP_eq_zero] at hnone
  intro row hrow heq
  exact absurd (hnone row hrow) (by simp [heq])

theorem length_seenRows_class : (seenRows 0 c.rows).length = c.counts.length := by
  rw [length_seenRows, CommandClass.rows, Batch.length_pairUp, Nat.max_eq_left h]

end Class

theorem getElem?_seenRows_class {c : CommandClass} {k count : ℕ} (h : c.counts[k]? = some count) :
    (seenRows 0 c.rows)[k]? = some ⟨k, count, seenLatency c.latencies[k]?⟩ := by
  have hrow : c.rows[k]? = some (some count, c.latencies[k]?) := Batch.getElem?_pairUp_of_left h
  rw [getElem?_seenRows hrow, Nat.zero_add]

/-- The rows without a latency are those past the end of the latencies. -/
theorem countP_seenRows_class (c : CommandClass) :
    (seenRows 0 c.rows).countP (fun row => row.latency.isNone) = c.counts.length - c.latencies.length := by
  rw [countP_seenRows, CommandClass.rows, Batch.countP_pairUp_right]

end LogCorrelation.Report
