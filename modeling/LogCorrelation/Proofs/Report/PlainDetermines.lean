import LogCorrelation.Proofs.Report.DataLine

/-!
# Proofs.Report.PlainDetermines — the plain text determines the report

The first line gives the counts and the latencies, so both totals are known and the second line tells no more than whether
the first latency was filled in.  What the tables hold is known as well, all but their heads: a label may look like
anything, but it ends where the words in front of the two numbers begin, seen from the end of the line.

* `toList_tables`: the tables, line by line where it matters.
* `heading_inj`: the head of a table gives its label and the batch size.
* `plain_determines`: two reports on measured intervals with the same text.
-/

namespace LogCorrelation.Report

open Batch (CommandClass Alternation)
open Intervals (Feed)

/-! ### Cuts -/

/-- A text is cut at the first place of a character in one way only. -/
theorem eq_of_cut_first {as bs as' bs' : List Char} {x : Char} (h : x ∉ as) (h' : x ∉ as')
    (heq : as ++ x :: bs = as' ++ x :: bs') : as = as' ∧ bs = bs' := by
  induction as generalizing as' with
  | nil =>
    cases as' with
    | nil => exact ⟨rfl, (List.cons.inj heq).2⟩
    | cons a' as' => exact absurd ((List.cons.inj heq).1 ▸ List.mem_cons_self) h'
  | cons a as ih =>
    cases as' with
    | nil => exact absurd ((List.cons.inj heq).1 ▸ List.mem_cons_self) h
    | cons a' as' =>
      obtain ⟨rfl, hrest⟩ := List.cons.inj heq
      obtain ⟨rfl, rfl⟩ := ih (mt (List.mem_cons_of_mem a) h) (mt (List.mem_cons_of_mem a) h') hrest
      exact ⟨rfl, rfl⟩

/-- So is it at the last place. -/
theorem eq_of_cut_last {as bs as' bs' : List Char} {x : Char} (h : x ∉ bs) (h' : x ∉ bs')
    (heq : as ++ x :: bs = as' ++ x :: bs') : as = as' ∧ bs = bs' := by
  have hreverse := congrArg List.reverse heq
  simp only [List.reverse_append, List.reverse_cons, List.append_assoc, List.singleton_append] at hreverse
  rw [← List.mem_reverse] at h h'
  obtain ⟨hbs, has⟩ := eq_of_cut_first h h' hreverse
  exact ⟨List.reverse_inj.mp has, List.reverse_inj.mp hbs⟩

/-! ### Heads of tables -/

/-- The head of a table, without the line feed that ends it. -/
def heading (label : String) (batches batchSize : Nat) : List Char :=
  label.toList ++ " (".toList ++ Decimal.digits batches ++ " batches of".toList ++
    ' ' :: Decimal.digits batchSize ++ " commands)".toList

/-- What follows the head of a table. -/
def tableBody (rows : List (Option Nat × Option (Option Float))) : List Char :=
  (tableLine "batch" "io_requests" "latency_ms" ++ String.join (tableLines 0 rows)).toList

theorem toList_table (batchSize : Nat) (c : CommandClass) :
    (table batchSize c).toList = heading c.label c.length batchSize ++ '\n' :: tableBody c.rows := by
  simp only [table, heading, tableBody, String.toList_append, Decimal.toList_toString, List.append_assoc]
  rfl

theorem toList_tables (batchSize : Nat) (a : Alternation) :
    (String.join (a.toList.map fun c => "\n" ++ table batchSize c)).toList =
      '\n' :: (heading a.even.label a.even.length batchSize ++ '\n' :: (tableBody a.even.rows ++
        '\n' :: (heading a.odd.label a.odd.length batchSize ++ '\n' :: tableBody a.odd.rows))) := by
  have hjoin : String.join (a.toList.map fun c => "\n" ++ table batchSize c) =
      "" ++ ("\n" ++ table batchSize a.even) ++ ("\n" ++ table batchSize a.odd) := rfl
  rw [hjoin]
  simp only [String.toList_append, toList_table, List.append_assoc]
  rfl

section Heading

variable {label label' : String} {batches batchSize batchSize' : Nat}

theorem not_mem_digits {c : Char} (hc : c.isDigit = false) (n : ℕ) : c ∉ Decimal.digits n := by
  intro hmem
  exact absurd (hc.symm.trans (Decimal.isDigit_of_mem_digits hmem)) Bool.false_ne_true

theorem not_mem_heading (h : '\n' ∉ label.toList) : '\n' ∉ heading label batches batchSize := by
  simp only [heading, List.mem_append, List.mem_cons, not_or]
  exact ⟨⟨⟨⟨⟨h, by decide⟩, not_mem_digits rfl _⟩, by decide⟩, by decide, not_mem_digits rfl _⟩, by decide⟩

/-- **The head of a table gives its label and the batch size**, whatever the label looks like. -/
theorem heading_inj (h : heading label batches batchSize = heading label' batches batchSize') :
    label = label' ∧ batchSize = batchSize' := by
  unfold heading at h
  obtain ⟨hlabel, hdigits⟩ := eq_of_cut_last (not_mem_digits rfl _) (not_mem_digits rfl _) (List.append_cancel_right h)
  constructor
  · exact String.toList_inj.mp (List.append_cancel_right (List.append_cancel_right (List.append_cancel_right hlabel)))
  · have hvalue := congrArg Decimal.value hdigits
    rwa [Decimal.value_digits, Decimal.value_digits] at hvalue

end Heading

/-! ### The whole text -/

/-- Two reports that say the same under settings with the same labels. -/
structure SaysTheSame (s s' : Settings) (r r' : Report) : Prop where
  counts : r.counts = r'.counts
  latencies : r.latencies = r'.latencies
  firstFilled : r.firstFilled = r'.firstFilled
  batchSize : r.batchSize = r'.batchSize
  evenLabel : s.evenLabel = s'.evenLabel
  oddLabel : s.oddLabel = s'.oddLabel

section Separated

variable {s s' : Settings} {r r' : Report} (hclasses : r.classes = .ofData s.evenLabel s.oddLabel r.counts r.latencies)
  (hclasses' : r'.classes = .ofData s'.evenLabel s'.oddLabel r'.counts r'.latencies)

include hclasses hclasses'

theorem SaysTheSame.eq (h : SaysTheSame s s' r r') : r = r' := by
  have hsame : r.classes = r'.classes := by
    rw [hclasses, hclasses', h.counts, h.latencies, h.evenLabel, h.oddLabel]
  cases r
  cases r'
  obtain ⟨hcounts, hlatencies, hfirst, hsize, -, -⟩ := h
  simp only at hcounts hlatencies hfirst hsize hsame
  rw [hcounts, hlatencies, hfirst, hsize, hsame]

/-- Reports with the same counts and latencies are told apart by the heads of their tables. -/
theorem labels_eq_of_tables_eq (hcounts : r.counts = r'.counts) (hlatencies : r.latencies = r'.latencies)
    (hlabels : ∀ label ∈ [s.evenLabel, s.oddLabel, s'.evenLabel, s'.oddLabel], '\n' ∉ label.toList)
    (htables : (String.join (r.classes.toList.map fun c => "\n" ++ table r.batchSize c)).toList =
      (String.join (r'.classes.toList.map fun c => "\n" ++ table r'.batchSize c)).toList) :
    r.batchSize = r'.batchSize ∧ s.evenLabel = s'.evenLabel ∧ s.oddLabel = s'.oddLabel := by
  simp only [List.forall_mem_cons] at hlabels
  obtain ⟨heven, hodd, heven', hodd', -⟩ := hlabels
  have hrows : r.classes.even.rows = r'.classes.even.rows := by rw [hclasses, hclasses', hcounts, hlatencies]; rfl
  have hevens : r.classes.even.length = r'.classes.even.length := by rw [hclasses, hclasses', hcounts, hlatencies]; rfl
  have hodds : r.classes.odd.length = r'.classes.odd.length := by rw [hclasses, hclasses', hcounts, hlatencies]; rfl
  have hlabel {s : Settings} {r : Report} (h : r.classes = .ofData s.evenLabel s.oddLabel r.counts r.latencies) :
      r.classes.even.label = s.evenLabel ∧ r.classes.odd.label = s.oddLabel := by
    rw [h]
    exact ⟨rfl, rfl⟩
  rw [toList_tables, toList_tables, hrows, hevens, hodds, (hlabel hclasses).1, (hlabel hclasses).2,
    (hlabel hclasses').1, (hlabel hclasses').2] at htables
  obtain ⟨hevenHead, hrest⟩ := eq_of_cut_first (not_mem_heading heven) (not_mem_heading heven') (List.cons.inj htables).2
  have hbehind := (List.cons.inj (List.append_cancel_left hrest)).2
  obtain ⟨hoddHead, -⟩ := eq_of_cut_first (not_mem_heading hodd) (not_mem_heading hodd') hbehind
  exact ⟨(heading_inj hevenHead).2, (heading_inj hevenHead).1, (heading_inj hoddHead).1⟩

end Separated

theorem firstFilled_of_summary_eq {r r' : Report} (htotals : r.totals = r'.totals) (h : r.summary = r'.summary) :
    r.firstFilled = r'.firstFilled := by
  unfold summary at h
  rw [htotals] at h
  have hnote := congrArg List.isEmpty (List.append_cancel_left h)
  have hempty (filled : Bool) : (if filled then ", ".toList ++ filledNote.toList else []).isEmpty = !filled := by
    cases filled <;> rfl
  rw [hempty, hempty] at hnote
  exact Bool.not_inj hnote

/-- **The plain text determines the report.**  Two reports on measured intervals, under labels without line feeds, have
the same text only if they say the same; and the first line is read back as the counts and the latencies. -/
theorem plain_determines {ε ε' : Type} {commands io : Feed ε} {commands' io' : Feed ε'} {p p' : Intervals}
    {s s' : Settings} {r r' : Report} (hp : (Intervals.measure commands io).outcome = .ok p)
    (hr : ofIntervals p s = .ok r) (hp' : (Intervals.measure commands' io').outcome = .ok p')
    (hr' : ofIntervals p' s' = .ok r')
    (hlabels : ∀ label ∈ [s.evenLabel, s.oddLabel, s'.evenLabel, s'.oddLabel], '\n' ∉ label.toList) :
    (r.plain = r'.plain ↔ SaysTheSame s s' r r') ∧ readDataLine r.plain = some (r.counts, r.latencies) := by
  have hread := readDataLine_plain (isTimed_of_measure hp hr)
  have hread' := readDataLine_plain (isTimed_of_measure hp' hr')
  have hclasses := (data_of_ofIntervals_eq_ok hr).2.2
  have hclasses' := (data_of_ofIntervals_eq_ok hr').2.2
  refine ⟨⟨fun hplain => ?_, fun hsame => congrArg plain (hsame.eq hclasses hclasses')⟩, hread⟩
  rw [hplain, hread', Option.some.injEq, Prod.mk.injEq] at hread
  have htext := congrArg String.toList hplain
  rw [toList_plain, toList_plain] at htext
  obtain ⟨-, hlines⟩ := eq_of_cut_first (not_mem_lists (isFinite_of_mem_report hp hr))
    (not_mem_lists (isFinite_of_mem_report hp' hr')) htext
  obtain ⟨hsummary, htables⟩ := eq_of_cut_first (not_mem_summary r) (not_mem_summary r') hlines
  have hcounts : r.counts = r'.counts := hread.1.symm
  have hlatencies : r.latencies = r'.latencies := hread.2.symm
  have htotals : r.totals = r'.totals := by
    rw [totals, totals, commandCount, commandCount, eventCount, eventCount, hcounts, hlatencies]
  obtain ⟨hsize, heven, hodd⟩ := labels_eq_of_tables_eq hclasses hclasses' hcounts hlatencies hlabels htables
  exact ⟨hcounts, hlatencies, firstFilled_of_summary_eq htotals hsummary, hsize, heven, hodd⟩

/-- A label that looks like a whole head is told from the label that it begins with. -/
theorem plain_determines_disguised_label :
    let commands : List TimeOfDay :=
      [⟨1, 0, by decide, by decide⟩, ⟨2, 0, by decide, by decide⟩, ⟨4, 0, by decide, by decide⟩]
    let s : Settings := { evenLabel := "A (2 batches of 1 commands)" }
    let s' : Settings := { evenLabel := "A", batchSize := 1 }
    ∃ p r r', (Intervals.measure (.ofTimes commands) (.ofTimes []) : Intervals.Run String Intervals).outcome = .ok p ∧
      ofIntervals p s = .ok r ∧ ofIntervals p s' = .ok r' ∧
      (∀ label ∈ [s.evenLabel, s.oddLabel, s'.evenLabel, s'.oddLabel], '\n' ∉ label.toList) ∧
      r.plain ≠ r'.plain ∧ readDataLine r.plain = some (r.counts, r.latencies) := by
  intro commands s s'
  have hp : (Intervals.measure (.ofTimes commands) (.ofTimes []) : Intervals.Run String Intervals).outcome =
      .ok (.ofTimes commands []) := rfl
  obtain ⟨r, hr⟩ : ∃ r, ofIntervals (.ofTimes commands []) s = .ok r := ⟨_, rfl⟩
  obtain ⟨r', hr'⟩ : ∃ r, ofIntervals (.ofTimes commands []) s' = .ok r := ⟨_, rfl⟩
  have hlabels : ∀ label ∈ [s.evenLabel, s.oddLabel, s'.evenLabel, s'.oddLabel], '\n' ∉ label.toList := by decide
  obtain ⟨hsame, hread⟩ := plain_determines hp hr hp hr' hlabels
  refine ⟨_, r, r', hp, hr, hr', hlabels, fun hplain => ?_, hread⟩
  exact absurd (hsame.mp hplain).evenLabel (by decide)

end LogCorrelation.Report
