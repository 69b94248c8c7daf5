import LogCorrelation.Proofs.Batch.Classes
import LogCorrelation.Proofs.Report.Acceptance
import LogCorrelation.Report.Rows

/-!
# Proofs.Report.Rows — rows and classes at an index

Rows walk the counts in order and take the label from the parity of the index.  Counts and latencies are also split into
two classes, where the same interval is found at half the index.

* `getElem?_rows`: the row of an interval.
* `data_of_ofIntervals_eq_ok`: the data of a report on intervals.
* `getElem?_classOf`, `length_classOf`: the classes of such a report.
-/

namespace LogCorrelation.Report

open Batch (Alternation split)

/-! ### Rows -/

theorem getElem?_rowsFrom (classes : Alternation) (index : Nat) (counts : List Nat) (latencies : List (Option Float))
    (i : Nat) :
    (rowsFrom classes index counts latencies)[i]? = counts[i]?.map fun count =>
      ⟨index + i, (classes.classOf (index + i)).label, count, latencies[i]?.join⟩ := by
  induction counts generalizing index latencies i with
  | nil => rfl
  | cons count counts ih =>
    rw [rowsFrom]
    cases i with
    | zero => simp [List.head?_eq_getElem?]
    | succ i =>
      rw [List.getElem?_cons_succ, ih, List.getElem?_cons_succ, List.getElem?_tail, Nat.add_right_comm index 1 i,
        Nat.add_assoc index i 1]

theorem getElem?_rows (r : Report) (i : Nat) :
    r.rows[i]? = r.counts[i]?.map fun count =>
      ⟨i, (r.classes.classOf i).label, count, r.latencies[i]?.join⟩ := by
  rw [rows, getElem?_rowsFrom, Nat.zero_add]

theorem length_rows (r : Report) : r.rows.length = r.counts.length := by
  have hlength (classes : Alternation) (index : Nat) (counts : List Nat) (latencies : List (Option Float)) :
      (rowsFrom classes index counts latencies).length = counts.length := by
    induction counts generalizing index latencies with
    | nil => rfl
    | cons count counts ih => rw [rowsFrom, List.length_cons, ih, List.length_cons]
  exact hlength _ _ _ _

/-! ### The data of a report -/

theorem data_of_ofIntervals_eq_ok {p : Intervals} {s : Settings} {r : Report} (h : ofIntervals p s = .ok r) :
    latenciesOf p s = .ok r.latencies ∧ r.counts = p.counts ∧
      r.classes = .ofData s.evenLabel s.oddLabel r.counts r.latencies := by
  obtain ⟨latencies, hl, rfl⟩ := Except.map_eq_ok_iff.mp h
  exact ⟨hl, rfl, rfl⟩

/-- The label of the class that an index belongs to. -/
def labelAt (s : Settings) (i : Nat) : String := if i % 2 = 0 then s.evenLabel else s.oddLabel

section Separated

variable {s : Settings} {r : Report} (h : r.classes = .ofData s.evenLabel s.oddLabel r.counts r.latencies)

include h

theorem label_classOf (i : Nat) : (r.classes.classOf i).label = labelAt s i := by
  rw [h, Alternation.label_classOf_ofData]
  rfl

theorem getElem?_classOf (i : Nat) :
    (r.classes.classOf i).counts[i / 2]? = r.counts[i]? ∧
      (r.classes.classOf i).latencies[i / 2]? = r.latencies[i]? := by
  rw [h]
  exact Alternation.getElem?_classOf_ofData _ _ _ _ i

/-- The counts of a class are as many as its latencies, or one more in the class of the last interval. -/
theorem length_classOf (hlength : r.counts.length = r.latencies.length + 1) (i : Nat) :
    (r.classes.classOf i).counts.length =
      (r.classes.classOf i).latencies.length + if i % 2 = r.latencies.length % 2 then 1 else 0 := by
  rw [h]
  exact Alternation.length_classOf_ofData _ _ i hlength

/-- Both classes together have all counts and all latencies. -/
theorem length_classes (hlength : r.counts.length = r.latencies.length + 1) :
    r.classes.even.counts.length + r.classes.odd.counts.length = r.latencies.length + 1 ∧
      r.classes.even.latencies.length + r.classes.odd.latencies.length = r.latencies.length := by
  have hcounts := Batch.length_split r.counts
  have hlatencies := Batch.length_split r.latencies
  rw [h]
  show (split r.counts).1.length + (split r.counts).2.length = _ ∧
    (split r.latencies).1.length + (split r.latencies).2.length = _
  omega

end Separated

end LogCorrelation.Report
