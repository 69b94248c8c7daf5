import LogCorrelation.Proofs.Report.Rows
import LogCorrelation.Report.Page

/-!
# Proofs.Report.Curves — charts show the data of the report

The curve of a class has a point for each batch of known value, at the number of the batch within its class; a batch of
unknown value has no point, and the batches after it keep their numbers.

* `mem_numbered_iff`, `pairwise_numbered`: the points of a curve.
* `isGreatest_maxIndex`: the end of the horizontal axis.
* `charts_show_data`: the charts of a report on measured intervals.
-/

namespace LogCorrelation.Report

open Batch (CommandClass Alternation)
open Intervals (Feed)

/-! ### Points -/

theorem mem_numbered_iff {index k : ℕ} {x : Float} {values : List (Option Float)} :
    (k, x) ∈ numbered index values ↔ ∃ j, k = index + j ∧ values[j]? = some (some x) := by
  induction values generalizing index with
  | nil => simp [numbered]
  | cons value values ih =>
    have hrest : (k, x) ∈ numbered (index + 1) values ↔
        ∃ j, k = index + (j + 1) ∧ (value :: values)[j + 1]? = some (some x) := by
      rw [ih]
      simp only [List.getElem?_cons_succ, Nat.add_assoc, Nat.add_comm 1]
    constructor
    · intro h
      cases value with
      | none =>
        obtain ⟨j, hj⟩ := hrest.mp h
        exact ⟨j + 1, hj⟩
      | some y =>
        rcases List.mem_cons.mp h with hfirst | h
        · obtain ⟨rfl, rfl⟩ := Prod.mk.inj hfirst
          exact ⟨0, rfl, rfl⟩
        · obtain ⟨j, hj⟩ := hrest.mp h
          exact ⟨j + 1, hj⟩
    · rintro ⟨j, hk, hvalue⟩
      cases j with
      | zero =>
        obtain rfl : value = some x := Option.some.inj hvalue
        rw [hk]
        exact List.mem_cons_self
      | succ j =>
        have hmem := hrest.mpr ⟨j, hk, hvalue⟩
        cases value with
        | none => exact hmem
        | some y => exact List.mem_cons_of_mem _ hmem

theorem pairwise_numbered (index : ℕ) (values : List (Option Float)) :
    (numbered index values).Pairwise fun a b => a.1 < b.1 := by
  induction values generalizing index with
  | nil => exact List.Pairwise.nil
  | cons value values ih =>
    cases value with
    | none => exact ih (index + 1)
    | some y =>
      refine List.pairwise_cons.mpr ⟨fun point hpoint => ?_, ih (index + 1)⟩
      obtain ⟨j, hj, -⟩ := mem_numbered_iff.mp hpoint
      omega

/-! ### The horizontal axis -/

/-- The greatest number in a list, or zero. -/
theorem isGreatest_foldl_max (ns : List ℕ) : IsGreatest {n | n ∈ 0 :: ns} (ns.foldl max 0) := by
  have hmax : (0 :: ns).max? = some (ns.foldl max 0) := List.max?_cons'
  obtain ⟨hmem, hle⟩ := List.max?_eq_some_iff.mp hmax
  exact ⟨hmem, fun n hn => hle n hn⟩

/-- An axis that reaches to the greatest batch number of all points, but at least to one. -/
structure Fits (c : Chart) : Prop where
  one_le : 1 ≤ c.maxIndex
  le : ∀ curve ∈ c.curves, ∀ point ∈ curve.points, point.1 ≤ c.maxIndex
  attained : (∃ curve ∈ c.curves, ∃ point ∈ curve.points, 0 < point.1) →
    ∃ curve ∈ c.curves, ∃ point ∈ curve.points, point.1 = c.maxIndex
  least : (∀ curve ∈ c.curves, ∀ point ∈ curve.points, point.1 = 0) → c.maxIndex = 1

theorem fits (c : Chart) : Fits c := by
  obtain ⟨hmem, hle⟩ := isGreatest_foldl_max (c.points.map (·.1))
  have hpoint {curve : Curve} (hcurve : curve ∈ c.curves) {point : ℕ × Float} (hpoint : point ∈ curve.points) :
      point.1 ≤ (c.points.map (·.1)).foldl max 0 :=
    hle (List.mem_cons_of_mem _ (List.mem_map_of_mem (List.mem_flatMap_of_mem hcurve hpoint)))
  have hgreatest : 0 < (c.points.map (·.1)).foldl max 0 →
      ∃ curve ∈ c.curves, ∃ point ∈ curve.points, point.1 = (c.points.map (·.1)).foldl max 0 := by
    intro hpos
    rcases List.mem_cons.mp hmem with hzero | hmem
    · omega
    · obtain ⟨point, hpoints, hvalue⟩ := List.mem_map.mp hmem
      obtain ⟨curve, hcurve, hpoint⟩ := List.mem_flatMap.mp hpoints
      exact ⟨curve, hcurve, point, hpoint, hvalue⟩
  refine ⟨Nat.le_max_left _ _, fun curve hcurve point hmem => ?_, ?_, ?_⟩
  · exact le_trans (hpoint hcurve hmem) (Nat.le_max_right _ _)
  · rintro ⟨curve, hcurve, point, hmem, hpos⟩
    have hle := hpoint hcurve hmem
    obtain ⟨curve', hcurve', point', hmem', hvalue⟩ := hgreatest (lt_of_lt_of_le hpos hle)
    refine ⟨curve', hcurve', point', hmem', ?_⟩
    rw [hvalue, Chart.maxIndex, Nat.max_eq_right (by omega)]
  · intro hzero
    by_contra hne
    have hpos : 0 < (c.points.map (·.1)).foldl max 0 := by
      unfold Chart.maxIndex at hne
      omega
    obtain ⟨curve, hcurve, point, hmem, hvalue⟩ := hgreatest hpos
    have := hzero curve hcurve point hmem
    omega

/-! ### Curves -/

/-- The curve at a place among those of a chart: its label and colour are those of the batches whose index has the parity
of the place, and its points are known values in order, batch `k` of the class being batch `2 * k + i` of the whole. -/
structure StandsFor (s : Settings) (i : ℕ) (value : ℕ → Option Float) (curve : Curve) : Prop where
  label : curve.label = labelAt s i
  colour : curveColours[i]? = some curve.colour
  increasing : curve.points.Pairwise fun a b => a.1 < b.1
  points : ∀ k x, (k, x) ∈ curve.points ↔ value (2 * k + i) = some x

theorem exists_curve (r : Report) (values : CommandClass → List (Option Float)) {i : ℕ} (hi : i < 2) :
    ∃ curve, (r.curvesOf values)[i]? = some curve ∧ curve.label = (r.classes.classOf i).label ∧
      curveColours[i]? = some curve.colour ∧ curve.points = numbered 0 (values (r.classes.classOf i)) := by
  interval_cases i
  · exact ⟨_, rfl, rfl, rfl, rfl⟩
  · exact ⟨_, rfl, rfl, rfl, rfl⟩

theorem classOf_two_mul_add (a : Alternation) (k i : ℕ) : a.classOf (2 * k + i) = a.classOf i := by
  unfold Alternation.classOf
  rw [Nat.mul_add_mod]

section Separated

variable {s : Settings} {r : Report} (h : r.classes = .ofData s.evenLabel s.oddLabel r.counts r.latencies) {i : ℕ}
  (hi : i < 2)

include h hi

/-- Batch `k` of a class is batch `2 * k + i` of the whole. -/
theorem getElem?_classOf_of_lt_two (k : ℕ) :
    (r.classes.classOf i).counts[k]? = r.counts[2 * k + i]? ∧
      (r.classes.classOf i).latencies[k]? = r.latencies[2 * k + i]? := by
  have hindex := getElem?_classOf h (2 * k + i)
  have hhalf : (2 * k + i) / 2 = k := by omega
  rwa [classOf_two_mul_add, hhalf] at hindex

/-- A curve of values that are those of a whole, batch by batch. -/
theorem exists_standsFor (values : CommandClass → List (Option Float)) {value : ℕ → Option Float}
    (hvalue : ∀ k x, (values (r.classes.classOf i))[k]? = some (some x) ↔ value (2 * k + i) = some x) :
    ∃ curve, (r.curvesOf values)[i]? = some curve ∧ StandsFor s i value curve := by
  obtain ⟨curve, hcurve, hlabel, hcolour, hpoints⟩ := exists_curve r values hi
  refine ⟨curve, hcurve, ?_, hcolour, ?_, fun k x => ?_⟩
  · rw [hlabel, label_classOf h]
  · rw [hpoints]
    exact pairwise_numbered 0 _
  · rw [hpoints, mem_numbered_iff, ← hvalue]
    simp only [Nat.zero_add, exists_eq_left']

theorem exists_countCurve : ∃ curve, r.countChart.curves[i]? = some curve ∧
    StandsFor s i (fun index => r.counts[index]?.map Float.ofNat) curve := by
  refine exists_standsFor h hi (fun c => c.counts.map fun n => some (Float.ofNat n)) fun k x => ?_
  rw [List.getElem?_map, (getElem?_classOf_of_lt_two h hi k).1]
  cases r.counts[2 * k + i]? <;> simp

theorem exists_latencyCurve : ∃ curve, r.latencyChart.curves[i]? = some curve ∧
    StandsFor s i (fun index => r.latencies[index]?.join) curve := by
  refine exists_standsFor h hi (·.latencies) fun k x => ?_
  rw [(getElem?_classOf_of_lt_two h hi k).2, Option.join_eq_some_iff]

end Separated

/-! ### The charts of a report -/

/-- **Charts show the data of a report over `n` commands**: two curves each, with all counts and with all latencies that
are known. -/
structure ChartsShow (s : Settings) (r : Report) (n : ℕ) : Prop where
  charts : r.page.charts = [r.countChart, r.latencyChart]
  curves : ∀ c ∈ r.page.charts, c.curves.length = 2
  countCurve : ∀ i < 2, ∃ curve, r.countChart.curves[i]? = some curve ∧
    StandsFor s i (fun index => r.counts[index]?.map Float.ofNat) curve ∧
    ∀ k, (∃ x, (k, x) ∈ curve.points) ↔ 2 * k + i ≤ n
  latencyCurve : ∀ i < 2, ∃ curve, r.latencyChart.curves[i]? = some curve ∧
    StandsFor s i (fun index => r.latencies[index]?.join) curve ∧
    ∀ k, (∃ x, (k, x) ∈ curve.points) ↔ 2 * k + i < n ∧ r.latencies[2 * k + i]? ≠ some none
  fits : ∀ c ∈ r.page.charts, Fits c

theorem chartsShow_of_lengths {s : Settings} {r : Report} {n : ℕ}
    (h : r.classes = .ofData s.evenLabel s.oddLabel r.counts r.latencies) (hcounts : r.counts.length = n + 1)
    (hlatencies : r.latencies.length = n) : ChartsShow s r n where
  charts := charts_page r
  curves c hc := by
    rcases mem_charts_page.mp hc with rfl | rfl <;> rfl
  countCurve i hi := by
    obtain ⟨curve, hcurve, hstands⟩ := exists_countCurve h hi
    refine ⟨curve, hcurve, hstands, fun k => ?_⟩
    simp only [hstands.points]
    rw [← Option.isSome_iff_exists, Option.isSome_map, Option.isSome_iff_ne_none, ne_eq, List.getElem?_eq_none_iff,
      hcounts]
    omega
  latencyCurve i hi := by
    obtain ⟨curve, hcurve, hstands⟩ := exists_latencyCurve h hi
    refine ⟨curve, hcurve, hstands, fun k => ?_⟩
    simp only [hstands.points, Option.join_eq_some_iff]
    rw [← hlatencies, ← not_le, ← List.getElem?_eq_none_iff]
    rcases r.latencies[2 * k + i]? with _ | _ | x <;> simp
  fits c _ := Report.fits c

/-- **Charts show the data of the report**, for every report on measured intervals. -/
theorem charts_show_data {ε : Type} {commands io : Feed ε} {p : Intervals} {s : Settings} {r : Report}
    (hp : (Intervals.measure commands io).outcome = .ok p) (hr : ofIntervals p s = .ok r) :
    ChartsShow s r commands.times.length := by
  obtain ⟨-, hcounts, hclasses⟩ := data_of_ofIntervals_eq_ok hr
  apply chartsShow_of_lengths hclasses
  · rw [hcounts, Intervals.eq_ofTimes_of_measure hp, Intervals.counts_ofTimes, Intervals.length_tally]
  · rw [(counts_and_length_of_ofIntervals_eq_ok hr).2, Intervals.eq_ofTimes_of_measure hp, Intervals.latencies_ofTimes,
      Intervals.length_gaps]

/-- Three commands, and no latency filled in: the even curve begins at the second batch of its class. -/
theorem charts_show_data_of_three_commands :
    let commands : List TimeOfDay :=
      [⟨1, 0, by decide, by decide⟩, ⟨2, 0, by decide, by decide⟩, ⟨4, 0, by decide, by decide⟩]
    let s : Settings := { fillFirst := false }
    ∃ p r, (Intervals.measure (.ofTimes commands) (.ofTimes []) : Intervals.Run String Intervals).outcome = .ok p ∧
      ofIntervals p s = .ok r ∧ ChartsShow s r 3 ∧
      r.latencyChart.curves.map (fun curve => curve.points.map (·.1)) = [[1], [0]] := by
  intro commands s
  have hp : (Intervals.measure (.ofTimes commands) (.ofTimes []) : Intervals.Run String Intervals).outcome =
      .ok (.ofTimes commands []) := rfl
  have hr : ofIntervals (.ofTimes commands []) s = .ok _ := rfl
  exact ⟨_, _, hp, hr, charts_show_data hp hr, rfl⟩

end LogCorrelation.Report
