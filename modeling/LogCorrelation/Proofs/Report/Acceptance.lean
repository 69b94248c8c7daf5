import LogCorrelation.Proofs.Intervals.FirstFault
import LogCorrelation.Proofs.Intervals.FirstLatency
import LogCorrelation.Proofs.Log.Acceptance
import LogCorrelation.Report.OfLogs

/-!
# Proofs.Report.Acceptance — which logs give a report

A report is made of two logs if and only if both are read to their end without a fault and the first latency can be
filled in, should that be asked for.  No line is left unread: a log's feed has a fault or gives the times in all its
lines, and a run over feeds without faults counts every event.

* `intervalsOf_eq_ok_iff`: the logs that give intervals, and the intervals.
* `exists_ofIntervals_iff`: the intervals that give a report.
* `exists_ofLogs_iff_of_data`: both together, and the numbers of commands and events in the report.
-/

namespace LogCorrelation.Report

open Log (Acceptable Legible isBlankLine lines timesIn)

/-! ### The two stages -/

theorem ofLogs_eq_ok_iff {s : Settings} {commands io : Log.Source} {r : Report} :
    ofLogs s (.ok commands) (.ok io) = .ok r ↔ ∃ p, intervalsOf commands io = .ok p ∧ ofIntervals p s = .ok r := by
  show (intervalsOf commands io >>= fun p => (ofIntervals p s).mapError Fault.firstLatency) = .ok r ↔ _
  rw [Except.bind_eq_ok_iff]
  simp only [Except.mapError_eq_ok_iff]

/-- **Two logs give intervals** if and only if the lines of each are acceptable: those of the times in all lines. -/
theorem intervalsOf_eq_ok_iff {commands io : Log.Source} (hc : ∀ d ∈ commands, d.isData = true)
    (hi : ∀ d ∈ io, d.isData = true) {p : Intervals} :
    intervalsOf commands io = .ok p ↔
      (Acceptable none (lines commands.data) ∧ Acceptable none (lines io.data)) ∧
        p = .ofTimes (timesIn (lines commands.data)) (timesIn (lines io.data)) := by
  rw [intervalsOf, Except.mapError_eq_ok_iff, Log.Reader.ofSource_eq_ofLines _ hc, Log.Reader.ofSource_eq_ofLines _ hi]
  constructor
  · intro h
    obtain ⟨hcommands, hio⟩ := Intervals.measure_outcome_isOk_iff.mp ⟨p, h⟩
    have hac := Log.fault?_feed_ofLines_eq_none_iff.mp hcommands
    have hai := Log.fault?_feed_ofLines_eq_none_iff.mp hio
    rw [Intervals.measure_outcome_of_fault?_eq_none hcommands hio, Log.times_feed_ofLines hac,
      Log.times_feed_ofLines hai] at h
    exact ⟨⟨hac, hai⟩, (Except.ok.inj h).symm⟩
  · rintro ⟨⟨hac, hai⟩, rfl⟩
    rw [Intervals.measure_outcome_of_fault?_eq_none (Log.fault?_feed_ofLines_eq_none_iff.mpr hac)
      (Log.fault?_feed_ofLines_eq_none_iff.mpr hai), Log.times_feed_ofLines hac, Log.times_feed_ofLines hai]

/-- **Intervals give a report** unless the first latency is to be filled in and cannot be. -/
theorem exists_ofIntervals_iff {p : Intervals} {s : Settings} :
    (∃ r, ofIntervals p s = .ok r) ↔ (s.fillFirst = true → ∃ xs, Intervals.fillFirst p.latencies = .ok xs) := by
  simp only [ofIntervals, Except.map_eq_ok_iff, latenciesOf]
  by_cases hs : s.fillFirst = true
  · simp [hs, Except.map_eq_ok_iff]
  · simp [hs]

/-- The report has the counts of the intervals and as many latencies. -/
theorem counts_and_length_of_ofIntervals_eq_ok {p : Intervals} {s : Settings} {r : Report}
    (h : ofIntervals p s = .ok r) : r.counts = p.counts ∧ r.latencies.length = p.latencies.length := by
  obtain ⟨latencies, hl, rfl⟩ := Except.map_eq_ok_iff.mp h
  refine ⟨rfl, ?_⟩
  show latencies.length = _
  unfold latenciesOf at hl
  split at hl
  · obtain ⟨xs, hxs, rfl⟩ := Except.map_eq_ok_iff.mp hl
    rw [List.length_map, Intervals.length_of_fillFirst_eq_ok hxs]
  · rw [Except.ok.inj hl]

/-! ### From logs to a report -/

/-- **Two logs give a report** if and only if every line of both is text that is blank or a time of day, the times in
each never decrease, and the commands are not one or two when the first latency is to be filled in.  The report then
counts a command for each line of the commands that is not blank, and an event for each such line of the events. -/
theorem exists_ofLogs_iff_of_data (s : Settings) {commands io : Log.Source} (hc : ∀ d ∈ commands, d.isData = true)
    (hi : ∀ d ∈ io, d.isData = true) :
    ((∃ r, ofLogs s (.ok commands) (.ok io) = .ok r) ↔
        ((∀ line ∈ lines commands.data, Legible line) ∧ ∀ line ∈ lines io.data, Legible line) ∧
          ((timesIn (lines commands.data)).Pairwise (· ≤ ·) ∧ (timesIn (lines io.data)).Pairwise (· ≤ ·)) ∧
          (s.fillFirst = true →
            (timesIn (lines commands.data)).length ≠ 1 ∧ (timesIn (lines commands.data)).length ≠ 2)) ∧
      ∀ r, ofLogs s (.ok commands) (.ok io) = .ok r →
        r.commandCount = (lines commands.data).countP (!isBlankLine ·) ∧
          r.counts.length = r.commandCount + 1 ∧ r.eventCount = (lines io.data).countP (!isBlankLine ·) := by
  simp only [ofLogs_eq_ok_iff, intervalsOf_eq_ok_iff hc hi]
  constructor
  · constructor
    · rintro ⟨r, p, ⟨⟨hac, hai⟩, rfl⟩, hr⟩
      refine ⟨⟨hac.legible, hai.legible⟩, ⟨hac.ordered, hai.ordered⟩, fun hs => ?_⟩
      exact Intervals.exists_fillFirst_gaps_iff.mp (exists_ofIntervals_iff.mp ⟨r, hr⟩ hs)
    · rintro ⟨⟨hlc, hli⟩, ⟨hoc, hoi⟩, hcount⟩
      have hfill : s.fillFirst = true → ∃ xs, Intervals.fillFirst
          (Intervals.ofTimes (timesIn (lines commands.data)) (timesIn (lines io.data))).latencies = .ok xs :=
        fun hs => Intervals.exists_fillFirst_gaps_iff.mpr (hcount hs)
      obtain ⟨r, hr⟩ := exists_ofIntervals_iff.mpr hfill
      exact ⟨r, _, ⟨⟨⟨hlc, hoc⟩, ⟨hli, hoi⟩⟩, rfl⟩, hr⟩
  · rintro r ⟨p, ⟨⟨hac, hai⟩, rfl⟩, hr⟩
    obtain ⟨hcounts, hlatencies⟩ := counts_and_length_of_ofIntervals_eq_ok hr
    have hcommands : r.commandCount = (timesIn (lines commands.data)).length := hlatencies.trans (by simp)
    refine ⟨?_, ?_, ?_⟩
    · rw [hcommands, Log.length_timesIn hac.legible]
    · rw [hcounts, hcommands, Intervals.counts_ofTimes, Intervals.length_tally]
    · rw [← Log.length_timesIn hai.legible, ← Intervals.sum_tally (timesIn (lines commands.data))]
      show r.counts.sum = _
      rw [hcounts, Intervals.counts_ofTimes]

/-- Blank lines are not counted, and an event behind the last command is read: no report is made if it is no time. -/
theorem exists_ofLogs_of_three_commands :
    let commands : Log.Source :=
      [.bytes "00:00:01.000000\n \n00:00:02.000000\r\n00:".toUTF8.data.toList,
        .bytes "00:03.000000".toUTF8.data.toList]
    let io : Log.Source := [.bytes "\n00:00:01.500000\n00:00:09.000000\n".toUTF8.data.toList]
    let broken : Log.Source := io ++ [.bytes "24:00:00.000000".toUTF8.data.toList]
    ((∀ d ∈ commands, d.isData = true) ∧ (∀ d ∈ io, d.isData = true) ∧ ∀ d ∈ broken, d.isData = true) ∧
      (∃ r, ofLogs {} (.ok commands) (.ok io) = .ok r ∧ r.commandCount = 3 ∧ r.counts.length = 4 ∧
        r.eventCount = 2) ∧
      ¬ ∃ r, ofLogs {} (.ok commands) (.ok broken) = .ok r := by
  intro commands io broken
  have hc : ∀ d ∈ commands, d.isData = true := by decide
  have hi : ∀ d ∈ io, d.isData = true := by decide
  have hb : ∀ d ∈ broken, d.isData = true := by decide
  obtain ⟨haccepts, hcounts⟩ := exists_ofLogs_iff_of_data {} hc hi
  obtain ⟨r, hr⟩ := haccepts.mpr (by decide)
  obtain ⟨hcommands, hlength, hevents⟩ := hcounts r hr
  have hthree : r.commandCount = 3 := hcommands.trans (by decide)
  have htwo : r.eventCount = 2 := hevents.trans (by decide)
  refine ⟨⟨hc, hi, hb⟩, ⟨r, hr, hthree, by rw [hlength, hthree], htwo⟩, fun h => ?_⟩
  have hlegible := ((exists_ofLogs_iff_of_data {} hc hb).1.mp h).1.2
  exact absurd hlegible (by decide)

end LogCorrelation.Report
