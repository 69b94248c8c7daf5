import LogCorrelation.Proofs.Intervals.Feed
import LogCorrelation.Proofs.Log.Transcript
import LogCorrelation.Proofs.TimeOfDay.Order

/-!
# Proofs.Log.Acceptance — which logs are read without a fault

Lines are read to their end without a fault if and only if each of them is legible and their times never decrease.
`Acceptable` says so behind a last time, so that it goes from line to line with the reader.

* `fault?_feed_ofLines_eq_none_iff`: the feed of a log has no fault exactly for acceptable lines.
* `times_feed_ofLines`: it then gives the times in them, all of them.
-/

namespace LogCorrelation.Log

open Intervals (Feed)

variable {last : Option TimeOfDay} {line : List UInt8} {ls : List (List UInt8)}

/-! ### Legible lines -/

theorem timesIn_cons_of_blank (h : trimmed? line = some "") : timesIn (line :: ls) = timesIn ls := by
  have hnone : timeIn? line = none := by
    rw [timeIn?, h]
    rfl
  rw [timesIn, List.filterMap_cons_none hnone]
  rfl

theorem timesIn_cons_of_time {text : String} (h : trimmed? line = some text) {t : TimeOfDay}
    (hparse : TimeOfDay.parse text = .ok t) : timesIn (line :: ls) = t :: timesIn ls := by
  have hsome : timeIn? line = some t := by
    rw [timeIn?, h, Option.bind_some, hparse]
    rfl
  rw [timesIn, List.filterMap_cons_some hsome]
  rfl

theorem not_legible_of_notText (h : trimmed? line = none) : ¬ Legible line := by
  rintro ⟨text, htext, -⟩
  exact absurd (h.symm.trans htext) (by simp)

theorem not_legible_of_malformed {text : String} (h : trimmed? line = some text) (hne : text ≠ "")
    {cause : TimeOfDay.Malformed} (hparse : TimeOfDay.parse text = .error cause) : ¬ Legible line := by
  rintro ⟨text', htext, hlegible⟩
  obtain rfl : text = text' := Option.some.inj (h.symm.trans htext)
  rcases hlegible with hblank | ⟨t, ht⟩
  · exact hne hblank
  · exact absurd (hparse.symm.trans ht) (by simp)

/-- Legible lines that are not blank hold a time each. -/
theorem length_timesIn (h : ∀ line ∈ ls, Legible line) : (timesIn ls).length = ls.countP (!isBlankLine ·) := by
  induction ls with
  | nil => rfl
  | cons line ls ih =>
    obtain ⟨hline, hls⟩ := List.forall_mem_cons.mp h
    rcases line_cases line with htext | htext | ⟨text, cause, htext, hne, hparse⟩ | ⟨text, t, htext, hne, hparse⟩
    · exact absurd hline (not_legible_of_notText htext)
    · rw [timesIn_cons_of_blank htext, List.countP_cons_of_neg (by simp [isBlankLine, htext]), ih hls]
    · exact absurd hline (not_legible_of_malformed htext hne hparse)
    · rw [timesIn_cons_of_time htext hparse, List.countP_cons_of_pos (by simp [isBlankLine, htext, hne]),
        List.length_cons, ih hls]

/-! ### Acceptable lines -/

/-- Lines that can all be read and hold times that, behind `last`, never decrease. -/
structure Acceptable (last : Option TimeOfDay) (ls : List (List UInt8)) : Prop where
  legible : ∀ line ∈ ls, Legible line
  ordered : (last.toList ++ timesIn ls).Pairwise (· ≤ ·)

theorem acceptable_nil (last : Option TimeOfDay) : Acceptable last [] := by
  refine ⟨by simp, ?_⟩
  cases last <;> simp [timesIn]

theorem acceptable_cons_of_blank (h : trimmed? line = some "") : Acceptable last (line :: ls) ↔ Acceptable last ls := by
  have hline : Legible line := ⟨"", h, .inl rfl⟩
  constructor
  · rintro ⟨hlegible, hordered⟩
    exact ⟨(List.forall_mem_cons.mp hlegible).2, timesIn_cons_of_blank h ▸ hordered⟩
  · rintro ⟨hlegible, hordered⟩
    exact ⟨List.forall_mem_cons.mpr ⟨hline, hlegible⟩, (timesIn_cons_of_blank h).symm ▸ hordered⟩

/-- Behind the last time, times are ordered if the first does not precede it and the others are ordered behind that. -/
theorem pairwise_toList_append_cons {t : TimeOfDay} {ts : List TimeOfDay} :
    (last.toList ++ t :: ts).Pairwise (· ≤ ·) ↔ last.filter (t < ·) = none ∧ (t :: ts).Pairwise (· ≤ ·) := by
  cases last with
  | none => simp
  | some l =>
    rw [Option.toList_some, List.singleton_append, List.pairwise_cons, Option.filter_eq_none_iff]
    refine and_congr_left fun hts => ?_
    constructor
    · intro h a ha
      obtain rfl : l = a := Option.some.inj ha
      simpa using h t (by simp)
    · intro h b hb
      have hlt : l ≤ t := by simpa using h l rfl
      rcases List.mem_cons.mp hb with rfl | hb
      · exact hlt
      · exact hlt.trans ((List.pairwise_cons.mp hts).1 b hb)

theorem acceptable_cons_of_time {text : String} (h : trimmed? line = some text) {t : TimeOfDay}
    (hparse : TimeOfDay.parse text = .ok t) :
    Acceptable last (line :: ls) ↔ last.filter (t < ·) = none ∧ Acceptable (some t) ls := by
  have hline : Legible line := ⟨text, h, .inr ⟨t, hparse⟩⟩
  constructor
  · rintro ⟨hlegible, hordered⟩
    rw [timesIn_cons_of_time h hparse, pairwise_toList_append_cons] at hordered
    exact ⟨hordered.1, (List.forall_mem_cons.mp hlegible).2, hordered.2⟩
  · rintro ⟨hlast, hlegible, hordered⟩
    refine ⟨List.forall_mem_cons.mpr ⟨hline, hlegible⟩, ?_⟩
    rw [timesIn_cons_of_time h hparse, pairwise_toList_append_cons]
    exact ⟨hlast, hordered⟩

/-! ### The feed of a log -/

theorem times_throughEnd : ∀ answers : List (Answer × Nat),
    Feed.times ((Reader.throughEnd answers).map (·.1)) = Feed.times (answers.map (·.1))
  | [] | (none, _) :: _ | (some (.error _), _) :: _ => rfl
  | (some (.ok t), _) :: rest => congrArg (t :: ·) (times_throughEnd rest)

theorem fault?_throughEnd : ∀ answers : List (Answer × Nat),
    Feed.fault? ((Reader.throughEnd answers).map (·.1)) = Feed.fault? (answers.map (·.1))
  | [] | (none, _) :: _ | (some (.error _), _) :: _ => rfl
  | (some (.ok _), _) :: rest => fault?_throughEnd rest

variable {name : String} {count : Nat}

theorem fault?_transcript_eq_none_iff :
    Feed.fault? ((transcript name count last ls).map (·.1)) = none ↔ Acceptable last ls := by
  induction ls generalizing count last with
  | nil => exact iff_of_true rfl (acceptable_nil last)
  | cons line ls ih =>
    rcases line_cases line with htext | htext | ⟨text, cause, htext, hne, hparse⟩ | ⟨text, t, htext, hne, hparse⟩
    · rw [transcript_notText _ _ _ _ htext]
      have hnot : ¬ Acceptable last (line :: ls) := fun h => not_legible_of_notText htext (h.legible line (by simp))
      exact iff_of_false (by simp [Feed.fault?]) hnot
    · rw [transcript_blank _ _ _ _ htext, ih, acceptable_cons_of_blank htext]
    · rw [transcript_malformed _ _ _ _ htext hne hparse]
      have hnot : ¬ Acceptable last (line :: ls) := fun h =>
        not_legible_of_malformed htext hne hparse (h.legible line (by simp))
      exact iff_of_false (by simp [Feed.fault?]) hnot
    · rw [acceptable_cons_of_time htext hparse]
      cases hlast : last.filter (t < ·) with
      | some later =>
        rw [transcript_outOfOrder _ _ _ htext hne hparse hlast]
        exact iff_of_false (by simp [Feed.fault?]) (by simp)
      | none =>
        rw [transcript_time _ _ _ htext hne hparse hlast, List.map_cons, Intervals.fault?_ok, ih]
        simp

theorem times_transcript (h : Acceptable last ls) :
    Feed.times ((transcript name count last ls).map (·.1)) = timesIn ls := by
  induction ls generalizing count last with
  | nil => rfl
  | cons line ls ih =>
    have hline := h.legible line (by simp)
    rcases line_cases line with htext | htext | ⟨text, cause, htext, hne, hparse⟩ | ⟨text, t, htext, hne, hparse⟩
    · exact absurd hline (not_legible_of_notText htext)
    · rw [transcript_blank _ _ _ _ htext, timesIn_cons_of_blank htext]
      exact ih ((acceptable_cons_of_blank htext).mp h)
    · exact absurd hline (not_legible_of_malformed htext hne hparse)
    · obtain ⟨hlast, hrest⟩ := (acceptable_cons_of_time htext hparse).mp h
      rw [transcript_time _ _ _ htext hne hparse hlast, timesIn_cons_of_time htext hparse, List.map_cons,
        Intervals.times_ok, ih hrest]

/-- **A log is read without a fault** if and only if its lines are acceptable. -/
theorem fault?_feed_ofLines_eq_none_iff :
    Feed.fault? (Reader.ofLines name count last ls).feed = none ↔ Acceptable last ls := by
  rw [Reader.feed, ← fault?_throughEnd, Reader.throughEnd_allCalls_ofLines, fault?_transcript_eq_none_iff]

/-- A log that is read without a fault gives the times in its lines. -/
theorem times_feed_ofLines (h : Acceptable last ls) :
    Feed.times (Reader.ofLines name count last ls).feed = timesIn ls := by
  rw [Reader.feed, ← times_throughEnd, Reader.throughEnd_allCalls_ofLines, times_transcript h]

end LogCorrelation.Log
