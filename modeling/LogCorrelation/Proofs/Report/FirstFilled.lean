import LogCorrelation.Proofs.Report.DocumentRoundTrip
import Mathlib.Data.List.Basic

/-!
# Proofs.Report.FirstFilled — what a report says of its first latency

A report says that the first latency was filled in if the settings ask for it, and there is nothing to fill in where
there are no commands.  Everywhere else it is as the report says: the first latency was unknown and is that of index 2,
or all latencies are as they were measured.

* `secondLine_plain`: the line of the plain text that says so.
* `tellsTruth_iff`: when what the report says is true.
-/

namespace LogCorrelation.Report

open Intervals (Feed)

/-! ### The second line of the plain text -/

/-- The characters between the first line feed of a text and the second. -/
def secondLine (s : String) : List Char := ((s.toList.dropWhile (· != '\n')).drop 1).takeWhile (· != '\n')

theorem secondLine_of_lines {s : String} {first second rest : List Char}
    (hs : s.toList = first ++ '\n' :: (second ++ '\n' :: rest)) (hfirst : '\n' ∉ first) (hsecond : '\n' ∉ second) :
    secondLine s = second := by
  have hall {cs : List Char} (h : '\n' ∉ cs) : ∀ c ∈ cs, (c != '\n') = true := by
    intro c hc
    rw [bne_iff_ne]
    rintro rfl
    exact h hc
  have hdrop : (first ++ '\n' :: (second ++ '\n' :: rest)).dropWhile (· != '\n') =
      '\n' :: (second ++ '\n' :: rest) := by
    rw [List.dropWhile_append_of_pos (hall hfirst), List.dropWhile_cons_of_neg (by simp)]
  rw [secondLine, hs, hdrop, List.drop_succ_cons, List.drop_zero, List.takeWhile_append_of_pos (hall hsecond),
    List.takeWhile_cons_of_neg (by simp), List.append_nil]

theorem mem_intercalate {separator : List Char} {items : List (List Char)} {c : Char}
    (h : c ∈ separator.intercalate items) : c ∈ separator ∨ ∃ item ∈ items, c ∈ item := by
  match items with
  | [] => exact absurd h (by simp)
  | [item] => exact .inr ⟨item, List.mem_singleton_self item, by simpa using h⟩
  | item :: next :: items =>
    rw [List.intercalate_cons_cons] at h
    simp only [List.mem_append] at h
    obtain (hitem | hseparator) | hrest := h
    · exact .inr ⟨item, List.mem_cons_self, hitem⟩
    · exact .inl hseparator
    · obtain hseparator | ⟨other, hother, hc⟩ := mem_intercalate hrest
      · exact .inl hseparator
      · exact .inr ⟨other, List.mem_cons_of_mem _ hother, hc⟩

theorem not_mem_bracketed {items : List String} {c : Char} (hc : c ∉ "[, ]".toList)
    (h : ∀ item ∈ items, c ∉ item.toList) : c ∉ (bracketed items).toList := by
  have hopen : c ∉ "[".toList := fun hmem => hc (by simp_all)
  have hseparator : c ∉ ", ".toList := fun hmem => hc (by simp_all)
  have hclose : c ∉ "]".toList := fun hmem => hc (by simp_all)
  intro hmem
  simp only [bracketed, String.toList_append, String.toList_intercalate, List.mem_append] at hmem
  obtain (hmem | hinner) | hmem := hmem
  · exact hopen hmem
  · obtain hmem | ⟨item, hitem, hmem⟩ := mem_intercalate hinner
    · exact hseparator hmem
    · obtain ⟨s, hs, rfl⟩ := List.mem_map.mp hitem
      exact h s hs hmem
  · exact hclose hmem

theorem not_mem_toString (n : Nat) {c : Char} (hc : c.isDigit = false) : c ∉ (toString n).toList := by
  intro h
  have hdigit : c.isDigit = true := Decimal.isDigit_of_mem_digits (Decimal.toList_toString n ▸ h)
  exact absurd (hc.symm.trans hdigit) Bool.false_ne_true

theorem not_mem_shortLatency {latency : Option Float} (h : ∀ x, latency = some x → x.isFinite = true) {c : Char}
    (hdigit : c.isDigit = false) (hc : c ∉ ['.', 'e', '-']) : c ∉ (shortLatency latency).toList := by
  simp only [List.mem_cons, List.not_mem_nil, or_false, not_or] at hc
  cases latency with
  | none => exact fun hmem => hc.2.2 (List.mem_singleton.mp hmem)
  | some x =>
    intro hmem
    obtain hmem | hmem | hmem | hmem | hmem := Decimal.mem_text_of_isFinite latencyLayout (h x rfl) hmem
    · exact absurd (hdigit.symm.trans hmem) Bool.false_ne_true
    · exact hc.1 hmem
    · exact hc.2.1 (List.mem_singleton.mp hmem)
    · exact hc.2.1 hmem
    · exact hc.2.2 hmem

/-- The first line, without the line feed that ends it. -/
def lists (r : Report) : String :=
  bracketed (r.counts.map toString) ++ " " ++ bracketed (r.latencies.map shortLatency)

theorem not_mem_lists {r : Report} (hfinite : ∀ x, some x ∈ r.latencies → x.isFinite = true) :
    '\n' ∉ r.lists.toList := by
  have hcounts : '\n' ∉ (bracketed (r.counts.map toString)).toList := by
    apply not_mem_bracketed (by decide)
    exact List.forall_mem_map.mpr fun n _ => not_mem_toString n (by decide)
  have hlatencies : '\n' ∉ (bracketed (r.latencies.map shortLatency)).toList := by
    apply not_mem_bracketed (by decide)
    exact List.forall_mem_map.mpr fun latency hmem =>
      not_mem_shortLatency (fun x hx => hfinite x (hx ▸ hmem)) (by decide) (by decide)
  intro hmem
  simp only [lists, String.toList_append, List.mem_append] at hmem
  obtain (hmem | hblank) | hmem := hmem
  · exact hcounts hmem
  · exact absurd hblank (by decide)
  · exact hlatencies hmem

/-- The totals, as the second line begins. -/
def totals (r : Report) : String := s!"{r.commandCount} command timestamps, {r.eventCount} I/O events"

/-- The words for a first latency that was filled in. -/
def filledNote : String := "first latency copied from index 2"

theorem not_mem_totals (r : Report) {c : Char} (hdigit : c.isDigit = false)
    (hc : c ∉ " command timestamps, ".toList ++ " I/O events".toList) : c ∉ r.totals.toList := by
  rw [List.mem_append, not_or] at hc
  intro hmem
  simp only [totals, String.toList_append, List.mem_append] at hmem
  obtain ((hcommands | hmiddle) | hevents) | hend := hmem
  · exact not_mem_toString _ hdigit hcommands
  · exact hc.1 hmiddle
  · exact not_mem_toString _ hdigit hevents
  · exact hc.2 hend

/-- The second line, without the line feed that ends it. -/
def summary (r : Report) : List Char :=
  r.totals.toList ++ if r.firstFilled then ", ".toList ++ filledNote.toList else []

theorem not_mem_summary (r : Report) : '\n' ∉ r.summary := by
  intro hmem
  obtain htotals | hrest := List.mem_append.mp hmem
  · exact not_mem_totals r (by decide) (by decide) htotals
  · split at hrest
    · exact absurd hrest (by decide)
    · exact absurd hrest (by simp)

/-- The plain text begins with two lines, and the tables follow. -/
theorem toList_plain (r : Report) :
    r.plain.toList = r.lists.toList ++ '\n' :: (r.summary ++
      '\n' :: (String.join (r.classes.toList.map fun c => "\n" ++ table r.batchSize c)).toList) := by
  have hnote : (if r.firstFilled then ", first latency copied from index 2" else "").toList =
      if r.firstFilled then ", ".toList ++ filledNote.toList else [] := by
    split <;> rfl
  have hplain : r.plain = (r.lists ++ "\n") ++
      (r.totals ++ (if r.firstFilled then ", first latency copied from index 2" else "") ++ "\n") ++
      String.join (r.classes.toList.map fun c => "\n" ++ table r.batchSize c) := rfl
  rw [hplain]
  simp only [String.toList_append, hnote, summary, List.append_assoc]
  rfl

/-- **The second line** of the plain text: the totals, and the note if the report says so. -/
theorem secondLine_plain {r : Report} (hfinite : ∀ x, some x ∈ r.latencies → x.isFinite = true) :
    secondLine r.plain = r.totals.toList ++ if r.firstFilled then ", ".toList ++ filledNote.toList else [] :=
  secondLine_of_lines (toList_plain r) (not_mem_lists hfinite) (not_mem_summary r)

theorem filledNote_infix_iff {r : Report} (hfinite : ∀ x, some x ∈ r.latencies → x.isFinite = true) :
    filledNote.toList <:+: secondLine r.plain ↔ r.firstFilled = true := by
  rw [secondLine_plain hfinite]
  cases r.firstFilled with
  | true => exact iff_of_true ⟨r.totals.toList ++ ", ".toList, [], by simp⟩ rfl
  | false =>
    -- the note has a letter that the totals never have
    refine iff_of_false (fun h => ?_) Bool.false_ne_true
    have hletter : 'x' ∈ filledNote.toList := by decide
    have hmem := h.subset hletter
    rw [if_neg Bool.false_ne_true, List.append_nil] at hmem
    exact not_mem_totals r (by decide) (by decide) hmem

/-! ### What is true -/

/-- A report whose first latency was unknown as it was measured, and is that of index 2. -/
def Filled (p : Intervals) (r : Report) : Prop :=
  p.latencies[0]? = some none ∧
    ∃ x, p.latencies[2]? = some (some x) ∧ r.latencies[0]? = some (some x) ∧ r.latencies[2]? = some (some x)

/-- **A report tells the truth of its first latency**: in its flag, in the document, and in the plain text. -/
structure TellsTruth (p : Intervals) (r : Report) : Prop where
  filled : r.firstFilled = true ↔ Filled p r
  unchanged : r.firstFilled = false ↔ r.latencies = p.latencies
  document : r.document.json.field? "first_latency_corrected" = some (.truth true) ↔ Filled p r
  plain : filledNote.toList <:+: secondLine r.plain ↔ Filled p r

/-- The latencies of a report, next to those that were measured. -/
inductive TakesOver (p : Intervals) (s : Settings) (r : Report) : Prop
  | asMeasured (hoff : s.fillFirst = false) (h : r.latencies = p.latencies)
  | nothing (hon : s.fillFirst = true) (hp : p.latencies = []) (hr : r.latencies = [])
  | fills (hon : s.fillFirst = true) (second third : Float) (rest : List (Option Float))
      (hp : p.latencies = none :: some second :: some third :: rest)
      (hr : r.latencies = some third :: some second :: some third :: rest)

section Measured

variable {ε : Type} {commands io : Feed ε} {p : Intervals} {s : Settings} {r : Report}
  (hp : (Intervals.measure commands io).outcome = .ok p) (hr : ofIntervals p s = .ok r)

include hp

/-- The first latency of a run is unknown. -/
theorem first_eq_none_of_measure {first : Option Float} {rest : List (Option Float)} (h : p.latencies = first :: rest) :
    first = none := by
  rw [Intervals.eq_ofTimes_of_measure hp, Intervals.latencies_ofTimes] at h
  cases htimes : commands.times with
  | nil =>
    rw [htimes] at h
    exact absurd h (by simp [Intervals.gaps])
  | cons c cs =>
    rw [htimes] at h
    exact (List.cons.inj h).1.symm

theorem latencies_eq_nil_iff_of_measure : p.latencies = [] ↔ commands.times = [] := by
  rw [Intervals.eq_ofTimes_of_measure hp, Intervals.latencies_ofTimes, ← List.length_eq_zero_iff,
    Intervals.length_gaps, List.length_eq_zero_iff]

include hr

theorem takesOver : TakesOver p s r := by
  have hlatencies := (data_of_ofIntervals_eq_ok hr).1
  unfold latenciesOf at hlatencies
  split at hlatencies
  · next hon =>
    obtain ⟨xs, hxs, hmap⟩ := Except.map_eq_ok_iff.mp hlatencies
    obtain ⟨hnil, rfl⟩ | ⟨first, second, third, rest, hall, rfl⟩ := Intervals.fillFirst_eq_ok_iff.mp hxs
    · exact .nothing hon hnil hmap.symm
    · obtain rfl := first_eq_none_of_measure hp hall
      exact .fills hon second third (rest.map some) hall hmap.symm
  · next hoff => exact .asMeasured (Bool.not_eq_true _ ▸ hoff) (Except.ok.inj hlatencies).symm

theorem filled_iff : Filled p r ↔ s.fillFirst = true ∧ p.latencies ≠ [] := by
  cases takesOver hp hr with
  | asMeasured hoff h =>
    refine iff_of_false ?_ (fun hon => absurd (hoff.symm.trans hon.1) Bool.false_ne_true)
    rintro ⟨hnone, x, -, hfirst, -⟩
    rw [h, hnone] at hfirst
    exact absurd hfirst (by simp)
  | nothing hon hnil hempty =>
    refine iff_of_false ?_ (fun h => h.2 hnil)
    rintro ⟨hnone, -⟩
    rw [hnil] at hnone
    exact absurd hnone (by simp)
  | fills hon second third rest hall htaken =>
    refine iff_of_true ⟨?_, third, ?_, ?_, ?_⟩ ⟨hon, ?_⟩
    · rw [hall]; rfl
    · rw [hall]; rfl
    · rw [htaken]; rfl
    · rw [htaken]; rfl
    · rw [hall]; exact List.cons_ne_nil _ _

theorem unchanged_iff : r.latencies = p.latencies ↔ s.fillFirst = false ∨ p.latencies = [] := by
  cases takesOver hp hr with
  | asMeasured hoff h => exact iff_of_true h (.inl hoff)
  | nothing hon hnil hempty => exact iff_of_true (hempty.trans hnil.symm) (.inr hnil)
  | fills hon second third rest hall htaken =>
    rw [hall, htaken, hon]
    simp

theorem isFinite_of_mem_report : ∀ x, some x ∈ r.latencies → x.isFinite = true := by
  have hmeasured : ∀ x, some x ∈ p.latencies → x.isFinite = true := by
    intro x hx
    rw [Intervals.eq_ofTimes_of_measure hp] at hx
    exact isFinite_of_mem_gaps hx
  exact fun x hx => hmeasured x (mem_of_mem_latenciesOf (data_of_ofIntervals_eq_ok hr).1 hx)

/-- **A report tells the truth of its first latency** exactly if it was not asked to fill it in, or there were commands
at all. -/
theorem tellsTruth_iff : TellsTruth p r ↔ (s.fillFirst = true → commands.times ≠ []) := by
  have hflag : r.firstFilled = s.fillFirst := (holds_document hr).firstFilled
  have hfilled := filled_iff hp hr
  have hunchanged := unchanged_iff hp hr
  have hdocument : r.document.json.field? "first_latency_corrected" = some (.truth true) ↔ r.firstFilled = true := by
    have hfield : r.document.json.field? "first_latency_corrected" = some (.truth r.firstFilled) := rfl
    rw [hfield, Option.some.injEq, Json.truth.injEq]
  have hnote := filledNote_infix_iff (isFinite_of_mem_report hp hr)
  have hnil : p.latencies ≠ [] ↔ commands.times ≠ [] := not_congr (latencies_eq_nil_iff_of_measure hp)
  rw [← hnil]
  constructor
  · intro h hon
    exact (hfilled.mp (h.filled.mp (hflag.trans hon))).2
  · intro h
    have hiff : r.firstFilled = true ↔ Filled p r := by
      rw [hflag, hfilled]
      exact ⟨fun hon => ⟨hon, h hon⟩, fun hon => hon.1⟩
    refine ⟨hiff, ?_, hdocument.trans hiff, hnote.trans hiff⟩
    rw [hflag, hunchanged]
    constructor
    · exact .inl
    · rintro (hoff | hempty)
      · exact hoff
      · exact Bool.eq_false_iff.mpr fun hon => h hon hempty

end Measured

/-- Three commands: the first latency is that of index 2, and the report says so. -/
theorem tellsTruth_of_three_commands :
    let commands : List TimeOfDay :=
      [⟨1, 0, by decide, by decide⟩, ⟨2, 0, by decide, by decide⟩, ⟨4, 0, by decide, by decide⟩]
    ∃ p r, (Intervals.measure (.ofTimes commands) (.ofTimes []) : Intervals.Run String Intervals).outcome = .ok p ∧
      ofIntervals p {} = .ok r ∧ TellsTruth p r ∧ Filled p r := by
  intro commands
  have hp : (Intervals.measure (.ofTimes commands) (.ofTimes []) : Intervals.Run String Intervals).outcome =
      .ok (.ofTimes commands []) := rfl
  obtain ⟨r, hr⟩ : ∃ r, ofIntervals (.ofTimes commands []) {} = .ok r := ⟨_, rfl⟩
  have htruth := (tellsTruth_iff hp hr).mpr fun _ => List.cons_ne_nil _ _
  exact ⟨_, r, hp, hr, htruth, htruth.filled.mp (holds_document hr).firstFilled⟩

/-- **Without commands a report claims what it has not done**: nothing was unknown, nothing is filled in, and the
latencies are as they were measured, but the flag, the document and the second line say otherwise. -/
theorem firstFilled_without_commands :
    ∃ p r, (Intervals.measure (.ofTimes []) (.ofTimes []) : Intervals.Run String Intervals).outcome = .ok p ∧
      ofIntervals p {} = .ok r ∧ ¬ Filled p r ∧ r.latencies = p.latencies ∧ r.firstFilled = true ∧
      r.document.json.field? "first_latency_corrected" = some (.truth true) ∧
      secondLine r.plain = "0 command timestamps, 0 I/O events, first latency copied from index 2".toList := by
  refine ⟨.trailing 0, ⟨10000, true, [0], [], .ofData "PUT" "GET" [0] []⟩, rfl, rfl, ?_, rfl, rfl, rfl, ?_⟩
  · rintro ⟨hnone, -⟩
    exact absurd hnone (by simp [Intervals.trailing])
  · have hfinite : ∀ x, some x ∈ ([] : List (Option Float)) → x.isFinite = true := fun x hx => absurd hx (by simp)
    exact (secondLine_plain hfinite).trans rfl

end LogCorrelation.Report
