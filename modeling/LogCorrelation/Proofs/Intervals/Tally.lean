import LogCorrelation.Intervals.Counting
import LogCorrelation.Proofs.Intervals.Feed
import LogCorrelation.Proofs.TimeOfDay.Order
import LogCorrelation.Proofs.TimeOfDay.Reading

/-!
# Proofs.Intervals.Tally — the intervals that two feeds without errors give

`tally` and `gaps` say what a run over two feeds without errors returns, with no feed, no lookahead and no pull:
each command takes the events in front that are before it, and the last interval takes the rest.

* `measure_outcome_of_fault?_eq_none`: the run succeeds, with these counts and these latencies.
* `tally_eq_map_countIn`: for ordered times each count is the number of events between the interval's ends.
-/

namespace LogCorrelation.Intervals

variable {ε : Type}

/-! ### Counts and latencies without feeds -/

/-- The counts of events before each command and after the last one. -/
def tally : List TimeOfDay → List TimeOfDay → List Nat
  | [], events => [events.length]
  | c :: cs, events =>
    (events.takeWhile (isBefore · (some c))).length :: tally cs (events.dropWhile (isBefore · (some c)))

/-- The latencies of commands, `previous` being the one before them. -/
def gaps : Option TimeOfDay → List TimeOfDay → List (Option Float)
  | _, [] => []
  | previous, c :: cs => previous.map (·.elapsed c) :: gaps (some c) cs

/-- The intervals of commands, with events in them. -/
def ofTimes (commands events : List TimeOfDay) : Intervals := ⟨tally commands events, gaps none commands⟩

@[simp] theorem counts_ofTimes (commands events : List TimeOfDay) :
    (ofTimes commands events).counts = tally commands events := rfl

@[simp] theorem latencies_ofTimes (commands events : List TimeOfDay) :
    (ofTimes commands events).latencies = gaps none commands := rfl

@[simp] theorem length_tally (commands events : List TimeOfDay) :
    (tally commands events).length = commands.length + 1 := by
  induction commands generalizing events with
  | nil => rfl
  | cons c cs ih => simp [tally, ih]

@[simp] theorem length_gaps (previous : Option TimeOfDay) (commands : List TimeOfDay) :
    (gaps previous commands).length = commands.length := by
  induction commands generalizing previous with
  | nil => rfl
  | cons c cs ih => simp [gaps, ih]

/-- Every event is counted once. -/
theorem sum_tally (commands events : List TimeOfDay) : (tally commands events).sum = events.length := by
  induction commands generalizing events with
  | nil => simp [tally]
  | cons c cs ih =>
    rw [tally, List.sum_cons, ih, ← List.length_append, List.takeWhile_append_dropWhile]

/-- After the first command each latency is the time from the command before. -/
theorem getElem?_gaps {commands : List TimeOfDay} {i : Nat} {a b : TimeOfDay} (ha : commands[i]? = some a)
    (hb : commands[i + 1]? = some b) (previous : Option TimeOfDay) :
    (gaps previous commands)[i + 1]? = some (some (a.elapsed b)) := by
  induction commands generalizing i previous with
  | nil => simp at ha
  | cons c cs ih =>
    rw [gaps, List.getElem?_cons_succ]
    cases i with
    | zero =>
      obtain rfl : c = a := by simpa using ha
      cases cs with
      | nil => simp at hb
      | cons d ds =>
        obtain rfl : d = b := by simpa using hb
        rfl
    | succ i => exact ih (by simpa using ha) (by simpa using hb) _

theorem pairwise_getElem?_succ {commands : List TimeOfDay} (h : commands.Pairwise (· ≤ ·)) {i : Nat}
    {a b : TimeOfDay} (ha : commands[i]? = some a) (hb : commands[i + 1]? = some b) : a ≤ b := by
  obtain ⟨hi, rfl⟩ := List.getElem?_eq_some_iff.mp ha
  obtain ⟨hj, rfl⟩ := List.getElem?_eq_some_iff.mp hb
  exact List.pairwise_iff_getElem.mp h i (i + 1) hi hj (Nat.lt_succ_self i)

/-! ### Runs over feeds without errors -/

/-- The last interval takes every event that is left. -/
theorem countBefore_none {events : Events ε} (h : events.fault? = none) :
    ∃ rest, (events.countBefore none).outcome = .ok (events.times.length, rest) := by
  obtain ⟨rest, hr, -⟩ := countBefore_eq_ok none events (.inr h)
  have hall : events.times.takeWhile (isBefore · none) = events.times :=
    List.takeWhile_eq_self_iff.mpr fun _ _ => rfl
  exact ⟨rest, by rw [hr, hall]⟩

theorem measureFrom_outcome_of_fault?_eq_none : ∀ {feed : Feed ε} {events : Events ε}
    (previous : Option TimeOfDay), feed.fault? = none → events.fault? = none →
    (measureFrom .remembers previous events feed).outcome =
      .ok ⟨tally feed.times events.times, gaps previous feed.times⟩
  | [], events, previous, _, he | none :: _, events, previous, _, he => by
    obtain ⟨rest, hr⟩ := countBefore_none he
    simp only [measureFrom, resumed_remembers, Run.pulled, Run.map, hr]
    rfl
  | some (.error _) :: _, _, _, hf, _ => absurd hf (by simp [Feed.fault?])
  | some (.ok c) :: feed, events, previous, hf, he => by
    obtain ⟨rest, hr, ht, hrf⟩ := countBefore_eq_ok (some c) events (.inr he)
    have hrest : Feed.fault? feed = none := hf
    have ih := measureFrom_outcome_of_fault?_eq_none (some c) hrest (hrf.trans he)
    rw [ht] at ih
    simp only [measureFrom, resumed_remembers, Run.pulled]
    rw [Run.outcome_bind hr]
    simp only [Run.map, ih]
    rfl

/-- **A run over feeds without errors** succeeds and returns the counts and latencies of their times. -/
theorem measure_outcome_of_fault?_eq_none {commands io : Feed ε} (hc : commands.fault? = none)
    (hi : io.fault? = none) :
    (measure commands io).outcome = .ok (ofTimes commands.times io.times) :=
  measureFrom_outcome_of_fault?_eq_none none hc hi

/-! ### Ordered times -/

section Prefix

variable {α : Type} {P : α → Bool} {l : List α}

theorem takeWhile_eq_filter_of_pairwise (h : l.Pairwise fun x y => P y = true → P x = true) :
    l.takeWhile P = l.filter P := by
  induction l with
  | nil => rfl
  | cons a l ih =>
    obtain ⟨ha, hl⟩ := List.pairwise_cons.mp h
    by_cases hP : P a = true
    · rw [List.takeWhile_cons_of_pos hP, List.filter_cons_of_pos hP, ih hl]
    · rw [List.takeWhile_cons_of_neg hP, List.filter_cons_of_neg hP]
      exact (List.filter_eq_nil_iff.mpr fun x hx hPx => hP (ha x hx hPx)).symm

theorem dropWhile_eq_filter_of_pairwise (h : l.Pairwise fun x y => P y = true → P x = true) :
    l.dropWhile P = l.filter (!P ·) := by
  induction l with
  | nil => rfl
  | cons a l ih =>
    obtain ⟨ha, hl⟩ := List.pairwise_cons.mp h
    by_cases hP : P a = true
    · rw [List.dropWhile_cons_of_pos hP, List.filter_cons_of_neg (by simp [hP]), ih hl]
    · have hall : ∀ x ∈ a :: l, (!P x) = true := by
        intro x hx
        rcases List.mem_cons.mp hx with rfl | hx
        · simpa using hP
        · simpa using fun hPx => hP (ha x hx hPx)
      rw [List.dropWhile_cons_of_neg hP, List.filter_eq_self.mpr hall]

end Prefix

/-- Of ordered times those before a bound come first. -/
theorem pairwise_isBefore {events : List TimeOfDay} (h : events.Pairwise (· ≤ ·)) (c : TimeOfDay) :
    events.Pairwise fun a b => isBefore b (some c) = true → isBefore a (some c) = true := by
  refine h.imp fun {a b} hab hb => ?_
  simp only [isBefore, decide_eq_true_eq] at hb ⊢
  exact lt_of_le_of_lt hab hb

theorem countIn_zero (commands events : List TimeOfDay) :
    countIn commands events 0 = events.countP (isBefore · commands[0]?) := by
  unfold countIn between opening closing
  refine List.countP_congr fun e _ => ?_
  cases commands[0]? <;> simp [isBefore]

/-- Behind the first command, the count of an interval does not look at the events before that command. -/
theorem countIn_cons_succ {c : TimeOfDay} {cs : List TimeOfDay} (hc : (c :: cs).Pairwise (· ≤ ·))
    (events : List TimeOfDay) {i : Nat} (hi : i ≤ cs.length) :
    countIn (c :: cs) events (i + 1) = countIn cs (events.filter (!isBefore · (some c))) i := by
  unfold countIn
  rw [List.countP_filter]
  refine List.countP_congr fun e _ => ?_
  cases i with
  | zero =>
    -- the first command is the lower end itself
    simp only [between, opening, closing, isBefore, Nat.zero_add, Nat.one_ne_zero, if_true, if_false,
      Nat.sub_self, List.getElem?_cons_zero, List.getElem?_cons_succ, Option.all_some, Option.all_none,
      Bool.true_and, Bool.and_eq_true, decide_eq_true_eq, Bool.not_eq_true', decide_eq_false_iff_not]
    exact and_comm
  | succ k =>
    -- the lower end is a later command, which is not before the first
    obtain ⟨d, hd⟩ : ∃ d, cs[k]? = some d := ⟨cs[k], List.getElem?_eq_getElem hi⟩
    have hcd : c ≤ d := (List.pairwise_cons.mp hc).1 d (List.mem_of_getElem? hd)
    simp only [between, opening, closing, isBefore, Nat.add_one_ne_zero, if_false, Nat.add_sub_cancel,
      List.getElem?_cons_succ, hd, Option.all_some, Bool.and_eq_true, decide_eq_true_eq, Bool.not_eq_true',
      decide_eq_false_iff_not]
    exact ⟨fun h => ⟨h, not_lt.mpr (hcd.trans h.1)⟩, fun h => h.1⟩

/-- **For ordered times** a run counts in each interval the events between its ends. -/
theorem tally_eq_map_countIn {commands events : List TimeOfDay} (hc : commands.Pairwise (· ≤ ·))
    (he : events.Pairwise (· ≤ ·)) :
    tally commands events = (List.range (commands.length + 1)).map (countIn commands events) := by
  induction commands generalizing events with
  | nil =>
    have hall : events.countP (isBefore · none) = events.length := List.countP_eq_length.mpr fun _ _ => rfl
    simp [tally, countIn_zero, hall]
  | cons c cs ih =>
    have hcs := (List.pairwise_cons.mp hc).2
    have hpre := pairwise_isBefore he c
    rw [List.length_cons, List.range_succ_eq_map, List.map_cons, List.map_map, tally,
      dropWhile_eq_filter_of_pairwise hpre, takeWhile_eq_filter_of_pairwise hpre,
      ih hcs (he.filter _), countIn_zero, List.countP_eq_length_filter]
    congr 1
    refine List.map_congr_left fun i hi => ?_
    exact (countIn_cons_succ hc events (Nat.lt_succ_iff.mp (List.mem_range.mp hi))).symm

/-- **Ordered logs are measured by definition.**  The run over any two ordered sequences of times succeeds.  Interval
`i` counts the events from command `i - 1` on and before command `i`; the first latency is unknown, and each other is
the difference of two commands' microseconds, which is not negative, as milliseconds. -/
theorem measure_ofTimes_of_ordered {commands events : List TimeOfDay} (hc : commands.Pairwise (· ≤ ·))
    (he : events.Pairwise (· ≤ ·)) (hr : ∀ c ∈ commands, ∃ text, TimeOfDay.parse text = .ok c) :
    ∃ p : Intervals, (measure (.ofTimes commands) (.ofTimes events) : Run ε Intervals).outcome = .ok p ∧
      p.counts.length = commands.length + 1 ∧
      (∀ i ≤ commands.length, p.counts[i]? = some (countIn commands events i)) ∧
      p.latencies.length = commands.length ∧
      (0 < commands.length → p.latencies[0]? = some none) ∧
      ∀ i a b, commands[i]? = some a → commands[i + 1]? = some b →
        0 ≤ (b.micros : Int) - a.micros ∧
        p.latencies[i + 1]? = some (some (Float.ofInt ((b.micros : Int) - a.micros) / 1000.0)) := by
  refine ⟨_, measure_outcome_of_fault?_eq_none (fault?_ofTimes _) (fault?_ofTimes _), ?_, ?_, ?_, ?_, ?_⟩
  · simp
  · intro i hi
    rw [counts_ofTimes, times_ofTimes, times_ofTimes, tally_eq_map_countIn hc he, List.getElem?_map,
      List.getElem?_range (Nat.lt_succ_iff.mpr hi)]
    rfl
  · simp
  · intro hpos
    obtain ⟨c, cs, rfl⟩ := List.exists_cons_of_length_pos hpos
    rw [times_ofTimes]
    rfl
  · intro i a b ha hb
    obtain ⟨s, hs⟩ := hr a (List.mem_of_getElem? ha)
    obtain ⟨s', hs'⟩ := hr b (List.mem_of_getElem? hb)
    have hab : a ≤ b := pairwise_getElem?_succ hc ha hb
    have hmicros : a.micros ≤ b.micros := by
      rw [← not_lt, TimeOfDay.micros_lt_micros_iff (TimeOfDay.micro_lt_of_parse_eq_ok hs')
        (TimeOfDay.micro_lt_of_parse_eq_ok hs), not_lt]
      exact hab
    refine ⟨by omega, ?_⟩
    rw [latencies_ofTimes, times_ofTimes, getElem?_gaps ha hb]
    rfl

/-- Two commands at one time have an empty interval between them; an event at that time falls behind both. -/
theorem measure_ofTimes_of_repeated_command :
    let a : TimeOfDay := ⟨1, 0, by decide, by decide⟩
    let b : TimeOfDay := ⟨2, 0, by decide, by decide⟩
    let events : List TimeOfDay := [⟨0, 900000, by decide, by decide⟩, a, ⟨1, 500000, by decide, by decide⟩]
    ([a, a, b].Pairwise (· ≤ ·) ∧ events.Pairwise (· ≤ ·) ∧ ∀ c ∈ [a, a, b], ∃ text, TimeOfDay.parse text = .ok c) ∧
      ∃ p : Intervals, (measure (.ofTimes [a, a, b]) (.ofTimes events) : Run String Intervals).outcome = .ok p ∧
        p.counts[0]? = some 1 ∧ p.counts[1]? = some 0 ∧ p.counts[2]? = some 2 ∧ p.counts[3]? = some 0 ∧
        p.latencies[0]? = some none ∧ p.latencies[1]? = some (some (Float.ofInt 0 / 1000.0)) ∧
        p.latencies[2]? = some (some (Float.ofInt 1000000 / 1000.0)) := by
  intro a b events
  have hc : [a, a, b].Pairwise (· ≤ ·) := by decide
  have he : events.Pairwise (· ≤ ·) := by decide
  have hr : ∀ c ∈ [a, a, b], ∃ text, TimeOfDay.parse text = .ok c := by
    intro c hmem
    have hcases : c = a ∨ c = b := by simpa using hmem
    rcases hcases with rfl | rfl
    · exact ⟨"00:00:01.000000", rfl⟩
    · exact ⟨"00:00:02.000000", rfl⟩
  obtain ⟨p, hp, -, hcounts, -, hfirst, hrest⟩ := measure_ofTimes_of_ordered (ε := String) hc he hr
  have haa : (a.micros : Int) - a.micros = 0 := by decide
  have hab : (b.micros : Int) - a.micros = 1000000 := by decide
  refine ⟨⟨hc, he, hr⟩, p, hp, hcounts 0 (by decide), hcounts 1 (by decide), hcounts 2 (by decide),
    hcounts 3 (by decide), hfirst (by decide), ?_, ?_⟩
  · rw [← haa]
    exact (hrest 0 a a rfl rfl).2
  · rw [← hab]
    exact (hrest 1 a b rfl rfl).2

end LogCorrelation.Intervals
