import LogCorrelation.Proofs.Intervals.Tally
import Mathlib.Data.List.Count
import Mathlib.Order.Bounds.Basic

/-!
# Proofs.Intervals.Attribution — the interval of each event, for times in any order

A run does not check that its feeds are ordered.  Whatever the order, each event falls into exactly one interval: the
first one, from the interval of the event in front of it on, that closes with a command after the event.  So an event
may hold back smaller events behind it, and a command that goes back in time closes an empty interval.

* `isLeast_firstClosingAfter`: the interval of an event is the least that takes it.
* `tally_eq_map_count`: a run counts in each interval the events attributed to it.
* `measure_attributes`: both of a run.
-/

namespace LogCorrelation.Intervals

/-- Whether an interval may take an event: it is the last one, or its closing command is after the event. -/
def Takes (commands : List TimeOfDay) (event : TimeOfDay) (i : Nat) : Prop :=
  i = commands.length ∨ ∃ c ∈ closing commands i, event < c

/-- Each event is in the least interval that takes it, from the interval of the event in front of it on; for the first
event from `start` on. -/
structure Attributed (commands : List TimeOfDay) (start : Nat) (events : List TimeOfDay) (intervals : List Nat) :
    Prop where
  length_eq : intervals.length = events.length
  least : ∀ (j : Nat) (event : TimeOfDay) (before i : Nat), events[j]? = some event →
    (start :: intervals)[j]? = some before → intervals[j]? = some i →
    IsLeast {k | before ≤ k ∧ Takes commands event k} i

variable {c event : TimeOfDay} {cs commands events : List TimeOfDay} {start i : Nat}

/-! ### One event -/

theorem firstClosingAfter_nil (start : Nat) (event : TimeOfDay) : firstClosingAfter [] start event = start := by
  simp [firstClosingAfter]

theorem firstClosingAfter_cons_succ (c : TimeOfDay) (cs : List TimeOfDay) (start : Nat) (event : TimeOfDay) :
    firstClosingAfter (c :: cs) (start + 1) event = firstClosingAfter cs start event + 1 := by
  rw [firstClosingAfter, List.drop_succ_cons, Nat.add_right_comm]
  rfl

theorem firstClosingAfter_cons_of_lt (cs : List TimeOfDay) (h : event < c) :
    firstClosingAfter (c :: cs) 0 event = 0 := by
  simp [firstClosingAfter, h]

theorem firstClosingAfter_cons_of_not_lt (cs : List TimeOfDay) (h : ¬ event < c) :
    firstClosingAfter (c :: cs) 0 event = firstClosingAfter cs 0 event + 1 := by
  simp [firstClosingAfter, h]

theorem le_firstClosingAfter (commands : List TimeOfDay) (start : Nat) (event : TimeOfDay) :
    start ≤ firstClosingAfter commands start event :=
  Nat.le_add_right _ _

theorem takes_cons_succ : Takes (c :: cs) event (i + 1) ↔ Takes cs event i := by
  rw [Takes, Takes, List.length_cons, Nat.add_right_cancel_iff]
  rfl

theorem takes_cons_zero : Takes (c :: cs) event 0 ↔ event < c := by
  simp [Takes, closing]

/-- A command in front moves every interval by one. -/
theorem isLeast_cons_succ (h : IsLeast {k | start ≤ k ∧ Takes cs event k} i) :
    IsLeast {k | start + 1 ≤ k ∧ Takes (c :: cs) event k} (i + 1) := by
  obtain ⟨⟨hstart, htakes⟩, hleast⟩ := h
  refine ⟨⟨Nat.succ_le_succ hstart, takes_cons_succ.mpr htakes⟩, ?_⟩
  rintro k ⟨hk, hktakes⟩
  obtain ⟨k, rfl⟩ := Nat.exists_eq_add_of_le' (Nat.le_trans (Nat.le_add_left 1 start) hk)
  exact Nat.succ_le_succ (hleast ⟨Nat.le_of_succ_le_succ hk, takes_cons_succ.mp hktakes⟩)

/-- **The interval of an event** is the least that takes it. -/
theorem isLeast_firstClosingAfter (event : TimeOfDay) (hstart : start ≤ commands.length) :
    IsLeast {k | start ≤ k ∧ Takes commands event k} (firstClosingAfter commands start event) := by
  induction commands generalizing start with
  | nil =>
    obtain rfl := Nat.le_zero.mp hstart
    exact ⟨⟨Nat.le_refl 0, .inl rfl⟩, fun k _ => Nat.zero_le k⟩
  | cons c cs ih =>
    cases start with
    | succ start =>
      rw [firstClosingAfter_cons_succ]
      exact isLeast_cons_succ (ih (Nat.le_of_succ_le_succ hstart))
    | zero =>
      by_cases h : event < c
      · rw [firstClosingAfter_cons_of_lt cs h]
        exact ⟨⟨Nat.le_refl 0, takes_cons_zero.mpr h⟩, fun k _ => Nat.zero_le k⟩
      · rw [firstClosingAfter_cons_of_not_lt cs h]
        obtain ⟨⟨-, htakes⟩, hleast⟩ := isLeast_cons_succ (c := c) (ih (Nat.zero_le _))
        refine ⟨⟨Nat.zero_le _, htakes⟩, ?_⟩
        rintro k ⟨-, hk⟩
        -- the first interval does not take the event, so there is none in front of the others
        have hpos : 0 + 1 ≤ k := by
          rw [Nat.add_one_le_iff, Nat.pos_iff_ne_zero]
          rintro rfl
          exact h (takes_cons_zero.mp hk)
        exact hleast ⟨hpos, hk⟩

theorem firstClosingAfter_le_length (event : TimeOfDay) (hstart : start ≤ commands.length) :
    firstClosingAfter commands start event ≤ commands.length :=
  (isLeast_firstClosingAfter event hstart).2 ⟨hstart, .inl rfl⟩

/-! ### All events -/

theorem attributed_attribution (events : List TimeOfDay) (hstart : start ≤ commands.length) :
    Attributed commands start events (attribution commands start events) := by
  induction events generalizing start with
  | nil => exact ⟨rfl, fun j event before i he => absurd he (by simp)⟩
  | cons event events ih =>
    obtain ⟨hlength, hleast⟩ := ih (firstClosingAfter_le_length event hstart)
    refine ⟨congrArg (· + 1) hlength, ?_⟩
    intro j event' before i he hbefore hi
    cases j with
    | zero =>
      obtain rfl := Option.some.inj he
      obtain rfl := Option.some.inj hbefore
      obtain rfl := Option.some.inj hi
      exact isLeast_firstClosingAfter event hstart
    | succ j => exact hleast j event' before i he hbefore hi

theorem le_of_mem_attribution (h : i ∈ attribution commands start events) : start ≤ i := by
  induction events generalizing start with
  | nil => exact absurd h (by simp [attribution])
  | cons event events ih =>
    have hle := le_firstClosingAfter commands start event
    rcases List.mem_cons.mp h with rfl | h
    · exact hle
    · exact hle.trans (ih h)

/-- Attributions do not go back. -/
theorem pairwise_attribution (commands : List TimeOfDay) (start : Nat) (events : List TimeOfDay) :
    (attribution commands start events).Pairwise (· ≤ ·) := by
  induction events generalizing start with
  | nil => exact .nil
  | cons event events ih => exact .cons (fun i hi => le_of_mem_attribution hi) (ih _)

/-! ### The counts of a run -/

theorem attribution_nil (start : Nat) (events : List TimeOfDay) :
    attribution [] start events = List.replicate events.length start := by
  induction events with
  | nil => rfl
  | cons event events ih => rw [attribution, firstClosingAfter_nil, ih]; rfl

theorem attribution_cons_succ (c : TimeOfDay) (cs : List TimeOfDay) (start : Nat) (events : List TimeOfDay) :
    attribution (c :: cs) (start + 1) events = (attribution cs start events).map (· + 1) := by
  induction events generalizing start with
  | nil => rfl
  | cons event events ih => rw [attribution, firstClosingAfter_cons_succ, ih]; rfl

/-- The first command takes the events in front that are before it, and leaves the others to the commands behind. -/
theorem attribution_cons_zero (c : TimeOfDay) (cs events : List TimeOfDay) :
    attribution (c :: cs) 0 events =
      List.replicate (events.takeWhile (isBefore · (some c))).length 0 ++
        (attribution cs 0 (events.dropWhile (isBefore · (some c)))).map (· + 1) := by
  induction events with
  | nil => rfl
  | cons event events ih =>
    by_cases h : event < c
    · have hbefore : isBefore event (some c) = true := decide_eq_true h
      rw [attribution, firstClosingAfter_cons_of_lt cs h, ih, List.takeWhile_cons, List.dropWhile_cons, if_pos hbefore,
        if_pos hbefore]
      rfl
    · have hbefore : ¬ isBefore event (some c) = true := fun hb => h (of_decide_eq_true hb)
      rw [attribution, firstClosingAfter_cons_of_not_lt cs h, attribution_cons_succ, List.takeWhile_cons,
        List.dropWhile_cons, if_neg hbefore, if_neg hbefore]
      rfl

/-- **A run counts the events attributed to each interval.** -/
theorem tally_eq_map_count (commands events : List TimeOfDay) :
    tally commands events = (List.range (commands.length + 1)).map fun i => (attribution commands 0 events).count i := by
  induction commands generalizing events with
  | nil => simp [tally, attribution_nil]
  | cons c cs ih =>
    have hzero (intervals : List Nat) : (intervals.map (· + 1)).count 0 = 0 :=
      List.count_eq_zero_of_not_mem (by simp)
    have hsucc (intervals : List Nat) (i : Nat) : (intervals.map (· + 1)).count (i + 1) = intervals.count i :=
      List.count_map_of_injective intervals (· + 1) (fun _ _ => Nat.succ.inj) i
    rw [tally, ih, List.length_cons, List.range_succ_eq_map (n := cs.length + 1), List.map_cons, List.map_map,
      attribution_cons_zero, List.count_append, hzero, List.count_replicate_self]
    congr 1
    refine List.map_congr_left fun i _ => ?_
    have hnone (count : Nat) : (List.replicate count 0).count (i + 1) = 0 :=
      List.count_eq_zero_of_not_mem (by simp)
    rw [Function.comp_apply, Nat.succ_eq_add_one, List.count_append, hnone, hsucc, Nat.zero_add]

/-- **Each event is counted once, whatever the order.**  The run over any two feeds without errors succeeds.  There are
intervals for its events, none before that of the event in front and each the least that takes its event, and every
count of the run is the number of events in that interval. -/
theorem measure_attributes {ε : Type} {commands io : Feed ε} (hc : commands.fault? = none) (hi : io.fault? = none) :
    ∃ p : Intervals, (measure commands io).outcome = .ok p ∧
      p.counts.length = commands.times.length + 1 ∧ p.latencies.length = commands.times.length ∧
      p.eventCount = io.times.length ∧
      ∃ intervals : List Nat, Attributed commands.times 0 io.times intervals ∧ intervals.Pairwise (· ≤ ·) ∧
        ∀ i ≤ commands.times.length, p.counts[i]? = some (intervals.count i) := by
  refine ⟨_, measure_outcome_of_fault?_eq_none hc hi, length_tally _ _, length_gaps _ _, sum_tally _ _, ?_⟩
  refine ⟨_, attributed_attribution io.times (Nat.zero_le _), pairwise_attribution _ _ _, fun i hle => ?_⟩
  rw [counts_ofTimes, tally_eq_map_count, List.getElem?_map, List.getElem?_range (Nat.lt_succ_iff.mpr hle)]
  rfl

/-- The second command goes back in time and closes an empty interval.  The second event waits for the third command, and
the third event, which is smaller than all commands, waits behind it. -/
theorem measure_attributes_disordered :
    let a : TimeOfDay := ⟨1, 0, by decide, by decide⟩
    let b : TimeOfDay := ⟨3, 0, by decide, by decide⟩
    let c : TimeOfDay := ⟨6, 0, by decide, by decide⟩
    let e : TimeOfDay := ⟨2, 0, by decide, by decide⟩
    let f : TimeOfDay := ⟨4, 0, by decide, by decide⟩
    let g : TimeOfDay := ⟨0, 0, by decide, by decide⟩
    let commands : Feed String := [some (.ok b), some (.ok a), some (.ok c), none, some (.error "behind the end")]
    let io : Feed String := [some (.ok e), some (.ok f), some (.ok g), some (.ok c)]
    (commands.fault? = none ∧ io.fault? = none) ∧
      ∃ p : Intervals, (measure commands io).outcome = .ok p ∧ p.eventCount = 4 ∧ p.counts = [1, 0, 2, 1] ∧
        ∃ intervals, Attributed [b, a, c] 0 [e, f, g, c] intervals ∧ p.counts[2]? = some (intervals.count 2) := by
  intro a b c e f g commands io
  have hc : commands.fault? = none := rfl
  have hi : io.fault? = none := rfl
  obtain ⟨p, hp, -, -, hcount, intervals, hattributed, -, hcounts⟩ := measure_attributes hc hi
  obtain rfl : p = .ofTimes [b, a, c] [e, f, g, c] := Except.ok.inj (hp.symm.trans rfl)
  exact ⟨⟨hc, hi⟩, _, hp, hcount, by decide, intervals, hattributed, hcounts 2 (by decide)⟩

end LogCorrelation.Intervals
