import LogCorrelation.Proofs.Intervals.Tally

/-!
# Proofs.Intervals.FirstFault — which of two errors ends a run

A command is pulled only after the events before the command in front of it, and one event more, have been pulled.
So the error of the events is met first exactly when all events in front of it are before a command that is pulled
before the commands end.  `firstFault` follows the run command by command and says this for times in any order;
`firstFault_of_ordered` reads it off the last times in front of the two errors.

* `measure_failsWith_iff`, `measure_outcome_isOk_iff`: a run ends with the error it meets first, or with intervals.
* `failsWith_io_iff`, `failsWith_command_iff`: for ordered times, when it ends with the error of one feed.
* `measure_failsWith_iff_of_ordered`: for ordered times, which error a run ends with.
-/

namespace LogCorrelation.Intervals

variable {ε : Type}

/-! ### The error met first -/

/-- The error that a run meets first and the feed it comes from; `commandFault` and `ioFault` stand behind the times. -/
def firstFault (commandFault ioFault : Option ε) : List TimeOfDay → List TimeOfDay → Option (Side × ε)
  | [], _ =>
    match commandFault with
    | some e => some (.command, e)
    | none => ioFault.map (.io, ·)
  | c :: cs, events =>
    let rest := events.dropWhile (isBefore · (some c))
    if rest.isEmpty && ioFault.isSome then ioFault.map (.io, ·) else firstFault commandFault ioFault cs rest

theorem firstFault_cons_of_drop_eq_nil {c : TimeOfDay} {events : List TimeOfDay}
    (h : events.dropWhile (isBefore · (some c)) = []) (commandFault : Option ε) (e : ε) (cs : List TimeOfDay) :
    firstFault commandFault (some e) (c :: cs) events = some (.io, e) := by
  simp [firstFault, h]

theorem firstFault_cons_of_drop_ne_nil {c : TimeOfDay} {events : List TimeOfDay} {ioFault : Option ε}
    (h : events.dropWhile (isBefore · (some c)) ≠ [] ∨ ioFault = none) (commandFault : Option ε)
    (cs : List TimeOfDay) :
    firstFault commandFault ioFault (c :: cs) events =
      firstFault commandFault ioFault cs (events.dropWhile (isBefore · (some c))) := by
  refine if_neg fun hboth => ?_
  obtain ⟨hempty, hsome⟩ := Bool.and_eq_true_iff.mp hboth
  rcases h with h | rfl
  · exact h (List.isEmpty_iff.mp hempty)
  · exact absurd hsome (by simp)

/-- A run meets no error only if both feeds end without one. -/
theorem firstFault_eq_none_iff {commandFault ioFault : Option ε} {commands events : List TimeOfDay} :
    firstFault commandFault ioFault commands events = none ↔ commandFault = none ∧ ioFault = none := by
  induction commands generalizing events with
  | nil => cases commandFault <;> cases ioFault <;> simp [firstFault]
  | cons c cs ih =>
    by_cases h : events.dropWhile (isBefore · (some c)) ≠ [] ∨ ioFault = none
    · rw [firstFault_cons_of_drop_ne_nil h, ih]
    · rw [not_or, not_not] at h
      obtain ⟨e, rfl⟩ := Option.ne_none_iff_exists'.mp h.2
      simp [firstFault_cons_of_drop_eq_nil h.1]

/-- Without an error of the events the run meets that of the commands. -/
theorem firstFault_none (commandFault : Option ε) (commands events : List TimeOfDay) :
    firstFault commandFault none commands events = commandFault.map (.command, ·) := by
  induction commands generalizing events with
  | nil => cases commandFault <;> rfl
  | cons c cs ih => rw [firstFault_cons_of_drop_ne_nil (.inr rfl), ih]

/-- **A run ends with the error it meets first.** -/
theorem measureFrom_failsWith : ∀ {feed : Feed ε} {events : Events ε} {side : Side} {e : ε}
    (previous : Option TimeOfDay),
    firstFault feed.fault? events.fault? feed.times events.times = some (side, e) →
    (measureFrom .remembers previous events feed).FailsWith side e
  | [], events, side, e, previous, h | none :: _, events, side, e, previous, h => by
    obtain ⟨e', he, heq⟩ := Option.map_eq_some_iff.mp h
    obtain ⟨rfl, rfl⟩ := Prod.mk.inj heq
    have hall : events.times.dropWhile (isBefore · none) = [] :=
      List.dropWhile_eq_nil_iff.mpr fun _ _ => rfl
    exact ((countBefore_failsWith hall he).map _).pulled _
  | some (.error e') :: _, events, side, e, previous, h => by
    obtain ⟨rfl, rfl⟩ := Prod.mk.inj (Option.some.inj h)
    exact ⟨rfl, rfl⟩
  | some (.ok c) :: feed, events, side, e, previous, h => by
    rw [times_ok, fault?_ok] at h
    by_cases hd : events.times.dropWhile (isBefore · (some c)) ≠ [] ∨ events.fault? = none
    · rw [firstFault_cons_of_drop_ne_nil hd] at h
      obtain ⟨rest, hr, ht, hf⟩ := countBefore_eq_ok (some c) events hd
      rw [← ht, ← hf] at h
      exact (Run.FailsWith.bind_right hr ((measureFrom_failsWith (some c) h).map _)).pulled _
    · rw [not_or, not_not] at hd
      obtain ⟨e', he'⟩ := Option.ne_none_iff_exists'.mp hd.2
      rw [he', firstFault_cons_of_drop_eq_nil hd.1] at h
      obtain ⟨rfl, rfl⟩ := Prod.mk.inj (Option.some.inj h)
      exact ((countBefore_failsWith hd.1 he').bind_left _).pulled _

/-- A run ends with an error exactly if that is the one it meets first. -/
theorem measure_failsWith_iff {commands io : Feed ε} {side : Side} {e : ε} :
    (measure commands io).FailsWith side e ↔
      firstFault commands.fault? io.fault? commands.times io.times = some (side, e) := by
  constructor
  · intro h
    cases hf : firstFault commands.fault? io.fault? commands.times io.times with
    | none =>
      obtain ⟨hc, hi⟩ := firstFault_eq_none_iff.mp hf
      have hok := (measure_outcome_of_fault?_eq_none hc hi).symm.trans h.outcome_eq
      exact absurd hok (by simp)
    | some met =>
      have h' : (measure commands io).FailsWith met.1 met.2 := measureFrom_failsWith none hf
      have hside : some met.1 = some side := h'.getLast?_pulls.symm.trans h.getLast?_pulls
      have hfault : (Except.error met.2 : Except ε Intervals) = .error e := h'.outcome_eq.symm.trans h.outcome_eq
      rw [← Option.some.inj hside, ← Except.error.inj hfault]
  · exact fun h => measureFrom_failsWith none h

/-- A run succeeds exactly if both feeds end without an error. -/
theorem measure_outcome_isOk_iff {commands io : Feed ε} :
    (∃ p, (measure commands io).outcome = .ok p) ↔ commands.fault? = none ∧ io.fault? = none := by
  constructor
  · rintro ⟨p, hp⟩
    have hnone : firstFault commands.fault? io.fault? commands.times io.times = none := by
      rw [Option.eq_none_iff_forall_ne_some]
      rintro ⟨side, e⟩ hmet
      have h := (measure_failsWith_iff.mpr hmet).outcome_eq
      rw [hp] at h
      exact absurd h (by simp)
    exact firstFault_eq_none_iff.mp hnone
  · rintro ⟨hc, hi⟩
    exact ⟨_, measure_outcome_of_fault?_eq_none hc hi⟩

/-- A run that succeeds gives the intervals of all times in front of the ends of its feeds. -/
theorem eq_ofTimes_of_measure {commands io : Feed ε} {p : Intervals} (h : (measure commands io).outcome = .ok p) :
    p = .ofTimes commands.times io.times := by
  obtain ⟨hc, hi⟩ := measure_outcome_isOk_iff.mp ⟨p, h⟩
  exact Except.ok.inj (h.symm.trans (measure_outcome_of_fault?_eq_none hc hi))

/-- A run that ends with an error ends with the error of one of the feeds. -/
theorem exists_failsWith_of_outcome_eq_error {commands io : Feed ε} {e : ε}
    (h : (measure commands io).outcome = .error e) : ∃ side, (measure commands io).FailsWith side e := by
  have hne : firstFault commands.fault? io.fault? commands.times io.times ≠ none := fun hnone => by
    obtain ⟨p, hp⟩ := measure_outcome_isOk_iff.mpr (firstFault_eq_none_iff.mp hnone)
    exact absurd (h.symm.trans hp) (by simp)
  obtain ⟨⟨side, e'⟩, hmet⟩ := Option.ne_none_iff_exists'.mp hne
  have hfails := measure_failsWith_iff.mpr hmet
  obtain rfl : e = e' := Except.error.inj (h.symm.trans hfails.outcome_eq)
  exact ⟨side, hfails⟩

/-! ### Ordered times -/

section Ordered

variable {commands events : List TimeOfDay}

/-- The last command is past every event: there is a command, and the last event, if there is one, is before it. -/
def LastIsPast (commands events : List TimeOfDay) : Prop :=
  ∃ c ∈ commands.getLast?, ∀ e ∈ events.getLast?, e < c

/-- If some command is past all events, so is the last one. -/
theorem lastIsPast_of_drop_eq_nil {c : TimeOfDay} {cs : List TimeOfDay} (hc : (c :: cs).Pairwise (· ≤ ·))
    (h : events.dropWhile (isBefore · (some c)) = []) : LastIsPast (c :: cs) events := by
  obtain ⟨d, hd⟩ : ∃ d, (c :: cs).getLast? = some d := ⟨_, List.getLast?_eq_some_getLast (by simp)⟩
  refine ⟨d, hd, fun e he => ?_⟩
  have hec : e < c := by
    have := List.dropWhile_eq_nil_iff.mp h e (List.mem_of_getLast? he)
    simpa [isBefore] using this
  exact lt_of_lt_of_le hec (TimeOfDay.le_of_mem_getLast? hc (by simp) hd)

/-- If the first command is not past all events, the others decide. -/
theorem lastIsPast_cons_iff {c : TimeOfDay} {cs : List TimeOfDay} (he : events.Pairwise (· ≤ ·))
    (h : events.dropWhile (isBefore · (some c)) ≠ []) :
    LastIsPast (c :: cs) events ↔ LastIsPast cs (events.dropWhile (isBefore · (some c))) := by
  obtain ⟨e, rest, hrest⟩ := List.exists_cons_of_ne_nil h
  obtain ⟨last, hlast⟩ : ∃ l, (e :: rest).getLast? = some l := ⟨_, List.getLast?_eq_some_getLast (by simp)⟩
  have hsame : events.getLast? = some last := by
    obtain ⟨front, hfront⟩ := List.dropWhile_suffix (isBefore · (some c)) (l := events)
    rw [← hfront, hrest, List.getLast?_append, hlast]
    rfl
  have hce : c ≤ e := by
    have := List.head?_dropWhile_not (isBefore · (some c)) events
    rw [hrest] at this
    simpa [isBefore] using this
  have hel : e ≤ last :=
    TimeOfDay.le_of_mem_getLast? he (List.dropWhile_subset _ (hrest ▸ List.mem_cons_self)) hsame
  rw [hrest]
  cases cs with
  | nil => simp [LastIsPast, hsame, hce.trans hel]
  | cons d ds => simp [LastIsPast, hsame, hlast, List.getLast?_cons_cons]

open Classical in
/-- **For ordered times** the last command and the last event in front of the two errors decide which is met first. -/
theorem firstFault_of_ordered (hc : commands.Pairwise (· ≤ ·)) (he : events.Pairwise (· ≤ ·))
    (commandFault : Option ε) (e : ε) :
    firstFault commandFault (some e) commands events =
      if commandFault = none ∨ LastIsPast commands events then some (.io, e)
      else commandFault.map (.command, ·) := by
  induction commands generalizing events with
  | nil => cases commandFault <;> simp [firstFault, LastIsPast]
  | cons c cs ih =>
    by_cases h : events.dropWhile (isBefore · (some c)) = []
    · rw [firstFault_cons_of_drop_eq_nil h, if_pos (.inr (lastIsPast_of_drop_eq_nil hc h))]
    · have hcs : cs.Pairwise (· ≤ ·) := (List.pairwise_cons.mp hc).2
      have hrest := he.sublist (List.dropWhile_sublist (isBefore · (some c)))
      rw [firstFault_cons_of_drop_ne_nil (.inl h), ih hcs hrest]
      simp only [lastIsPast_cons_iff he h]

end Ordered

section Ordered

variable {commands io : Feed ε} (hc : commands.times.Pairwise (· ≤ ·)) (hi : io.times.Pairwise (· ≤ ·)) {e : ε}

include hc hi

theorem failsWith_io_iff :
    (measure commands io).FailsWith .io e ↔
      io.fault? = some e ∧ (commands.fault? = none ∨ LastIsPast commands.times io.times) := by
  rw [measure_failsWith_iff]
  cases hio : io.fault? with
  | none => simp [firstFault_none]
  | some e' =>
    rw [firstFault_of_ordered hc hi]
    split
    · next hwins => simp [hwins]
    · next hloses => simp [hloses]

theorem failsWith_command_iff :
    (measure commands io).FailsWith .command e ↔
      commands.fault? = some e ∧ ¬ (io.fault? ≠ none ∧ LastIsPast commands.times io.times) := by
  rw [measure_failsWith_iff]
  cases hio : io.fault? with
  | none => simp [firstFault_none]
  | some e' =>
    rw [firstFault_of_ordered hc hi]
    cases hcommand : commands.fault? with
    | none => simp
    | some e'' => by_cases hpast : LastIsPast commands.times io.times <;> simp [hpast]

end Ordered

/-- **Which error wins.**  The run over any two feeds whose times are ordered succeeds if and only if neither feed has
an error.  It ends with the error of the events if and only if the commands have none, or their last time is past the
last time of the events; it ends with the error of the commands in every other case, and with no other error. -/
theorem measure_failsWith_iff_of_ordered {commands io : Feed ε} (hc : commands.times.Pairwise (· ≤ ·))
    (hi : io.times.Pairwise (· ≤ ·)) :
    ((∃ p, (measure commands io).outcome = .ok p) ↔ commands.fault? = none ∧ io.fault? = none) ∧
      (∀ e, (measure commands io).FailsWith .io e ↔
        io.fault? = some e ∧ (commands.fault? = none ∨ LastIsPast commands.times io.times)) ∧
      (∀ e, (measure commands io).FailsWith .command e ↔
        commands.fault? = some e ∧ ¬ (io.fault? ≠ none ∧ LastIsPast commands.times io.times)) ∧
      ∀ e, (measure commands io).outcome = .error e →
        (measure commands io).FailsWith .io e ∨ (measure commands io).FailsWith .command e := by
  refine ⟨measure_outcome_isOk_iff, fun e => failsWith_io_iff hc hi, fun e => failsWith_command_iff hc hi, ?_⟩
  intro e h
  obtain ⟨side, hfails⟩ := exists_failsWith_of_outcome_eq_error h
  cases side with
  | command => exact .inr hfails
  | io => exact .inl hfails

/-- Both feeds have an error: that of the events wins behind an event before the last command, and loses behind one at
the same time. -/
theorem measure_failsWith_of_two_errors :
    let a : TimeOfDay := ⟨1, 0, by decide, by decide⟩
    let b : TimeOfDay := ⟨2, 0, by decide, by decide⟩
    let commands : Feed String := [some (.ok a), some (.ok b), some (.error "commands")]
    let early : Feed String := [some (.ok a), some (.error "events")]
    let late : Feed String := [some (.ok a), some (.ok b), some (.error "events")]
    (commands.times.Pairwise (· ≤ ·) ∧ early.times.Pairwise (· ≤ ·) ∧ late.times.Pairwise (· ≤ ·)) ∧
      (measure commands early).FailsWith .io "events" ∧ (measure commands late).FailsWith .command "commands" := by
  intro a b commands early late
  have hc : commands.times.Pairwise (· ≤ ·) := by decide
  have hearly : early.times.Pairwise (· ≤ ·) := by decide
  have hlate : late.times.Pairwise (· ≤ ·) := by decide
  have hpast : LastIsPast commands.times early.times := ⟨b, rfl, by decide⟩
  have hnot : ¬ LastIsPast commands.times late.times := by
    rintro ⟨c, hcmem, hlt⟩
    obtain rfl : b = c := Option.some.inj hcmem
    exact absurd (hlt b rfl) (by decide)
  refine ⟨⟨hc, hearly, hlate⟩, ?_, ?_⟩
  · exact ((measure_failsWith_iff_of_ordered hc hearly).2.1 _).mpr ⟨rfl, .inr hpast⟩
  · exact ((measure_failsWith_iff_of_ordered hc hlate).2.2.1 _).mpr ⟨rfl, fun h => hnot h.2⟩

end LogCorrelation.Intervals
