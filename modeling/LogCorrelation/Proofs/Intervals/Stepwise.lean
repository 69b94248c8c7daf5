import LogCorrelation.Proofs.Except
import LogCorrelation.Proofs.Intervals.Feed

/-!
# Proofs.Intervals.Stepwise — a run told act by act

`measureThrough` says of a run what it pulls and how it ends, but not when an event is counted.  Here the same run is a
sequence of single acts: a pull with its answer, the counting of the event that is held, the closing of an interval.
`Step` has one rule for each thing that can happen, and `Leads` puts steps one after the other.

* `finishes_measureThrough`: from the start the acts lead to the outcome of `measureThrough`, and their pulls are its
  pulls.
* `Leads.preserves`: what every step keeps true of the acts so far and the state holds at every moment of a run.
-/

namespace LogCorrelation.Intervals

variable {ε : Type}

/-! ### Acts and states -/

/-- One act of a run. -/
inductive Act (ε : Type)
  /-- A pull, with the answer it gets. -/
  | pull (side : Side) (answer : Option (Except ε TimeOfDay))
  /-- The event held is counted. -/
  | count (event : TimeOfDay)
  /-- The interval is complete. -/
  | close

/-- The feed from which an act pulls. -/
def Act.side? : Act ε → Option Side
  | .pull side _ => some side
  | .count _ | .close => none

/-- What a run does next. -/
inductive Stage (ε : Type)
  /-- It pulls a command. -/
  | between
  /-- It counts the events before `bound`, `count` so far. -/
  | counting (bound : Option TimeOfDay) (count : Nat)
  /-- Nothing any more. -/
  | finished (outcome : Except ε Intervals)

/-- A run at one moment: the intervals closed so far, and what is left of the feeds. -/
structure State (ε : Type) where
  stage : Stage ε
  commands : Feed ε
  events : Events ε
  previous : Option TimeOfDay := none
  counts : List Nat := []
  latencies : List (Option Float) := []

/-- A run before its first act. -/
def State.start (commands io : Feed ε) : State ε where
  stage := .between
  commands := commands
  events := ⟨.unknown, io⟩

/-- The answer to a pull, and what is left of the feed. -/
def Feed.next : Feed ε → Option (Except ε TimeOfDay) × Feed ε
  | [] => (none, [])
  | answer :: rest => (answer, rest)

/-- Whether the next event is known not to be before `bound`. -/
def Events.StopAt (events : Events ε) (bound : Option TimeOfDay) : Prop :=
  match events.ahead with
  | .unknown => False
  | .holding event => isBefore event bound = false
  | .ended => True

/-- One act of a run, and the state it leads to. -/
inductive Step (fuse : Fuse) : State ε → Act ε → State ε → Prop
  /-- A command is pulled. -/
  | command {s : State ε} {t : TimeOfDay} {rest : Feed ε} (stage_eq : s.stage = .between)
      (next_eq : s.commands.next = (some (.ok t), rest)) :
      Step fuse s (.pull .command (some (.ok t)))
        { s with stage := .counting (some t) 0, commands := rest, events := s.events.resumed fuse }
  /-- The commands have a fault. -/
  | commandFault {s : State ε} {e : ε} {rest : Feed ε} (stage_eq : s.stage = .between)
      (next_eq : s.commands.next = (some (.error e), rest)) :
      Step fuse s (.pull .command (some (.error e))) { s with stage := .finished (.error e), commands := rest }
  /-- The commands have ended. -/
  | commandsEnd {s : State ε} {rest : Feed ε} (stage_eq : s.stage = .between)
      (next_eq : s.commands.next = (none, rest)) :
      Step fuse s (.pull .command none)
        { s with stage := .counting none 0, commands := rest, events := s.events.resumed fuse }
  /-- An event is pulled. -/
  | event {s : State ε} {bound : Option TimeOfDay} {count : Nat} {t : TimeOfDay} {rest : Feed ε}
      (stage_eq : s.stage = .counting bound count) (ahead_eq : s.events.ahead = .unknown)
      (next_eq : s.events.feed.next = (some (.ok t), rest)) :
      Step fuse s (.pull .io (some (.ok t))) { s with events := ⟨.holding t, rest⟩ }
  /-- The events have a fault. -/
  | eventFault {s : State ε} {bound : Option TimeOfDay} {count : Nat} {e : ε} {rest : Feed ε}
      (stage_eq : s.stage = .counting bound count) (ahead_eq : s.events.ahead = .unknown)
      (next_eq : s.events.feed.next = (some (.error e), rest)) :
      Step fuse s (.pull .io (some (.error e))) { s with stage := .finished (.error e), events := ⟨.unknown, rest⟩ }
  /-- The events have ended. -/
  | eventsEnd {s : State ε} {bound : Option TimeOfDay} {count : Nat} {rest : Feed ε}
      (stage_eq : s.stage = .counting bound count) (ahead_eq : s.events.ahead = .unknown)
      (next_eq : s.events.feed.next = (none, rest)) :
      Step fuse s (.pull .io none) { s with events := ⟨.ended, rest⟩ }
  /-- The event held is before the bound. -/
  | count {s : State ε} {bound : Option TimeOfDay} {count : Nat} {t : TimeOfDay}
      (stage_eq : s.stage = .counting bound count) (ahead_eq : s.events.ahead = .holding t)
      (before : isBefore t bound = true) :
      Step fuse s (.count t) { s with stage := .counting bound (count + 1), events := ⟨.unknown, s.events.feed⟩ }
  /-- The interval that a command ends is complete. -/
  | close {s : State ε} {t : TimeOfDay} {count : Nat} (stage_eq : s.stage = .counting (some t) count)
      (stop : s.events.StopAt (some t)) :
      Step fuse s .close
        { s with
          stage := .between
          previous := some t
          counts := s.counts ++ [count]
          latencies := s.latencies ++ [s.previous.map (·.elapsed t)] }
  /-- The last interval is complete. -/
  | closeLast {s : State ε} {count : Nat} (stage_eq : s.stage = .counting none count)
      (stop : s.events.StopAt none) :
      Step fuse s .close { s with stage := .finished (.ok ⟨s.counts ++ [count], s.latencies⟩) }

/-- The acts lead from one state to another, one step for each. -/
inductive Leads (fuse : Fuse) : State ε → List (Act ε) → State ε → Prop
  | nil (s : State ε) : Leads fuse s [] s
  | cons {s m t : State ε} {act : Act ε} {acts : List (Act ε)} (step : Step fuse s act m)
      (rest : Leads fuse m acts t) : Leads fuse s (act :: acts) t

/-! ### Runs of acts -/

variable {fuse : Fuse}

/-- **What every step keeps** of the acts so far and the state, a run of acts keeps. -/
theorem Leads.preserves {P : List (Act ε) → State ε → Prop}
    (hstep : ∀ {acts s act t}, P acts s → Step fuse s act t → P (acts ++ [act]) t) {done acts : List (Act ε)}
    {s t : State ε} (hs : P done s) (h : Leads fuse s acts t) : P (done ++ acts) t := by
  induction h generalizing done with
  | nil => rwa [List.append_nil]
  | cons step _ ih =>
    have := ih (hstep hs step)
    rwa [List.append_assoc] at this

/-- A run of acts can be cut anywhere. -/
theorem Leads.exists_of_append {before after : List (Act ε)} {s t : State ε} (h : Leads fuse s (before ++ after) t) :
    ∃ m, Leads fuse s before m ∧ Leads fuse m after t := by
  induction before generalizing s with
  | nil => exact ⟨s, .nil s, h⟩
  | cons act before ih =>
    cases h with
    | cons step rest =>
      obtain ⟨m, hbefore, hafter⟩ := ih rest
      exact ⟨m, .cons step hbefore, hafter⟩

/-- From a state the run goes on with these pulls and ends with this outcome. -/
def Finishes (fuse : Fuse) (s : State ε) (pulls : List Side) (outcome : Except ε Intervals) : Prop :=
  ∃ acts t, Leads fuse s acts t ∧ acts.filterMap Act.side? = pulls ∧ t.stage = .finished outcome

theorem Finishes.pulled {s m : State ε} {side : Side} {answer : Option (Except ε TimeOfDay)} {pulls : List Side}
    {outcome : Except ε Intervals} (step : Step fuse s (.pull side answer) m) (h : Finishes fuse m pulls outcome) :
    Finishes fuse s (side :: pulls) outcome := by
  obtain ⟨acts, t, hleads, rfl, hstage⟩ := h
  exact ⟨_, t, .cons step hleads, rfl, hstage⟩

theorem Finishes.silent {s m : State ε} {act : Act ε} {pulls : List Side} {outcome : Except ε Intervals}
    (step : Step fuse s act m) (hact : act.side? = none) (h : Finishes fuse m pulls outcome) :
    Finishes fuse s pulls outcome := by
  obtain ⟨acts, t, hleads, rfl, hstage⟩ := h
  exact ⟨_, t, .cons step hleads, by rw [List.filterMap_cons, hact], hstage⟩

theorem Finishes.of_finished {s : State ε} {outcome : Except ε Intervals} (h : s.stage = .finished outcome) :
    Finishes fuse s [] outcome :=
  ⟨[], s, .nil s, rfl, h⟩

/-! ### Pulling one event after the other -/

/-- Puts a pull of an event that is counted in front. -/
def Run.counted {α : Type} (r : Run ε (Nat × α)) : Run ε (Nat × α) :=
  (r.map fun (count, rest) => (count + 1, rest)).pulled .io

section Pull

variable {bound : Option TimeOfDay} {t : TimeOfDay} (rest : Feed ε)

theorem pullBefore_cons_of_isBefore (h : isBefore t bound = true) :
    pullBefore bound (some (.ok t) :: rest) = (pullBefore bound rest).counted := by
  have hgives : givesBefore bound (some (.ok t : Except ε TimeOfDay)) = true := (givesBefore_ok bound t).trans h
  unfold pullBefore
  rw [List.takeWhile_cons_of_pos hgives, List.dropWhile_cons_of_pos hgives]
  cases rest.dropWhile (givesBefore bound) with
  | nil => rfl
  | cons answer rest =>
    match answer with
    | none | some (.ok _) | some (.error _) => rfl

theorem pullBefore_cons_of_not_isBefore (h : isBefore t bound = false) :
    pullBefore bound (some (.ok t) :: rest) = ⟨[.io], .ok (0, ⟨.holding t, rest⟩)⟩ := by
  have hgives : ¬ givesBefore bound (some (.ok t : Except ε TimeOfDay)) = true := by simp [givesBefore_ok, h]
  unfold pullBefore
  rw [List.takeWhile_cons_of_neg hgives, List.dropWhile_cons_of_neg hgives]
  rfl

end Pull

/-- How a run that has counted up to `count` goes on from the outcome of counting more events: it ends with the error,
or it makes these pulls and has this outcome. -/
inductive Continues (fuse : Fuse) (s : State ε) (bound : Option TimeOfDay) (count : Nat) (pulls : List Side)
    (outcome : Except ε Intervals) : Except ε (Nat × Events ε) → Prop
  | fault {e : ε} (pulls_eq : pulls = []) (outcome_eq : outcome = .error e) :
      Continues fuse s bound count pulls outcome (.error e)
  | counted {more : Nat} {rest : Events ε}
      (goesOn : Finishes fuse { s with stage := .counting bound (count + more), events := rest } pulls outcome) :
      Continues fuse s bound count pulls outcome (.ok (more, rest))

theorem Continues.of_map {s : State ε} {bound : Option TimeOfDay} {count : Nat} {pulls : List Side}
    {outcome : Except ε Intervals} {counted : Except ε (Nat × Events ε)}
    (h : Continues fuse s bound count pulls outcome (counted.map fun (more, rest) => (more + 1, rest))) :
    Continues fuse s bound (count + 1) pulls outcome counted := by
  cases counted with
  | error e =>
    cases h with
    | fault pulls_eq outcome_eq => exact .fault pulls_eq outcome_eq
  | ok result =>
    cases h with
    | counted goesOn => exact .counted (by rwa [Nat.add_assoc, Nat.add_comm 1])

/-- Pulling events until one is not before the bound is a run of steps. -/
theorem finishes_of_pullBefore {s : State ε} {bound : Option TimeOfDay} {feed : Feed ε} {count : Nat}
    {pulls : List Side} {outcome : Except ε Intervals}
    (h : Continues fuse s bound count pulls outcome (pullBefore bound feed).outcome) :
    Finishes fuse { s with stage := .counting bound count, events := ⟨.unknown, feed⟩ }
      ((pullBefore bound feed).pulls ++ pulls) outcome := by
  induction feed generalizing count with
  | nil =>
    cases h with
    | counted goesOn => exact .pulled (.eventsEnd rfl rfl rfl) goesOn
  | cons answer feed ih =>
    match answer with
    | none =>
      cases h with
      | counted goesOn => exact .pulled (.eventsEnd rfl rfl rfl) goesOn
    | some (.error e) =>
      cases h with
      | fault pulls_eq outcome_eq =>
        subst pulls_eq outcome_eq
        exact .pulled (.eventFault rfl rfl rfl) (.of_finished rfl)
    | some (.ok t) =>
      cases hb : isBefore t bound with
      | false =>
        rw [pullBefore_cons_of_not_isBefore feed hb] at h ⊢
        cases h with
        | counted goesOn => exact .pulled (.event rfl rfl rfl) goesOn
      | true =>
        rw [pullBefore_cons_of_isBefore feed hb] at h ⊢
        exact .pulled (.event rfl rfl rfl) (.silent (.count rfl rfl hb) rfl (ih h.of_map))

/-- So is counting, the event held first. -/
theorem finishes_of_countBefore {s : State ε} {bound : Option TimeOfDay} {pulls : List Side}
    {outcome : Except ε Intervals} (hstage : s.stage = .counting bound 0)
    (h : Continues fuse s bound 0 pulls outcome (s.events.countBefore bound).outcome) :
    Finishes fuse s ((s.events.countBefore bound).pulls ++ pulls) outcome := by
  obtain ⟨stage, commands, ⟨ahead, feed⟩, previous, counts, latencies⟩ := s
  obtain rfl : stage = .counting bound 0 := hstage
  cases ahead with
  | unknown => exact finishes_of_pullBefore h
  | ended =>
    cases h with
    | counted goesOn => exact goesOn
  | holding event =>
    simp only [Events.countBefore] at h ⊢
    split at h
    · next hb =>
      rw [if_pos hb]
      exact .silent (.count rfl rfl hb) rfl (finishes_of_pullBefore h.of_map)
    · next hb =>
      rw [if_neg hb]
      cases h with
      | counted goesOn => exact goesOn

/-- Pulling stops at an event that is not before the bound, or at the end. -/
theorem stopAt_of_pullBefore {bound : Option TimeOfDay} {feed : Feed ε} {count : Nat} {rest : Events ε}
    (h : (pullBefore bound feed).outcome = .ok (count, rest)) : rest.StopAt bound := by
  induction feed generalizing count with
  | nil =>
    obtain ⟨-, rfl⟩ := Prod.mk.inj (Except.ok.inj h)
    trivial
  | cons answer feed ih =>
    match answer with
    | none =>
      obtain ⟨-, rfl⟩ := Prod.mk.inj (Except.ok.inj h)
      trivial
    | some (.error e) => exact absurd h (by simp [pullBefore, givesBefore])
    | some (.ok t) =>
      cases hb : isBefore t bound with
      | false =>
        rw [pullBefore_cons_of_not_isBefore feed hb] at h
        obtain ⟨-, rfl⟩ := Prod.mk.inj (Except.ok.inj h)
        exact hb
      | true =>
        rw [pullBefore_cons_of_isBefore feed hb] at h
        obtain ⟨⟨more, rest'⟩, hmore, heq⟩ := Except.map_eq_ok_iff.mp h
        obtain ⟨-, rfl⟩ := Prod.mk.inj heq
        exact ih hmore

theorem stopAt_of_countBefore {bound : Option TimeOfDay} {events : Events ε} {count : Nat} {rest : Events ε}
    (h : (events.countBefore bound).outcome = .ok (count, rest)) : rest.StopAt bound := by
  obtain ⟨ahead, feed⟩ := events
  cases ahead with
  | unknown => exact stopAt_of_pullBefore h
  | ended =>
    obtain ⟨-, rfl⟩ := Prod.mk.inj (Except.ok.inj h)
    trivial
  | holding event =>
    simp only [Events.countBefore] at h
    split at h
    · obtain ⟨⟨more, rest'⟩, hmore, heq⟩ := Except.map_eq_ok_iff.mp h
      obtain ⟨-, rfl⟩ := Prod.mk.inj heq
      exact stopAt_of_pullBefore hmore
    · next hb =>
      obtain ⟨-, rfl⟩ := Prod.mk.inj (Except.ok.inj h)
      exact Bool.eq_false_iff.mpr hb

/-! ### A whole run -/

/-- Intervals behind those that are closed already. -/
def State.closedThen (s : State ε) (p : Intervals) : Intervals := ⟨s.counts ++ p.counts, s.latencies ++ p.latencies⟩

/-- Behind the last command the events are counted to their end. -/
theorem finishes_lastInterval {s : State ε} (hstage : s.stage = .between) {rest : Feed ε}
    (hnext : s.commands.next = (none, rest)) :
    Finishes fuse s (.command :: ((s.events.resumed fuse).countBefore none).pulls)
      ((((s.events.resumed fuse).countBefore none).outcome.map fun (count, _) => trailing count).map
        s.closedThen) := by
  refine .pulled (.commandsEnd hstage hnext) ?_
  rw [← List.append_nil ((s.events.resumed fuse).countBefore none).pulls]
  refine finishes_of_countBefore rfl ?_
  cases ho : ((s.events.resumed fuse).countBefore none).outcome with
  | error e => exact .fault rfl rfl
  | ok result =>
    refine .counted (.silent (.closeLast rfl (stopAt_of_countBefore ho)) rfl (.of_finished ?_))
    simp [Except.map, State.closedThen, trailing]

/-- From between two intervals the steps go on as `measureFrom` says. -/
theorem finishes_measureFrom : ∀ {feed : Feed ε} {s : State ε}, s.stage = .between → s.commands = feed →
    Finishes fuse s (measureFrom fuse s.previous s.events feed).pulls
      ((measureFrom fuse s.previous s.events feed).outcome.map s.closedThen)
  | [], _, hstage, hfeed | none :: _, _, hstage, hfeed =>
    finishes_lastInterval hstage (congrArg Feed.next hfeed)
  | some (.error e) :: _, s, hstage, hfeed =>
    .pulled (.commandFault hstage (congrArg Feed.next hfeed)) (.of_finished rfl)
  | some (.ok c) :: feed, s, hstage, hfeed => by
    have hstep : Step fuse s _ _ := .command hstage (congrArg Feed.next hfeed)
    simp only [measureFrom, Run.pulled, Run.bind]
    cases ho : ((s.events.resumed fuse).countBefore (some c)).outcome with
    | error e =>
      refine .pulled hstep ?_
      rw [← List.append_nil ((s.events.resumed fuse).countBefore (some c)).pulls]
      refine finishes_of_countBefore rfl ?_
      rw [ho]
      exact .fault rfl rfl
    | ok result =>
      obtain ⟨count, rest⟩ := result
      refine .pulled hstep (finishes_of_countBefore rfl ?_)
      rw [ho]
      refine .counted (.silent (.close rfl (stopAt_of_countBefore ho)) rfl ?_)
      have ih := finishes_measureFrom (s := { s with
        stage := .between
        commands := feed
        events := rest
        previous := some c
        counts := s.counts ++ [0 + count]
        latencies := s.latencies ++ [s.previous.map (·.elapsed c)] }) rfl rfl
      simp only [Run.map]
      convert ih using 1
      cases (measureFrom fuse (some c) rest feed).outcome with
      | error e => rfl
      | ok p => simp [Except.map, State.closedThen, Intervals.cons]

/-- **The steps from the start are the run**: they end with the outcome of `measureThrough`, and pull as it does. -/
theorem finishes_measureThrough (fuse : Fuse) (commands io : Feed ε) :
    Finishes fuse (.start commands io) (measureThrough fuse commands io).pulls
      (measureThrough fuse commands io).outcome := by
  have hsame : (measureThrough fuse commands io).outcome.map (State.start commands io).closedThen =
      (measureThrough fuse commands io).outcome := by
    cases (measureThrough fuse commands io).outcome <;> rfl
  rw [← hsame]
  exact finishes_measureFrom rfl rfl

end LogCorrelation.Intervals
