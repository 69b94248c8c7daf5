import LogCorrelation.Proofs.Intervals.PullDiscipline

/-!
# Proofs.Intervals.PullCount — how often a run pulls from its feeds

The pulls made so far and those still to come stay the same in sum, so a run that succeeds has pulled each feed once more
than it has times.  Only a feed of events that is trusted to keep its end is pulled more often: it is asked again once
for each command, or end of the commands, that is pulled behind its own end.

* `pullCount_add_pullsLeft`, `Reasks`: the sum that a step keeps, for either kind of run.
* `pullCount_of_finished`: the pulls of a run that succeeds.
* `measureThrough_pulls_disciplined`: numbers, order and effect of all pulls.
-/

namespace LogCorrelation.Intervals

variable {ε : Type} {fuse : Fuse}

/-! ### The number of pulls -/

/-- How often a feed is pulled from here on if no error is met. -/
def State.pullsLeft (s : State ε) : Side → Nat
  | .command =>
    match s.stage with
    | .between | .counting (some _) _ => s.commands.times.length + 1
    | .counting none _ | .finished _ => 0
  | .io =>
    match s.events.ahead with
    | .unknown | .holding _ => s.events.feed.times.length + 1
    | .ended => 0

/-- How often the acts pull from a feed. -/
def pullCount (side : Side) (acts : List (Act ε)) : Nat := acts.countP (·.side? == some side)

theorem times_of_next_eq_ok {feed rest : Feed ε} {t : TimeOfDay} (h : feed.next = (some (.ok t), rest)) :
    feed.times = t :: rest.times := by
  cases feed with
  | nil => exact absurd h (by simp [Feed.next])
  | cons answer feed =>
    obtain ⟨rfl, rfl⟩ := Prod.mk.inj h
    rfl

theorem times_of_next_eq_none {feed rest : Feed ε} (h : feed.next = (none, rest)) : feed.times = [] := by
  cases feed with
  | nil => rfl
  | cons answer feed =>
    obtain ⟨rfl, -⟩ := Prod.mk.inj h
    rfl

/-- A step uses up one pull of the feed it pulls from, unless it makes the end of the events unknown again. -/
theorem Step.pullsLeft_eq {s t : State ε} {act : Act ε} (hstep : Step fuse s act t)
    (ht : ∀ e, t.stage ≠ .finished (.error e)) (side : Side)
    (hside : side = .io → s.stage = .between → s.events.resumed fuse = s.events) :
    s.pullsLeft side = t.pullsLeft side + pullCount side [act] := by
  cases hstep with
  | command stage_eq next_eq =>
    cases side with
    | command => simp [State.pullsLeft, pullCount, Act.side?, stage_eq, times_of_next_eq_ok next_eq]
    | io => simp [State.pullsLeft, pullCount, Act.side?, hside rfl stage_eq]
  | commandsEnd stage_eq next_eq =>
    cases side with
    | command => simp [State.pullsLeft, pullCount, Act.side?, stage_eq, times_of_next_eq_none next_eq]
    | io => simp [State.pullsLeft, pullCount, Act.side?, hside rfl stage_eq]
  | event stage_eq ahead_eq next_eq =>
    cases side <;> simp [State.pullsLeft, pullCount, Act.side?, ahead_eq, times_of_next_eq_ok next_eq]
  | eventsEnd stage_eq ahead_eq next_eq =>
    cases side <;> simp [State.pullsLeft, pullCount, Act.side?, ahead_eq, times_of_next_eq_none next_eq]
  | @count bound _ _ stage_eq ahead_eq _ =>
    cases side <;> cases bound <;> simp [State.pullsLeft, pullCount, Act.side?, stage_eq, ahead_eq]
  | close stage_eq _ | closeLast stage_eq _ =>
    cases side <;> simp [State.pullsLeft, pullCount, Act.side?, stage_eq]
  | commandFault | eventFault => exact absurd rfl (ht _)

theorem pullCount_concat (side : Side) (acts : List (Act ε)) (act : Act ε) :
    pullCount side (acts ++ [act]) = pullCount side acts + pullCount side [act] := List.countP_append

/-- While no error has been met, the pulls made and those left make up all that a feed can answer: the commands always,
the events if the run remembers their end. -/
theorem pullCount_add_pullsLeft {commands io : Feed ε} {acts : List (Act ε)} {s : State ε}
    (h : Leads fuse (.start commands io) acts s) (hs : ∀ e, s.stage ≠ .finished (.error e)) (side : Side)
    (hside : side = .io → fuse = .remembers) :
    pullCount side acts + s.pullsLeft side = (State.start commands io).pullsLeft side := by
  let P (acts : List (Act ε)) (s : State ε) : Prop := (∀ e, s.stage ≠ .finished (.error e)) →
    pullCount side acts + s.pullsLeft side = (State.start commands io).pullsLeft side
  have hstart : P [] (.start commands io) := fun _ => Nat.zero_add _
  refine h.preserves (P := P) (fun {acts s act t} ih hstep ht => ?_) hstart hs
  have hresumed : side = .io → s.stage = .between → s.events.resumed fuse = s.events := fun hio _ => by
    rw [hside hio, resumed_remembers]
  rw [← ih fun e => hstep.not_finished _, hstep.pullsLeft_eq ht side hresumed, pullCount_concat]
  omega

/-! ### Pulls behind the end of the events -/

/-- Whether an act meets the end of the events. -/
def Act.endsEvents : Act ε → Bool
  | .pull .io none => true
  | _ => false

/-- How often the commands are pulled behind the first end of the events. -/
def commandsPastEnd (acts : List (Act ε)) : Nat := pullCount .command (acts.dropWhile fun act => !act.endsEvents)

/-- How often the events are asked again behind their first end: never if the run remembers it, else once for each
further pull of the commands. -/
def askedAgain (fuse : Fuse) (acts : List (Act ε)) : Nat :=
  match fuse with
  | .remembers => 0
  | .trusts => commandsPastEnd acts

theorem endsEvents_iff {act : Act ε} : act.endsEvents = true ↔ act = .pull .io none := by
  constructor
  · intro h
    match act with
    | .pull .io none => rfl
    | .pull .io (some _) | .pull .command _ | .count _ | .close => exact absurd h (by simp [Act.endsEvents])
  · rintro rfl
    rfl

theorem dropWhile_endsEvents_eq_nil_iff {acts : List (Act ε)} :
    acts.dropWhile (fun act => !act.endsEvents) = [] ↔ .pull .io none ∉ acts := by
  rw [List.dropWhile_eq_nil_iff]
  constructor
  · intro h hmem
    simpa [Act.endsEvents] using h _ hmem
  · intro h act hact
    by_contra hends
    obtain rfl := endsEvents_iff.mp (by simpa using hends)
    exact h hact

section PastEnd

variable {acts : List (Act ε)} {act : Act ε}

theorem commandsPastEnd_of_not_mem (h : .pull .io none ∉ acts) : commandsPastEnd acts = 0 := by
  rw [commandsPastEnd, dropWhile_endsEvents_eq_nil_iff.mpr h]
  rfl

theorem commandsPastEnd_concat_of_mem (h : .pull .io none ∈ acts) :
    commandsPastEnd (acts ++ [act]) = commandsPastEnd acts + pullCount .command [act] := by
  have hne : (acts.dropWhile fun act => !act.endsEvents).isEmpty = false := by
    rw [List.isEmpty_eq_false_iff]
    exact fun hnil => dropWhile_endsEvents_eq_nil_iff.mp hnil h
  rw [commandsPastEnd, List.dropWhile_append, hne]
  exact pullCount_concat ..

/-- Only a pull of the commands behind the end of the events adds to those pulls. -/
theorem commandsPastEnd_concat_eq (h : .pull .io none ∈ acts → pullCount .command [act] = 0) :
    commandsPastEnd (acts ++ [act]) = commandsPastEnd acts := by
  by_cases hmem : .pull .io none ∈ acts
  · rw [commandsPastEnd_concat_of_mem hmem, h hmem, Nat.add_zero]
  · rw [commandsPastEnd_of_not_mem hmem]
    by_cases hact : act = .pull .io none
    · subst hact
      have hnil := dropWhile_endsEvents_eq_nil_iff.mpr hmem
      rw [commandsPastEnd, List.dropWhile_append, hnil]
      rfl
    · refine commandsPastEnd_of_not_mem fun hmem' => ?_
      rcases List.mem_append.mp hmem' with hmem' | hmem'
      · exact hmem hmem'
      · exact hact (List.mem_singleton.mp hmem').symm

end PastEnd

/-- What the acts of a run that trusts the feed of events say about the state, `total` being the number of pulls up to
the first end of the events. -/
structure Reasks (total : Nat) (acts : List (Act ε)) (s : State ε) : Prop where
  keeps : s.events.feed.KeepsEnd
  met : s.events.ahead = .ended → .pull .io none ∈ acts
  spent : .pull .io none ∈ acts → s.events.feed.Spent ∧ s.events.held = none
  between : s.stage = .between → .pull .io none ∈ acts → s.events.ahead = .ended
  count : (∀ e, s.stage ≠ .finished (.error e)) →
    pullCount .io acts + s.pullsLeft .io = total + commandsPastEnd acts

theorem reasks_start {io : Feed ε} (hio : io.KeepsEnd) (commands : Feed ε) :
    Reasks (io.times.length + 1) [] (.start commands io) where
  keeps := hio
  met h := absurd h (by simp [State.start])
  spent h := absurd h List.not_mem_nil
  between _ h := absurd h List.not_mem_nil
  count _ := by simp [State.pullsLeft, State.start, pullCount, commandsPastEnd]

section Reasks

variable {total : Nat} {acts : List (Act ε)} {s t : State ε} {act : Act ε}

theorem mem_of_mem_concat (h : .pull .io none ∈ acts ++ [act]) (hact : act ≠ .pull .io none) :
    .pull .io none ∈ acts := by
  rcases List.mem_append.mp h with h | h
  · exact h
  · exact absurd (List.mem_singleton.mp h).symm hact

theorem Reasks.keeps_of_step (h : Reasks total acts s) (hstep : Step .trusts s act t) : t.events.feed.KeepsEnd := by
  cases hstep with
  | command | commandsEnd => simpa using h.keeps
  | event _ _ next_eq | eventFault _ _ next_eq => exact h.keeps.of_next next_eq
  | eventsEnd _ _ next_eq => exact (h.keeps.spent_of_next next_eq).keepsEnd
  | commandFault | count | close | closeLast => exact h.keeps

theorem Reasks.spent_of_step (h : Reasks total acts s) (hstep : Step .trusts s act t)
    (hmem : .pull .io none ∈ acts ++ [act]) : t.events.feed.Spent ∧ t.events.held = none := by
  cases hstep with
  | eventsEnd _ _ next_eq => exact ⟨h.keeps.spent_of_next next_eq, rfl⟩
  | command | commandsEnd => simpa using h.spent (mem_of_mem_concat hmem (by simp))
  | event _ _ next_eq | eventFault _ _ next_eq =>
    have hspent := (h.spent (mem_of_mem_concat hmem (by simp))).1
    exact absurd (hspent.eq_none_of_next next_eq) (by simp)
  | count => exact ⟨(h.spent (mem_of_mem_concat hmem (by simp))).1, rfl⟩
  | commandFault | close | closeLast => exact h.spent (mem_of_mem_concat hmem (by simp))

theorem Reasks.between_of_step (h : Reasks total acts s) (hstep : Step .trusts s act t) (ht : t.stage = .between)
    (hmem : .pull .io none ∈ acts ++ [act]) : t.events.ahead = .ended := by
  cases hstep with
  | close _ stop =>
    have hheld := (h.spent (mem_of_mem_concat hmem (by simp))).2
    cases ha : s.events.ahead <;> simp_all [Events.StopAt, Events.held]
  | event stage_eq | eventsEnd stage_eq => exact absurd (stage_eq.symm.trans ht) (by simp)
  | command | commandFault | commandsEnd | eventFault | count | closeLast => simp at ht

theorem Reasks.count_of_step (h : Reasks total acts s) (hstep : Step .trusts s act t)
    (ht : ∀ e, t.stage ≠ .finished (.error e)) :
    pullCount .io (acts ++ [act]) + t.pullsLeft .io = total + commandsPastEnd (acts ++ [act]) := by
  have hcount := h.count fun e => hstep.not_finished _
  rw [pullCount_concat]
  by_cases hagain : s.stage = .between ∧ s.events.ahead = .ended
  · -- one more command behind the end, so the events will be asked once more
    obtain ⟨hstage, hahead⟩ := hagain
    have hmem := h.met hahead
    have htimes : s.events.feed.times = [] := (h.spent hmem).1.times_eq
    rw [commandsPastEnd_concat_of_mem hmem]
    cases hstep with
    | command | commandsEnd =>
      simp only [State.pullsLeft, hahead] at hcount
      simp [State.pullsLeft, Events.resumed, hahead, htimes, pullCount, Act.side?] at hcount ⊢
      omega
    | commandFault => exact absurd rfl (ht _)
    | event stage_eq | eventFault stage_eq | eventsEnd stage_eq | count stage_eq | close stage_eq
    | closeLast stage_eq => exact absurd (stage_eq.symm.trans hstage) (by simp)
  · have hresumed (hstage : s.stage = .between) : s.events.resumed .trusts = s.events :=
      resumed_of_ahead_ne _ fun hahead => hagain ⟨hstage, hahead⟩
    have hsame : commandsPastEnd (acts ++ [act]) = commandsPastEnd acts := by
      refine commandsPastEnd_concat_eq fun hmem => ?_
      cases hstep with
      | command stage_eq | commandFault stage_eq | commandsEnd stage_eq =>
        exact absurd ⟨stage_eq, h.between stage_eq hmem⟩ hagain
      | event | eventFault | eventsEnd | count | close | closeLast => rfl
    rw [hsame, ← hcount, hstep.pullsLeft_eq ht .io fun _ => hresumed]
    omega

theorem Reasks.step (h : Reasks total acts s) (hstep : Step .trusts s act t) : Reasks total (acts ++ [act]) t where
  keeps := h.keeps_of_step hstep
  met := ended_of_step h.met hstep
  spent := h.spent_of_step hstep
  between := h.between_of_step hstep
  count := h.count_of_step hstep

end Reasks

theorem reasks_of_leads {commands io : Feed ε} (hio : io.KeepsEnd) {acts : List (Act ε)} {s : State ε}
    (h : Leads .trusts (.start commands io) acts s) : Reasks (io.times.length + 1) acts s :=
  h.preserves Reasks.step (reasks_start hio commands)

/-! ### The whole run -/

theorem commandCount_and_eventCount_of_measure {commands io : Feed ε} {p : Intervals}
    (h : (measure commands io).outcome = .ok p) :
    p.commandCount = commands.times.length ∧ p.eventCount = io.times.length := by
  rw [eq_ofTimes_of_measure h]
  exact ⟨length_gaps _ _, sum_tally _ _⟩

/-- A run that succeeds has pulled each feed once more than it has times, and has asked the events again as often as
`askedAgain` says. -/
theorem pullCount_of_finished {commands io : Feed ε} (hio : fuse = .trusts → io.KeepsEnd) {acts : List (Act ε)}
    {s : State ε} {p : Intervals} (h : Leads fuse (.start commands io) acts s) (hs : s.stage = .finished (.ok p)) :
    pullCount .command acts = commands.times.length + 1 ∧
      pullCount .io acts = io.times.length + 1 + askedAgain fuse acts := by
  have hended : s.events.ahead = .ended := ((drains_of_leads h).finished hs).1
  have hgoing (e : ε) : s.stage ≠ .finished (.error e) := by simp [hs]
  constructor
  · have hleft := pullCount_add_pullsLeft h hgoing .command (by simp)
    simpa only [State.pullsLeft, hs, State.start, Nat.add_zero] using hleft
  · cases fuse with
    | remembers =>
      have hleft := pullCount_add_pullsLeft h hgoing .io fun _ => rfl
      simpa only [State.pullsLeft, hended, State.start, askedAgain, Nat.add_zero] using hleft
    | trusts =>
      have hleft := (reasks_of_leads (hio rfl) h).count hgoing
      simpa only [State.pullsLeft, hended, askedAgain, Nat.add_zero] using hleft

theorem count_pulls_of_measure {commands io : Feed ε} {p : Intervals} (h : (measure commands io).outcome = .ok p) :
    (measure commands io).pulls.count .command = p.commandCount + 1 ∧
      (measure commands io).pulls.count .io = p.eventCount + 1 := by
  obtain ⟨acts, s, hleads, hpulls, hstage⟩ := finishes_measureThrough .remembers commands io
  obtain ⟨hcommands, hevents⟩ := commandCount_and_eventCount_of_measure h
  rw [measure, ← hpulls, List.count_filterMap, List.count_filterMap, hcommands, hevents]
  exact pullCount_of_finished (by simp) hleads (hstage.trans (congrArg Stage.finished h))

/-- **The pulls of the single pass.**  Every run over a feed of commands and a feed of events, the latter keeping its end
if the run trusts it, is a sequence of acts that ends with the outcome of `measureThrough` and pulls as it does.  If it
succeeds, it has pulled the commands once more than it has found times there, and the events once more too, not counting
what it has asked a trusted feed again; and behind the end of the commands it only pulls and counts the events of the
last interval.  At every moment the acts so far are disciplined.  What stands in a feed behind its first end or error
changes nothing, and trust changes the pulls only. -/
theorem measureThrough_pulls_disciplined (fuse : Fuse) (commands io : Feed ε)
    (hio : fuse = .trusts → io.KeepsEnd) :
    (∃ acts s, Leads fuse (.start commands io) acts s ∧
        s.stage = .finished (measureThrough fuse commands io).outcome ∧
        acts.filterMap Act.side? = (measureThrough fuse commands io).pulls ∧
        ∀ p, (measureThrough fuse commands io).outcome = .ok p →
          (p.commandCount = commands.times.length ∧ p.eventCount = io.times.length) ∧
          (measureThrough fuse commands io).pulls.count .command = p.commandCount + 1 ∧
          (measureThrough fuse commands io).pulls.count .io = p.eventCount + 1 + askedAgain fuse acts ∧
          ∃ before drain, acts = before ++ .pull .command none :: drain ++ [.close] ∧ OnlyEvents drain ∧
            p.counts.getLast? = some (countedEvents drain).length) ∧
      (∀ acts s, Leads fuse (.start commands io) acts s → Disciplined fuse acts) ∧
      measureThrough fuse commands.untilEnd io.untilEnd = measureThrough fuse commands io ∧
      (measureThrough fuse commands io).outcome = (measure commands io).outcome := by
  refine ⟨?_, fun acts s h => disciplined_of_leads h, measureThrough_untilEnd hio commands,
    outcome_measureThrough hio commands⟩
  obtain ⟨acts, s, hleads, hpulls, hstage⟩ := finishes_measureThrough fuse commands io
  refine ⟨acts, s, hleads, hstage, hpulls, fun p hp => ?_⟩
  rw [hp] at hstage
  obtain ⟨hcommands, hevents⟩ :=
    commandCount_and_eventCount_of_measure ((outcome_measureThrough hio commands).symm.trans hp)
  obtain ⟨hcommandPulls, hioPulls⟩ := pullCount_of_finished hio hleads hstage
  rw [← hpulls, List.count_filterMap, List.count_filterMap, hcommands, hevents]
  exact ⟨⟨rfl, rfl⟩, hcommandPulls, hioPulls, ((drains_of_leads hleads).finished hstage).2⟩

/-- Commands at one, two and three seconds. -/
def threeCommands : Feed Unit :=
  .ofTimes [⟨1, 0, by decide, by decide⟩, ⟨2, 0, by decide, by decide⟩, ⟨3, 0, by decide, by decide⟩]

/-- One event, at half a second. -/
def oneEvent : Feed Unit := .ofTimes [⟨0, 500000, by decide, by decide⟩]

/-- The events end while the first command is counted, and the three pulls of commands behind that ask again. -/
theorem measureThrough_pulls_disciplined_of_one_event :
    oneEvent.KeepsEnd ∧ (measureThrough .trusts threeCommands oneEvent).pulls =
        [.command, .io, .io, .command, .io, .command, .io, .command, .io] ∧
      ∃ acts s p, Leads .trusts (.start threeCommands oneEvent) acts s ∧ s.stage = .finished (.ok p) ∧
        p.eventCount = 1 ∧ askedAgain .trusts acts = 3 ∧ Disciplined .trusts acts := by
  have hkeeps : oneEvent.KeepsEnd := by simp [oneEvent, Feed.ofTimes, Feed.KeepsEnd]
  have hpulls : (measureThrough .trusts threeCommands oneEvent).pulls =
      [.command, .io, .io, .command, .io, .command, .io, .command, .io] := by decide
  obtain ⟨p, hp⟩ : ∃ p, (measureThrough .trusts threeCommands oneEvent).outcome = .ok p := ⟨_, rfl⟩
  obtain ⟨⟨acts, s, hleads, hstage, -, hok⟩, hdisciplined, -, -⟩ :=
    measureThrough_pulls_disciplined .trusts threeCommands oneEvent fun _ => hkeeps
  obtain ⟨⟨-, hevents⟩, -, hcount, -⟩ := hok p hp
  have hone : p.eventCount = 1 := hevents
  have hasked : askedAgain .trusts acts = 3 := by
    have hfive : (measureThrough .trusts threeCommands oneEvent).pulls.count .io = 5 := by rw [hpulls]; rfl
    omega
  exact ⟨hkeeps, hpulls, acts, s, p, hleads, hstage.trans (congrArg _ hp), hone, hasked, hdisciplined acts s hleads⟩

/-- A trusted feed is pulled again behind its end: without any event, three commands make four pulls of it. -/
theorem trusted_feed_asked_again :
    (∃ p, (measureThrough .trusts threeCommands []).outcome = .ok p ∧ p.commandCount = 3 ∧ p.eventCount = 0) ∧
      (measureThrough .trusts threeCommands []).pulls.count .io = 4 ∧
      ∃ acts s, Leads .trusts (.start threeCommands []) acts s ∧
        ∃ before after, acts = before ++ .pull .io none :: after ∧ .pull .io none ∈ before := by
  refine ⟨⟨_, rfl, rfl, rfl⟩, by decide, ?_⟩
  have hruns : Leads .trusts (.start threeCommands []) _ _ := .cons (.command rfl rfl)
    (.cons (.eventsEnd rfl rfl rfl) (.cons (.close rfl trivial)
      (.cons (.command rfl rfl) (.cons (.eventsEnd rfl rfl rfl) (.nil _)))))
  exact ⟨_, _, hruns, [_, .pull .io none, .close, _], [], rfl, by simp⟩

end LogCorrelation.Intervals
