import LogCorrelation.Proofs.Intervals.FirstFault
import LogCorrelation.Proofs.Intervals.PastEnd

/-!
# Proofs.Intervals.PullDiscipline — when a run pulls from its feeds

A run looks one event ahead and no further, and it pulls nothing that it does not need.  `Disciplined` says so of a
sequence of acts alone.  The proof carries `Tracks` along a run, which ties the acts so far to the state they lead to,
so that each clause about a pull is read off the stage and the lookahead in which that pull can be made.

* `disciplined_of_leads`: the acts of a run are disciplined at every moment.
* `Drains`: what a run does behind the end of the commands.
-/

namespace LogCorrelation.Intervals

variable {ε : Type} {fuse : Fuse}

/-! ### What has been pulled and counted -/

/-- The time that an act pulls from a feed. -/
def Act.time? (side : Side) : Act ε → Option TimeOfDay
  | .pull source (some (.ok t)) => if source = side then some t else none
  | _ => none

/-- The event that an act counts. -/
def Act.counted? : Act ε → Option TimeOfDay
  | .count event => some event
  | _ => none

/-- The times pulled from a feed. -/
def pulledTimes (side : Side) (acts : List (Act ε)) : List TimeOfDay := acts.filterMap (Act.time? side)

/-- The events counted. -/
def countedEvents (acts : List (Act ε)) : List TimeOfDay := acts.filterMap Act.counted?

@[simp] theorem pulledTimes_concat (side : Side) (acts : List (Act ε)) (act : Act ε) :
    pulledTimes side (acts ++ [act]) = pulledTimes side acts ++ (act.time? side).toList := by
  cases h : act.time? side <;> simp [pulledTimes, h]

@[simp] theorem countedEvents_concat (acts : List (Act ε)) (act : Act ε) :
    countedEvents (acts ++ [act]) = countedEvents acts ++ act.counted?.toList := by
  cases h : act.counted? <;> simp [countedEvents, h]

/-- The events pulled and not counted, provided that events are counted in the order in which they are pulled. -/
def uncounted (acts : List (Act ε)) : List TimeOfDay := (pulledTimes .io acts).drop (countedEvents acts).length

/-! ### The discipline -/

/-- How a run pulls from its feeds. -/
structure Disciplined (fuse : Fuse) (acts : List (Act ε)) : Prop where
  /-- The first pull is of the commands. -/
  commandFirst : ∀ act ∈ acts.head?, act.side? = some .command
  /-- A feed that has answered nothing or an error is not pulled again, unless it is one of events that is trusted to
  answer nothing. -/
  endIsFinal : ∀ {before side answer after}, acts = before ++ .pull side answer :: after →
    ∀ earlier, .pull side earlier ∈ before →
      (∃ t, earlier = some (.ok t)) ∨ (fuse = .trusts ∧ side = .io ∧ earlier = none)
  /-- Such a feed is asked again only behind a further command. -/
  askedByCommand : ∀ {before between answer after},
    acts = before ++ .pull .io none :: between ++ .pull .io answer :: after → ∃ reply, .pull .command reply ∈ between
  /-- The events pulled are those counted and at most one more. -/
  oneAhead : ∃ held : Option TimeOfDay, pulledTimes .io acts = countedEvents acts ++ held.toList
  /-- After a command the next one is pulled only when an event not before it is held or the events have ended. -/
  commandAfterEvents : ∀ {before answer after}, acts = before ++ .pull .command answer :: after →
    ∀ t ∈ (pulledTimes .command before).getLast?, (∃ e, uncounted before = [e] ∧ t ≤ e) ∨ .pull .io none ∈ before
  /-- No event is pulled while one is held. -/
  eventIfNoneHeld : ∀ {before answer after}, acts = before ++ .pull .io answer :: after → uncounted before = []

/-! ### What the acts so far say about the state -/

/-- The event held. -/
def Events.held (events : Events ε) : Option TimeOfDay :=
  match events.ahead with
  | .holding event => some event
  | .unknown | .ended => none

@[simp] theorem held_resumed (fuse : Fuse) (events : Events ε) : (events.resumed fuse).held = events.held := by
  obtain ⟨ahead, feed⟩ := events
  cases fuse <;> cases ahead <;> rfl

@[simp] theorem feed_resumed (fuse : Fuse) (events : Events ε) : (events.resumed fuse).feed = events.feed := by
  obtain ⟨ahead, feed⟩ := events
  cases fuse <;> cases ahead <;> rfl

theorem ahead_of_ahead_resumed {events : Events ε} (h : (events.resumed fuse).ahead = .ended) :
    events.ahead = .ended ∧ fuse = .remembers := by
  obtain ⟨ahead, feed⟩ := events
  cases fuse <;> cases ahead <;> simp_all [Events.resumed]

/-- Whether a feed may be pulled again, now or later. -/
def State.Live (fuse : Fuse) (s : State ε) : Side → Prop
  | .command => s.stage = .between ∨ ∃ t count, s.stage = .counting (some t) count
  | .io => (s.events.ahead = .ended → fuse = .trusts) ∧ ∀ outcome, s.stage ≠ .finished outcome

/-- What the acts so far say about the state that they lead to. -/
structure Tracks (fuse : Fuse) (acts : List (Act ε)) (s : State ε) : Prop where
  held : pulledTimes .io acts = countedEvents acts ++ s.events.held.toList
  live : ∀ {side answer}, s.Live fuse side → .pull side answer ∈ acts →
    (∃ t, answer = some (.ok t)) ∨ (fuse = .trusts ∧ side = .io ∧ answer = none)
  ended : s.events.ahead = .ended → .pull .io none ∈ acts
  asked : s.events.ahead ≠ .ended → ∀ {before after}, acts = before ++ .pull .io none :: after →
    ∃ reply, .pull .command reply ∈ after
  bound : ∀ {t count}, s.stage = .counting (some t) count → (pulledTimes .command acts).getLast? = some t
  stop : s.stage = .between → ∀ t ∈ (pulledTimes .command acts).getLast?, s.events.StopAt (some t)

theorem tracks_start (commands io : Feed ε) : Tracks fuse [] (.start commands io) where
  held := rfl
  live _ h := absurd h (by simp)
  ended h := absurd h (by simp [State.start])
  asked _ _ _ h := absurd h (by simp)
  bound h := absurd h (by simp [State.start])
  stop _ t h := absurd h (by simp [pulledTimes])

section Step

variable {acts : List (Act ε)} {s t : State ε} {act : Act ε}

/-- No step leads on from a run that has finished. -/
theorem Step.not_finished {s t : State ε} {act : Act ε} (hstep : Step fuse s act t) (outcome : Except ε Intervals) :
    s.stage ≠ .finished outcome := by
  cases hstep <;> simp_all

/-- No step makes a feed live again. -/
theorem Step.live_of_live (hstep : Step fuse s act t) {side : Side} (h : t.Live fuse side) : s.Live fuse side := by
  cases side with
  | command => cases hstep <;> simp_all [State.Live]
  | io =>
    obtain ⟨hended, hgoing⟩ := h
    refine ⟨fun ha => ?_, fun outcome => hstep.not_finished outcome⟩
    cases hstep with
    | command | commandsEnd =>
      by_contra hfuse
      obtain rfl : fuse = .remembers := by
        cases fuse with
        | remembers => rfl
        | trusts => exact absurd rfl hfuse
      exact hfuse (hended ha)
    | event _ ahead_eq _ | eventFault _ ahead_eq _ | eventsEnd _ ahead_eq _ | count _ ahead_eq _ =>
      exact absurd (ahead_eq.symm.trans ha) (by simp)
    | commandFault | close | closeLast => exact hended ha

/-- A feed that is live after a pull of it has answered a time, or it is trusted. -/
theorem Step.answer_of_live {side : Side} {answer : Option (Except ε TimeOfDay)}
    (hstep : Step fuse s (.pull side answer) t) (h : t.Live fuse side) :
    (∃ t, answer = some (.ok t)) ∨ (fuse = .trusts ∧ side = .io ∧ answer = none) := by
  cases hstep with
  | command | event => exact .inl ⟨_, rfl⟩
  | eventsEnd => exact .inr ⟨h.1 rfl, rfl, rfl⟩
  | commandFault | commandsEnd | eventFault => simp [State.Live] at h

theorem held_of_step (h : pulledTimes .io acts = countedEvents acts ++ s.events.held.toList)
    (hstep : Step fuse s act t) :
    pulledTimes .io (acts ++ [act]) = countedEvents (acts ++ [act]) ++ t.events.held.toList := by
  rw [pulledTimes_concat, countedEvents_concat, h]
  cases hstep with
  | event _ ahead_eq _ | eventFault _ ahead_eq _ | eventsEnd _ ahead_eq _ =>
    -- nothing was held, so what is pulled is held now
    simp [Events.held, ahead_eq, Act.time?, Act.counted?]
  | count _ ahead_eq _ => simp [Events.held, ahead_eq, Act.time?, Act.counted?]
  | command | commandFault | commandsEnd | close | closeLast => simp [Act.time?, Act.counted?]

theorem ended_of_step (h : s.events.ahead = .ended → .pull .io none ∈ acts) (hstep : Step fuse s act t)
    (ht : t.events.ahead = .ended) : .pull .io none ∈ acts ++ [act] := by
  cases hstep with
  | eventsEnd => exact List.mem_append_right _ (List.mem_singleton.mpr rfl)
  | event | eventFault | count => simp at ht
  | command | commandsEnd => exact List.mem_append_left _ (h (ahead_of_ahead_resumed ht).1)
  | commandFault | close | closeLast => exact List.mem_append_left _ (h ht)

/-- Between the end of the events and a moment at which it is unknown again there is a pull of the commands. -/
theorem asked_of_step
    (h : s.events.ahead ≠ .ended → ∀ {before after}, acts = before ++ .pull .io none :: after →
      ∃ reply, .pull .command reply ∈ after)
    (hstep : Step fuse s act t) (ht : t.events.ahead ≠ .ended) {before after : List (Act ε)}
    (heq : acts ++ [act] = before ++ .pull .io none :: after) : ∃ reply, .pull .command reply ∈ after := by
  rcases List.eq_nil_or_concat after with rfl | ⟨after, last, rfl⟩
  · obtain ⟨-, hlast⟩ := List.append_inj' heq rfl
    obtain rfl : act = .pull .io none := List.singleton_inj.mp hlast
    cases hstep
    exact absurd rfl ht
  · rw [List.concat_eq_append, ← List.cons_append, ← List.append_assoc] at heq
    rw [List.concat_eq_append]
    obtain ⟨hacts, hlast⟩ := List.append_inj' heq rfl
    obtain rfl : act = last := List.singleton_inj.mp hlast
    have hbefore (hs : s.events.ahead ≠ .ended) : ∃ reply, Act.pull .command reply ∈ after ++ [act] := by
      obtain ⟨reply, hreply⟩ := h hs hacts
      exact ⟨reply, List.mem_append_left _ hreply⟩
    cases hstep with
    | command | commandsEnd | commandFault => exact ⟨_, List.mem_append_right _ (List.mem_singleton.mpr rfl)⟩
    | event _ ahead_eq _ | eventFault _ ahead_eq _ | eventsEnd _ ahead_eq _ | count _ ahead_eq _ =>
      exact hbefore (by simp [ahead_eq])
    | close | closeLast => exact hbefore ht

theorem bound_of_step
    (h : ∀ {c count}, s.stage = .counting (some c) count → (pulledTimes .command acts).getLast? = some c)
    (hstep : Step fuse s act t) {c : TimeOfDay} {count : Nat} (ht : t.stage = .counting (some c) count) :
    (pulledTimes .command (acts ++ [act])).getLast? = some c := by
  rw [pulledTimes_concat]
  cases hstep with
  | command =>
    obtain ⟨rfl, -⟩ : _ = c ∧ 0 = count := by simpa using ht
    simp [Act.time?]
  | event | eventsEnd => simpa [Act.time?] using h ht
  | count stage_eq =>
    obtain ⟨rfl, -⟩ : _ = some c ∧ _ = count := by simpa using ht
    simpa [Act.time?] using h stage_eq
  | commandFault | commandsEnd | eventFault | close | closeLast => simp at ht

/-- Only the closing of an interval leads to the pull of a command, and it waits for an event to stop at. -/
theorem stop_of_step
    (h : ∀ {c count}, s.stage = .counting (some c) count → (pulledTimes .command acts).getLast? = some c)
    (hstep : Step fuse s act t) (ht : t.stage = .between) :
    ∀ c ∈ (pulledTimes .command (acts ++ [act])).getLast?, t.events.StopAt (some c) := by
  intro c hc
  cases hstep with
  | close stage_eq stop =>
    obtain rfl : _ = c := by simpa [Act.time?, h stage_eq] using hc
    exact stop
  | event stage_eq | eventsEnd stage_eq => exact absurd (stage_eq.symm.trans ht) (by simp)
  | command | commandFault | commandsEnd | eventFault | count | closeLast => simp at ht

theorem Tracks.step (h : Tracks fuse acts s) (hstep : Step fuse s act t) : Tracks fuse (acts ++ [act]) t where
  held := held_of_step h.held hstep
  live hl hp := by
    rcases List.mem_append.mp hp with hp | hp
    · exact h.live (hstep.live_of_live hl) hp
    · obtain rfl := List.mem_singleton.mp hp
      exact hstep.answer_of_live hl
  ended := ended_of_step h.ended hstep
  asked := asked_of_step h.asked hstep
  bound := bound_of_step h.bound hstep
  stop := stop_of_step h.bound hstep

end Step

theorem tracks_of_leads {commands io : Feed ε} {acts : List (Act ε)} {s : State ε}
    (h : Leads fuse (.start commands io) acts s) : Tracks fuse acts s :=
  h.preserves Tracks.step (tracks_start commands io)

/-- Every act of a run is a step from a state that the acts before it say the truth about. -/
theorem exists_step_of_leads {commands io : Feed ε} {before after : List (Act ε)} {act : Act ε} {t : State ε}
    (h : Leads fuse (.start commands io) (before ++ act :: after) t) :
    ∃ s s', Tracks fuse before s ∧ Step fuse s act s' := by
  obtain ⟨s, hbefore, hafter⟩ := h.exists_of_append
  cases hafter with
  | cons step _ => exact ⟨s, _, tracks_of_leads hbefore, step⟩

section Pull

variable {s t : State ε} {side : Side} {answer : Option (Except ε TimeOfDay)}

theorem Step.live_of_pull (hstep : Step fuse s (.pull side answer) t) : s.Live fuse side := by
  cases hstep <;> simp_all [State.Live]

theorem Step.stage_of_pull (hstep : Step fuse s (.pull .command answer) t) : s.stage = .between := by
  cases hstep <;> assumption

theorem Step.ahead_of_pull (hstep : Step fuse s (.pull .io answer) t) : s.events.ahead = .unknown := by
  cases hstep <;> assumption

theorem Tracks.uncounted_eq {acts : List (Act ε)} (h : Tracks fuse acts s) : uncounted acts = s.events.held.toList := by
  rw [uncounted, h.held, List.drop_left]

theorem Tracks.holds_or_ended {acts : List (Act ε)} (h : Tracks fuse acts s) {c : TimeOfDay}
    (hstop : s.events.StopAt (some c)) : (∃ e, uncounted acts = [e] ∧ c ≤ e) ∨ .pull .io none ∈ acts := by
  rw [h.uncounted_eq, Events.held]
  cases ha : s.events.ahead with
  | unknown => simp [Events.StopAt, ha] at hstop
  | ended => exact .inr (h.ended ha)
  | holding e =>
    refine .inl ⟨e, rfl, ?_⟩
    simpa [Events.StopAt, ha, isBefore] using hstop

end Pull

/-- **At every moment of a run** its acts so far are disciplined. -/
theorem disciplined_of_leads {commands io : Feed ε} {acts : List (Act ε)} {s : State ε}
    (h : Leads fuse (.start commands io) acts s) : Disciplined fuse acts where
  commandFirst act hact := by
    cases h with
    | nil => simp at hact
    | cons step _ =>
      obtain rfl : _ = act := Option.some.inj hact
      cases step <;> simp_all [State.start, Act.side?]
  endIsFinal heq earlier hmem := by
    obtain ⟨m, _, htracks, hstep⟩ := exists_step_of_leads (heq ▸ h)
    exact htracks.live hstep.live_of_pull hmem
  askedByCommand heq := by
    obtain ⟨m, _, htracks, hstep⟩ := exists_step_of_leads (heq ▸ h)
    exact htracks.asked (by simp [hstep.ahead_of_pull]) rfl
  oneAhead := ⟨_, (tracks_of_leads h).held⟩
  commandAfterEvents heq c hc := by
    obtain ⟨m, _, htracks, hstep⟩ := exists_step_of_leads (heq ▸ h)
    exact htracks.holds_or_ended (htracks.stop hstep.stage_of_pull c hc)
  eventIfNoneHeld heq := by
    obtain ⟨m, _, htracks, hstep⟩ := exists_step_of_leads (heq ▸ h)
    rw [htracks.uncounted_eq, Events.held, hstep.ahead_of_pull]
    rfl

/-! ### The last interval -/

/-- The acts pull and count events, and nothing else. -/
def OnlyEvents (acts : List (Act ε)) : Prop :=
  ∀ act ∈ acts, (∃ answer, act = .pull .io answer) ∨ ∃ event, act = .count event

/-- What the acts say about a run that has met the end of the commands. -/
structure Drains (acts : List (Act ε)) (s : State ε) : Prop where
  counting : ∀ {count}, s.stage = .counting none count → ∃ before drain,
    acts = before ++ .pull .command none :: drain ∧ OnlyEvents drain ∧ (countedEvents drain).length = count
  finished : ∀ {p}, s.stage = .finished (.ok p) → s.events.ahead = .ended ∧ ∃ before drain,
    acts = before ++ .pull .command none :: drain ++ [.close] ∧ OnlyEvents drain ∧
      p.counts.getLast? = some (countedEvents drain).length

theorem drains_start (commands io : Feed ε) : Drains [] (.start commands io) where
  counting h := absurd h (by simp [State.start])
  finished h := absurd h (by simp [State.start])

theorem onlyEvents_concat {acts : List (Act ε)} {act : Act ε} (h : OnlyEvents acts)
    (hact : (∃ answer, act = .pull .io answer) ∨ ∃ event, act = .count event) : OnlyEvents (acts ++ [act]) := by
  intro a ha
  rcases List.mem_append.mp ha with ha | ha
  · exact h a ha
  · exact List.mem_singleton.mp ha ▸ hact

section Step

variable {acts : List (Act ε)} {s t : State ε} {act : Act ε} {count : Nat}

/-- Behind the last command a pull of an event or its counting makes the last interval longer. -/
theorem Drains.exists_of_counting (h : Drains acts s) (hs : s.stage = .counting none count)
    (hact : (∃ answer, act = .pull .io answer) ∨ ∃ event, act = .count event) :
    ∃ before drain, acts ++ [act] = before ++ .pull .command none :: drain ∧ OnlyEvents drain ∧
      (countedEvents drain).length = count + act.counted?.toList.length := by
  obtain ⟨before, drain, rfl, honly, hcount⟩ := h.counting hs
  refine ⟨before, drain ++ [act], by simp, onlyEvents_concat honly hact, ?_⟩
  rw [countedEvents_concat, List.length_append, hcount]

theorem Drains.counting_of_step (h : Drains acts s) (hstep : Step fuse s act t) (ht : t.stage = .counting none count) :
    ∃ before drain, acts ++ [act] = before ++ .pull .command none :: drain ∧ OnlyEvents drain ∧
      (countedEvents drain).length = count := by
  cases hstep with
  | commandsEnd =>
    obtain rfl : 0 = count := by simpa using ht
    exact ⟨acts, [], rfl, by simp [OnlyEvents], rfl⟩
  | event => exact h.exists_of_counting ht (.inl ⟨_, rfl⟩)
  | eventsEnd => exact h.exists_of_counting ht (.inl ⟨_, rfl⟩)
  | count stage_eq =>
    obtain ⟨rfl, rfl⟩ : _ = none ∧ _ = count := by simpa using ht
    exact h.exists_of_counting stage_eq (.inr ⟨_, rfl⟩)
  | command | commandFault | eventFault | close | closeLast => simp at ht

theorem Drains.finished_of_step (h : Drains acts s) (hstep : Step fuse s act t) {p : Intervals}
    (ht : t.stage = .finished (.ok p)) : t.events.ahead = .ended ∧ ∃ before drain,
      acts ++ [act] = before ++ .pull .command none :: drain ++ [.close] ∧ OnlyEvents drain ∧
        p.counts.getLast? = some (countedEvents drain).length := by
  cases hstep with
  | closeLast stage_eq stop =>
    obtain rfl : _ = p := by simpa using ht
    obtain ⟨before, drain, rfl, honly, hcount⟩ := h.counting stage_eq
    refine ⟨?_, before, drain, rfl, honly, by simp [hcount]⟩
    -- every event is before the missing bound, so none is held
    cases ha : s.events.ahead <;> simp_all [Events.StopAt, isBefore]
  | event stage_eq | eventsEnd stage_eq => exact absurd (stage_eq.symm.trans ht) (by simp)
  | command | commandFault | commandsEnd | eventFault | count | close => simp at ht

theorem Drains.step (h : Drains acts s) (hstep : Step fuse s act t) : Drains (acts ++ [act]) t where
  counting := h.counting_of_step hstep
  finished := h.finished_of_step hstep

end Step

theorem drains_of_leads {commands io : Feed ε} {acts : List (Act ε)} {s : State ε}
    (h : Leads fuse (.start commands io) acts s) : Drains acts s :=
  h.preserves Drains.step (drains_start commands io)

end LogCorrelation.Intervals
