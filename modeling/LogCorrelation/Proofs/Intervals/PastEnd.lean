import LogCorrelation.Proofs.Intervals.Stepwise

/-!
# Proofs.Intervals.PastEnd — what a feed answers behind its end

A run that remembers the end of the events does not see what their feed would answer there.  A run that trusts the feed
asks it again, and relies on a promise: once the feed has answered nothing, it answers nothing for ever (`KeepsEnd`).
Under that promise the two runs differ in their pulls only.

* `keepsEnd_of_countBefore`: counting keeps the promise.
* `measureThrough_untilEnd`: what would follow the end of a feed has no influence on a run.
* `outcome_measureThrough`: both kinds of run have the same outcome.
-/

namespace LogCorrelation.Intervals

variable {ε : Type}

/-! ### Feeds that keep their end -/

/-- Nothing is left, and the feed says so whenever it is asked. -/
def Feed.Spent (feed : Feed ε) : Prop := ∀ answer ∈ feed, answer = none

/-- Once the feed has answered nothing, it goes on answering nothing. -/
def Feed.KeepsEnd (feed : Feed ε) : Prop := Feed.Spent (feed.dropWhile Option.isSome)

/-- The feed of the events keeps its end, and it is spent if the end has been met. -/
def Events.KeepsEnd (events : Events ε) : Prop :=
  match events.ahead with
  | .ended => events.feed.Spent
  | .unknown | .holding _ => events.feed.KeepsEnd

@[simp] theorem spent_nil : Feed.Spent ([] : Feed ε) := fun _ h => absurd h List.not_mem_nil

theorem Feed.Spent.of_cons {answer : Option (Except ε TimeOfDay)} {feed : Feed ε} (h : Feed.Spent (answer :: feed)) :
    answer = none ∧ feed.Spent :=
  ⟨h answer List.mem_cons_self, fun a ha => h a (List.mem_cons_of_mem _ ha)⟩

@[simp] theorem keepsEnd_cons_none (feed : Feed ε) : Feed.KeepsEnd (none :: feed) ↔ feed.Spent := by
  simp [Feed.KeepsEnd, Feed.Spent]

@[simp] theorem keepsEnd_cons_some (answer : Except ε TimeOfDay) (feed : Feed ε) :
    Feed.KeepsEnd (some answer :: feed) ↔ feed.KeepsEnd := by
  simp [Feed.KeepsEnd]

theorem Feed.Spent.keepsEnd {feed : Feed ε} (h : feed.Spent) : feed.KeepsEnd :=
  fun answer hmem => h answer ((List.dropWhile_suffix _).subset hmem)

theorem Feed.Spent.times_eq {feed : Feed ε} (h : feed.Spent) : feed.times = [] := by
  cases feed with
  | nil => rfl
  | cons answer feed =>
    obtain ⟨rfl, -⟩ := h.of_cons
    rfl

section Next

variable {feed rest : Feed ε} {answer : Option (Except ε TimeOfDay)}

theorem Feed.Spent.eq_none_of_next (h : feed.Spent) (hnext : feed.next = (answer, rest)) : answer = none := by
  cases feed with
  | nil => exact (Prod.mk.inj hnext).1.symm
  | cons first feed =>
    obtain ⟨rfl, -⟩ := Prod.mk.inj hnext
    exact h.of_cons.1

theorem Feed.KeepsEnd.spent_of_next (h : feed.KeepsEnd) (hnext : feed.next = (none, rest)) : rest.Spent := by
  cases feed with
  | nil =>
    obtain ⟨-, rfl⟩ := Prod.mk.inj hnext
    exact spent_nil
  | cons first feed =>
    obtain ⟨rfl, rfl⟩ := Prod.mk.inj hnext
    exact (keepsEnd_cons_none _).mp h

theorem Feed.KeepsEnd.of_next (h : feed.KeepsEnd) (hnext : feed.next = (answer, rest)) : rest.KeepsEnd := by
  cases answer with
  | none => exact (h.spent_of_next hnext).keepsEnd
  | some answer =>
    cases feed with
    | nil => exact absurd (Prod.mk.inj hnext).1 (by simp)
    | cons first feed =>
      obtain ⟨rfl, rfl⟩ := Prod.mk.inj hnext
      exact (keepsEnd_cons_some _ _).mp h

end Next

/-! ### Counting in such a feed -/

section Count

variable {bound : Option TimeOfDay}

theorem keepsEnd_of_pullBefore {feed : Feed ε} (hfeed : feed.KeepsEnd) {count : Nat} {rest : Events ε}
    (h : (pullBefore bound feed).outcome = .ok (count, rest)) : rest.KeepsEnd := by
  induction feed generalizing count with
  | nil =>
    obtain ⟨-, rfl⟩ := Prod.mk.inj (Except.ok.inj h)
    exact spent_nil
  | cons answer feed ih =>
    match answer with
    | none =>
      obtain ⟨-, rfl⟩ := Prod.mk.inj (Except.ok.inj h)
      exact (keepsEnd_cons_none feed).mp hfeed
    | some (.error e) => exact absurd h (by simp [pullBefore, givesBefore])
    | some (.ok t) =>
      have hfeed' : Feed.KeepsEnd feed := (keepsEnd_cons_some _ feed).mp hfeed
      cases hb : isBefore t bound with
      | false =>
        rw [pullBefore_cons_of_not_isBefore feed hb] at h
        obtain ⟨-, rfl⟩ := Prod.mk.inj (Except.ok.inj h)
        exact hfeed'
      | true =>
        rw [pullBefore_cons_of_isBefore feed hb] at h
        obtain ⟨⟨more, rest'⟩, hmore, heq⟩ := Except.map_eq_ok_iff.mp h
        obtain ⟨-, rfl⟩ := Prod.mk.inj heq
        exact ih hfeed' hmore

/-- Counting keeps the promise. -/
theorem keepsEnd_of_countBefore {events : Events ε} (hevents : events.KeepsEnd) {count : Nat} {rest : Events ε}
    (h : (events.countBefore bound).outcome = .ok (count, rest)) : rest.KeepsEnd := by
  obtain ⟨ahead, feed⟩ := events
  cases ahead with
  | unknown => exact keepsEnd_of_pullBefore hevents h
  | ended =>
    obtain ⟨-, rfl⟩ := Prod.mk.inj (Except.ok.inj h)
    exact hevents
  | holding event =>
    simp only [Events.countBefore] at h
    split at h
    · obtain ⟨⟨more, rest'⟩, hmore, heq⟩ := Except.map_eq_ok_iff.mp h
      obtain ⟨-, rfl⟩ := Prod.mk.inj heq
      exact keepsEnd_of_pullBefore hevents hmore
    · obtain ⟨-, rfl⟩ := Prod.mk.inj (Except.ok.inj h)
      exact hevents

theorem keepsEnd_resumed {fuse : Fuse} {events : Events ε} (h : events.KeepsEnd) : (events.resumed fuse).KeepsEnd := by
  obtain ⟨ahead, feed⟩ := events
  cases fuse with
  | remembers => exact h
  | trusts =>
    cases ahead with
    | ended => exact Feed.Spent.keepsEnd h
    | unknown | holding _ => exact h

/-- A spent feed is asked once and counts nothing. -/
theorem countBefore_of_spent (bound : Option TimeOfDay) {feed : Feed ε} (h : feed.Spent) :
    ∃ rest : Feed ε, rest.Spent ∧
      (Events.mk .unknown feed).countBefore bound = ⟨[.io], .ok (0, ⟨.ended, rest⟩)⟩ := by
  cases feed with
  | nil => exact ⟨[], spent_nil, rfl⟩
  | cons answer feed =>
    obtain ⟨rfl, hfeed⟩ := h.of_cons
    exact ⟨feed, hfeed, rfl⟩

/-- Behind the end of the events either kind of run counts nothing. -/
theorem outcome_countBefore_of_ended (fuse : Fuse) (bound : Option TimeOfDay) {feed : Feed ε} (h : feed.Spent) :
    ∃ rest : Feed ε, rest.Spent ∧
      (((Events.mk .ended feed).resumed fuse).countBefore bound).outcome = .ok (0, ⟨.ended, rest⟩) := by
  cases fuse with
  | remembers => exact ⟨feed, h, rfl⟩
  | trusts =>
    obtain ⟨rest, hrest, heq⟩ := countBefore_of_spent bound h
    exact ⟨rest, hrest, congrArg Run.outcome heq⟩

end Count

/-! ### The outcome -/

/-- Behind the end of the events the outcome depends on the commands alone. -/
theorem outcome_measureFrom_of_ended (fuse : Fuse) : ∀ (previous : Option TimeOfDay) {feed : Feed ε}
    (_ : feed.Spent) (commands : Feed ε), (measureFrom fuse previous ⟨.ended, feed⟩ commands).outcome =
      (measureFrom .remembers previous ⟨.ended, []⟩ commands).outcome
  | _, _, h, [] | _, _, h, none :: _ => by
    obtain ⟨rest, -, heq⟩ := outcome_countBefore_of_ended fuse none h
    simp only [measureFrom, Run.pulled, Run.map, heq]
    rfl
  | _, _, _, some (.error _) :: _ => rfl
  | previous, _, h, some (.ok c) :: commands => by
    obtain ⟨rest, hrest, heq⟩ := outcome_countBefore_of_ended fuse (some c) h
    have ih := outcome_measureFrom_of_ended fuse (some c) hrest commands
    simp only [measureFrom, Run.pulled]
    rw [Run.outcome_bind heq]
    simp only [Run.map, ih]
    rfl

theorem outcome_measureFrom_trusts (commands : Feed ε) (previous : Option TimeOfDay) {events : Events ε}
    (h : events.KeepsEnd) : (measureFrom .trusts previous events commands).outcome =
      (measureFrom .remembers previous events commands).outcome := by
  by_cases hend : events.ahead = .ended
  · obtain ⟨ahead, feed⟩ := events
    obtain rfl : ahead = .ended := hend
    rw [outcome_measureFrom_of_ended .trusts previous h, outcome_measureFrom_of_ended .remembers previous h]
  · match commands with
    | [] | none :: _ => simp only [measureFrom, resumed_of_ahead_ne _ hend]
    | some (.error _) :: _ => rfl
    | some (.ok c) :: commands =>
      simp only [measureFrom, resumed_of_ahead_ne _ hend, Run.pulled]
      refine Run.outcome_bind_congr fun counted hcounted => ?_
      obtain ⟨count, rest⟩ := counted
      have ih := outcome_measureFrom_trusts commands (some c) (keepsEnd_of_countBefore h hcounted)
      simp only [Run.map, ih]

/-- **The outcome** does not depend on who remembers the end of the events. -/
theorem outcome_measureThrough {fuse : Fuse} {io : Feed ε} (h : fuse = .trusts → io.KeepsEnd) (commands : Feed ε) :
    (measureThrough fuse commands io).outcome = (measure commands io).outcome := by
  cases fuse with
  | remembers => rfl
  | trusts => exact outcome_measureFrom_trusts commands none (h rfl)

/-! ### Items past the end -/

/-- The answers of a feed up to the first that is no time, that one included. -/
def Feed.untilEnd : Feed ε → Feed ε
  | some (.ok t) :: rest => some (.ok t) :: Feed.untilEnd rest
  | answer :: _ => [answer]
  | [] => []

/-- The same events, their feed cut behind its end. -/
def Events.untilEnd (events : Events ε) : Events ε :=
  match events.ahead with
  | .ended => ⟨.ended, []⟩
  | ahead => ⟨ahead, events.feed.untilEnd⟩

theorem ahead_untilEnd (events : Events ε) : events.untilEnd.ahead = events.ahead := by
  obtain ⟨ahead, feed⟩ := events
  cases ahead <;> rfl

theorem Run.bind_map {α β γ : Type} (r : Run ε α) (f : α → β) (g : β → Run ε γ) :
    (r.map f).bind g = r.bind fun a => g (f a) := by
  obtain ⟨pulls, outcome⟩ := r
  cases outcome <;> rfl

theorem Run.map_map {α β γ : Type} (r : Run ε α) (f : α → β) (g : β → γ) :
    (r.map f).map g = r.map fun a => g (f a) := by
  obtain ⟨pulls, outcome⟩ := r
  cases outcome <;> rfl

theorem Run.map_pulled {α β : Type} (r : Run ε α) (side : Side) (f : α → β) :
    (r.pulled side).map f = (r.map f).pulled side := rfl

theorem pullBefore_untilEnd (bound : Option TimeOfDay) : ∀ feed : Feed ε,
    pullBefore bound feed.untilEnd = (pullBefore bound feed).map fun (count, rest) => (count, rest.untilEnd)
  | [] | none :: _ | some (.error _) :: _ => rfl
  | some (.ok t) :: feed => by
    rw [Feed.untilEnd]
    cases hb : isBefore t bound with
    | false =>
      rw [pullBefore_cons_of_not_isBefore _ hb, pullBefore_cons_of_not_isBefore _ hb]
      rfl
    | true =>
      rw [pullBefore_cons_of_isBefore _ hb, pullBefore_cons_of_isBefore _ hb, pullBefore_untilEnd bound feed]
      simp only [Run.counted, Run.map_pulled, Run.map_map]

theorem countBefore_untilEnd (bound : Option TimeOfDay) (events : Events ε) :
    events.untilEnd.countBefore bound =
      (events.countBefore bound).map fun (count, rest) => (count, rest.untilEnd) := by
  obtain ⟨ahead, feed⟩ := events
  cases ahead with
  | ended => rfl
  | unknown => exact pullBefore_untilEnd bound feed
  | holding event =>
    show (Events.mk (.holding event) feed.untilEnd).countBefore bound = _
    simp only [Events.countBefore]
    split
    · rw [pullBefore_untilEnd, Run.map_map, Run.map_map]
    · rfl

theorem countBefore_resumed_untilEnd {fuse : Fuse} (bound : Option TimeOfDay) {events : Events ε}
    (h : fuse = .trusts → events.KeepsEnd) :
    (events.untilEnd.resumed fuse).countBefore bound =
      ((events.resumed fuse).countBefore bound).map fun (count, rest) => (count, rest.untilEnd) := by
  by_cases hend : events.ahead = .ended
  · obtain ⟨ahead, feed⟩ := events
    obtain rfl : ahead = .ended := hend
    cases fuse with
    | remembers => rfl
    | trusts =>
      obtain ⟨rest, -, heq⟩ := countBefore_of_spent bound (h rfl)
      show _ = Run.map _ ((Events.mk .unknown feed).countBefore bound)
      rw [heq]
      rfl
  · have hend' : events.untilEnd.ahead ≠ .ended := by rwa [ahead_untilEnd]
    rw [resumed_of_ahead_ne fuse hend, resumed_of_ahead_ne fuse hend', countBefore_untilEnd]

theorem measureFrom_untilEnd {fuse : Fuse} : ∀ (previous : Option TimeOfDay) {events : Events ε}
    (_ : fuse = .trusts → events.KeepsEnd) (feed : Feed ε),
    measureFrom fuse previous events.untilEnd feed.untilEnd = measureFrom fuse previous events feed
  | previous, events, h, [] | previous, events, h, none :: _ => by
    simp only [Feed.untilEnd, measureFrom, countBefore_resumed_untilEnd none h, Run.map_map]
  | _, _, _, some (.error _) :: _ => rfl
  | previous, events, h, some (.ok c) :: feed => by
    simp only [Feed.untilEnd, measureFrom, countBefore_resumed_untilEnd (some c) h, Run.bind_map]
    refine congrArg (Run.pulled .command) (Run.bind_congr fun counted hcounted => ?_)
    obtain ⟨count, rest⟩ := counted
    have hkeeps : fuse = .trusts → rest.KeepsEnd := fun hf =>
      keepsEnd_of_countBefore (keepsEnd_resumed (h hf)) hcounted
    simp only [measureFrom_untilEnd (some c) hkeeps feed]

/-- **What would follow the end** of a feed has no influence on a run. -/
theorem measureThrough_untilEnd {fuse : Fuse} {io : Feed ε} (h : fuse = .trusts → io.KeepsEnd) (commands : Feed ε) :
    measureThrough fuse commands.untilEnd io.untilEnd = measureThrough fuse commands io := by
  have hevents : fuse = .trusts → (Events.mk .unknown io).KeepsEnd := h
  exact measureFrom_untilEnd none hevents commands

end LogCorrelation.Intervals
