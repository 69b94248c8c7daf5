import LogCorrelation.Intervals.OnePass
import Mathlib.Data.List.TakeWhile

/-!
# Proofs.Intervals.Feed — what a run can see of its feeds

A run sees of a feed only the times before its end (`Feed.times`) and the error that ends it, if there is one
(`Feed.fault?`).  The same two views of the events that are not counted yet tell what one counting step does:
it takes the times before its bound, and it meets the error exactly when no time is left in front of it.

* `countBefore_eq_ok`: a step that does not meet the error.
* `countBefore_failsWith`: a step that does.
-/

namespace LogCorrelation.Intervals

variable {ε α β : Type}

/-! ### The two views of a feed -/

/-- The times that a feed answers before its first error or its end. -/
def Feed.times : Feed ε → List TimeOfDay
  | some (.ok t) :: rest => t :: Feed.times rest
  | some (.error _) :: _ | none :: _ | [] => []

/-- The error that a feed answers before its end. -/
def Feed.fault? : Feed ε → Option ε
  | some (.ok _) :: rest => Feed.fault? rest
  | some (.error e) :: _ => some e
  | none :: _ | [] => none

/-- The feed that answers times in order and then nothing. -/
def Feed.ofTimes (ts : List TimeOfDay) : Feed ε := ts.map fun t => some (.ok t)

@[simp] theorem times_ok (t : TimeOfDay) (rest : Feed ε) :
    Feed.times (some (.ok t) :: rest) = t :: rest.times := rfl

@[simp] theorem fault?_ok (t : TimeOfDay) (rest : Feed ε) :
    Feed.fault? (some (.ok t) :: rest) = rest.fault? := rfl

@[simp] theorem times_ofTimes (ts : List TimeOfDay) : (Feed.ofTimes ts : Feed ε).times = ts := by
  induction ts with
  | nil => rfl
  | cons t ts ih => exact congrArg (t :: ·) ih

@[simp] theorem fault?_ofTimes (ts : List TimeOfDay) : (Feed.ofTimes ts : Feed ε).fault? = none := by
  induction ts with
  | nil => rfl
  | cons t ts ih => exact ih

/-! ### Pulling past the times before a bound -/

section Pull

variable (bound : Option TimeOfDay)

theorem givesBefore_ok (t : TimeOfDay) :
    givesBefore bound (some (.ok t : Except ε TimeOfDay)) = isBefore t bound := by
  cases bound <;> rfl

theorem length_takeWhile_givesBefore : ∀ feed : Feed ε,
    (feed.takeWhile (givesBefore bound)).length = (feed.times.takeWhile (isBefore · bound)).length
  | [] | none :: _ | some (.error _) :: _ => rfl
  | some (.ok t) :: rest => by
    have ih := length_takeWhile_givesBefore rest
    cases h : isBefore t bound <;> simp [h, givesBefore_ok, ih]

theorem times_dropWhile_givesBefore : ∀ feed : Feed ε,
    Feed.times (feed.dropWhile (givesBefore bound)) = feed.times.dropWhile (isBefore · bound)
  | [] | none :: _ | some (.error _) :: _ => rfl
  | some (.ok t) :: rest => by
    have ih := times_dropWhile_givesBefore rest
    cases h : isBefore t bound <;> simp [h, givesBefore_ok, ih]

theorem fault?_dropWhile_givesBefore : ∀ feed : Feed ε,
    Feed.fault? (feed.dropWhile (givesBefore bound)) = feed.fault?
  | [] | none :: _ | some (.error _) :: _ => rfl
  | some (.ok t) :: rest => by
    have ih := fault?_dropWhile_givesBefore rest
    cases h : isBefore t bound <;> simp [h, givesBefore_ok, ih]

end Pull

/-! ### Runs that an error ended -/

/-- The run ended with an error, which the feed `side` answered to the last pull. -/
structure Run.FailsWith (r : Run ε α) (side : Side) (e : ε) : Prop where
  outcome_eq : r.outcome = .error e
  getLast?_pulls : r.pulls.getLast? = some side

namespace Run.FailsWith

variable {r : Run ε α} {side : Side} {e : ε}

theorem pulled (h : r.FailsWith side e) (first : Side) : (r.pulled first).FailsWith side e := by
  refine ⟨h.outcome_eq, ?_⟩
  rw [Run.pulled, List.getLast?_cons, h.getLast?_pulls]
  rfl

theorem map (h : r.FailsWith side e) (f : α → β) : (r.map f).FailsWith side e :=
  ⟨by rw [Run.map, h.outcome_eq]; rfl, h.getLast?_pulls⟩

theorem bind_left (h : r.FailsWith side e) (f : α → Run ε β) : (r.bind f).FailsWith side e := by
  rw [Run.bind, h.outcome_eq]
  exact ⟨rfl, h.getLast?_pulls⟩

theorem bind_right {a : α} {f : α → Run ε β} (ha : r.outcome = .ok a) (h : (f a).FailsWith side e) :
    (r.bind f).FailsWith side e := by
  rw [Run.bind, ha]
  refine ⟨h.outcome_eq, ?_⟩
  rw [List.getLast?_append, h.getLast?_pulls]
  rfl

end Run.FailsWith

theorem Run.outcome_bind {r : Run ε α} {a : α} (h : r.outcome = .ok a) (f : α → Run ε β) :
    (r.bind f).outcome = (f a).outcome := by
  rw [Run.bind, h]

theorem Run.bind_congr {r : Run ε α} {f g : α → Run ε β} (h : ∀ a, r.outcome = .ok a → f a = g a) :
    r.bind f = r.bind g := by
  cases hr : r.outcome with
  | error e => simp only [Run.bind, hr]
  | ok a => simp only [Run.bind, hr, h a hr]

theorem Run.outcome_bind_congr {r : Run ε α} {f g : α → Run ε β}
    (h : ∀ a, r.outcome = .ok a → (f a).outcome = (g a).outcome) : (r.bind f).outcome = (r.bind g).outcome := by
  cases hr : r.outcome with
  | error e => simp only [Run.bind, hr]
  | ok a => rw [Run.outcome_bind hr, Run.outcome_bind hr, h a hr]

/-! ### The events that are not counted yet -/

/-- The times of the events that are not counted yet, the one held first. -/
def Events.times (events : Events ε) : List TimeOfDay :=
  match events.ahead with
  | .ended => []
  | .unknown => events.feed.times
  | .holding event => event :: events.feed.times

@[simp] theorem resumed_remembers (events : Events ε) : events.resumed .remembers = events := rfl

theorem resumed_of_ahead_ne {events : Events ε} (fuse : Fuse) (h : events.ahead ≠ .ended) :
    events.resumed fuse = events := by
  obtain ⟨ahead, feed⟩ := events
  cases fuse with
  | remembers => rfl
  | trusts =>
    cases ahead with
    | ended => exact absurd rfl h
    | unknown | holding _ => rfl

/-- The error behind the events that are not counted yet. -/
def Events.fault? (events : Events ε) : Option ε :=
  match events.ahead with
  | .ended => none
  | .unknown | .holding _ => events.feed.fault?

/-- What is left of the events after those before a bound. -/
structure Events.After (events : Events ε) (bound : Option TimeOfDay) (rest : Events ε) : Prop where
  times_eq : rest.times = events.times.dropWhile (isBefore · bound)
  fault?_eq : rest.fault? = events.fault?

/-- Pulling stops at a time that is not before the bound, or at the end of a feed without an error. -/
theorem pullBefore_eq_ok (bound : Option TimeOfDay) (feed : Feed ε)
    (h : feed.times.dropWhile (isBefore · bound) ≠ [] ∨ feed.fault? = none) :
    ∃ rest : Events ε,
      (pullBefore bound feed).outcome = .ok ((feed.times.takeWhile (isBefore · bound)).length, rest) ∧
      rest.times = feed.times.dropWhile (isBefore · bound) ∧ rest.fault? = feed.fault? := by
  rw [← length_takeWhile_givesBefore, ← times_dropWhile_givesBefore, ← fault?_dropWhile_givesBefore bound feed] at *
  unfold pullBefore
  cases hd : feed.dropWhile (givesBefore bound) with
  | nil => exact ⟨⟨.ended, []⟩, rfl, rfl, rfl⟩
  | cons item rest =>
    match item with
    | none => exact ⟨⟨.ended, rest⟩, rfl, rfl, rfl⟩
    | some (.ok event) => exact ⟨⟨.holding event, rest⟩, rfl, rfl, rfl⟩
    | some (.error e) =>
      rw [hd] at h
      rcases h with h | h
      · exact absurd rfl h
      · exact absurd h (by simp [Feed.fault?])

/-- Pulling meets the error of a feed whose times are all before the bound. -/
theorem pullBefore_failsWith {bound : Option TimeOfDay} {feed : Feed ε} {e : ε}
    (h : feed.times.dropWhile (isBefore · bound) = []) (he : feed.fault? = some e) :
    (pullBefore bound feed).FailsWith .io e := by
  rw [← times_dropWhile_givesBefore] at h
  rw [← fault?_dropWhile_givesBefore bound feed] at he
  unfold pullBefore
  cases hd : feed.dropWhile (givesBefore bound) with
  | nil => rw [hd] at he; exact absurd he (by simp [Feed.fault?])
  | cons item rest =>
    rw [hd] at h he
    match item with
    | none => exact absurd he (by simp [Feed.fault?])
    | some (.ok event) => exact absurd h (by simp)
    | some (.error e') =>
      obtain rfl : e' = e := by simpa [Feed.fault?] using he
      exact ⟨rfl, by simp [List.getLast?_replicate]⟩

/-- **A counting step that does not meet the error** counts the times before its bound and leaves the others. -/
theorem countBefore_eq_ok (bound : Option TimeOfDay) (events : Events ε)
    (h : events.times.dropWhile (isBefore · bound) ≠ [] ∨ events.fault? = none) :
    ∃ rest, (events.countBefore bound).outcome = .ok ((events.times.takeWhile (isBefore · bound)).length, rest) ∧
      events.After bound rest := by
  obtain ⟨ahead, feed⟩ := events
  cases ahead with
  | ended => exact ⟨⟨.ended, feed⟩, rfl, rfl, rfl⟩
  | unknown =>
    obtain ⟨rest, hr, ht, hf⟩ := pullBefore_eq_ok bound feed h
    exact ⟨rest, hr, ht, hf⟩
  | holding event =>
    cases hb : isBefore event bound with
    | true =>
      simp only [Events.times, List.dropWhile_cons, List.takeWhile_cons, hb, if_true] at h ⊢
      obtain ⟨rest, hr, ht, hf⟩ := pullBefore_eq_ok bound feed h
      refine ⟨rest, ?_, ?_, hf⟩
      · simp only [Events.countBefore, hb, if_true, Run.map, hr]
        rfl
      · simp only [Events.times, List.dropWhile_cons, hb, if_true]
        exact ht
    | false =>
      refine ⟨⟨.holding event, feed⟩, ?_, ?_, rfl⟩
      · simp [Events.countBefore, Events.times, Run.pure, hb]
      · simp [Events.times, hb]

/-- **A counting step that meets the error**: all times are before its bound. -/
theorem countBefore_failsWith {bound : Option TimeOfDay} {events : Events ε} {e : ε}
    (h : events.times.dropWhile (isBefore · bound) = []) (he : events.fault? = some e) :
    (events.countBefore bound).FailsWith .io e := by
  obtain ⟨ahead, feed⟩ := events
  cases ahead with
  | ended => exact absurd he (by simp [Events.fault?])
  | unknown => exact pullBefore_failsWith h he
  | holding event =>
    simp only [Events.times, List.dropWhile_cons] at h
    split at h
    · next hb =>
      simp only [Events.countBefore, hb, if_true]
      exact (pullBefore_failsWith h he).map _
    · exact absurd h (by simp)

end LogCorrelation.Intervals
