import LogCorrelation.Intervals.Basic
import LogCorrelation.TimeOfDay.Basic

/-!
# Intervals.OnePass — counting events in one pass over two feeds

Both feeds are pulled item by item.  After a command has been pulled, events are pulled until one is not before it;
that event is held for a later interval.  Whatever is left after the last command falls into the last interval.

* The first error pulled from either feed ends the run; nothing is reported beside it.
* The commands are not pulled again once they have answered nothing.  Neither are the events, unless their feed is one
  that vouches for its end (`Fuse`): then each later interval asks it once more.
* `Run.pulls` records from which feed each pull was made.
-/

namespace LogCorrelation.Intervals

/-- The answers of a source of times, one for each pull; past the last one it answers nothing. -/
abbrev Feed (ε : Type) := List (Option (Except ε TimeOfDay))

/-- The feed from which a pull is made. -/
inductive Side
  | command
  | io
deriving DecidableEq, Repr

/-- A run's outcome, and the pulls it made. -/
structure Run (ε α : Type) where
  pulls : List Side
  outcome : Except ε α

variable {ε α β : Type}

/-- Goes on with a run's value; an error ends the run. -/
def Run.bind (r : Run ε α) (f : α → Run ε β) : Run ε β :=
  match r.outcome with
  | .error e => ⟨r.pulls, .error e⟩
  | .ok a =>
    let next := f a
    ⟨r.pulls ++ next.pulls, next.outcome⟩

/-- A run that makes no pull. -/
def Run.pure (a : α) : Run ε α := ⟨[], .ok a⟩

/-- The same run with a pull in front. -/
def Run.pulled (side : Side) (r : Run ε α) : Run ε α := ⟨side :: r.pulls, r.outcome⟩

/-- The same run with its value changed. -/
def Run.map (f : α → β) (r : Run ε α) : Run ε β := ⟨r.pulls, r.outcome.map f⟩

/-! ### Events -/

/-- What is known of the next event. -/
inductive Lookahead
  /-- It has not been pulled. -/
  | unknown
  /-- It has been pulled and is not counted yet. -/
  | holding (event : TimeOfDay)
  /-- There is none. -/
  | ended
deriving DecidableEq

/-- The events that are not counted yet. -/
structure Events (ε : Type) where
  ahead : Lookahead
  feed : Feed ε

/-- What keeps the events from being pulled behind their end. -/
inductive Fuse
  /-- The run itself: it remembers the end and asks no more. -/
  | remembers
  /-- Nothing: the type of the feed promises that it goes on answering nothing, and a run relies on that. -/
  | trusts
deriving DecidableEq, Repr

/-- The events as the next interval finds them; an end that nobody remembers is unknown again. -/
def Events.resumed (fuse : Fuse) (events : Events ε) : Events ε :=
  match fuse with
  | .remembers => events
  | .trusts =>
    match events.ahead with
    | .ended => ⟨.unknown, events.feed⟩
    | .unknown | .holding _ => events

/-- Whether an event is before the end of an interval; the last interval has none. -/
def isBefore (event : TimeOfDay) : Option TimeOfDay → Bool
  | none => true
  | some bound => event < bound

/-- Whether a pull gives an event that is before `bound`. -/
def givesBefore (bound : Option TimeOfDay) : Option (Except ε TimeOfDay) → Bool
  | some (.ok event) => isBefore event bound
  | _ => false

/-- Pulls and counts events until a pull gives none that is before `bound`. -/
def pullBefore (bound : Option TimeOfDay) (feed : Feed ε) : Run ε (Nat × Events ε) :=
  let count := (feed.takeWhile (givesBefore bound)).length
  let pulls := List.replicate (count + 1) Side.io
  match feed.dropWhile (givesBefore bound) with
  | some (.ok event) :: rest => ⟨pulls, .ok (count, ⟨.holding event, rest⟩)⟩
  | some (.error e) :: _ => ⟨pulls, .error e⟩
  | none :: rest => ⟨pulls, .ok (count, ⟨.ended, rest⟩)⟩
  | [] => ⟨pulls, .ok (count, ⟨.ended, []⟩)⟩

/-- Counts the events before `bound`, the one held first. -/
def Events.countBefore (bound : Option TimeOfDay) (events : Events ε) : Run ε (Nat × Events ε) :=
  match events.ahead with
  | .ended => .pure (0, events)
  | .unknown => pullBefore bound events.feed
  | .holding event =>
    if isBefore event bound then
      (pullBefore bound events.feed).map fun (count, events) => (count + 1, events)
    else
      .pure (0, events)

/-! ### Commands -/

/-- The intervals from here on, `previous` being the last command. -/
def measureFrom (fuse : Fuse) (previous : Option TimeOfDay) (events : Events ε) : Feed ε → Run ε Intervals
  | some (.ok command) :: rest =>
    (((events.resumed fuse).countBefore (some command)).bind fun (count, events) =>
      (measureFrom fuse (some command) events rest).map
        (Intervals.cons count (previous.map (·.elapsed command)))).pulled .command
  | some (.error e) :: _ => ⟨[.command], .error e⟩
  | none :: _ | [] =>
    (((events.resumed fuse).countBefore none).map fun (count, _) => trailing count).pulled .command

/-- The intervals of a feed of commands and a feed of events of either kind. -/
def measureThrough (fuse : Fuse) (commands io : Feed ε) : Run ε Intervals :=
  measureFrom fuse none ⟨.unknown, io⟩ commands

/-- The intervals of a feed of commands and a feed of events that may answer anything behind its end. -/
def measure (commands io : Feed ε) : Run ε Intervals := measureThrough .remembers commands io

end LogCorrelation.Intervals
