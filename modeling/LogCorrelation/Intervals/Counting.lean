import LogCorrelation.Intervals.Basic
import LogCorrelation.TimeOfDay.Basic

/-!
# Intervals.Counting — counts and latencies by definition

For ordered times the count of an interval is the number of events between its ends, the first included and the last
not.  For times in any order an event belongs to the first interval, not before that of the event before it, whose
closing command it precedes.
-/

namespace LogCorrelation.Intervals

/-- Whether a time is not below `lower` and is below `upper`; an end that is missing excludes nothing. -/
def between (lower upper : Option TimeOfDay) (t : TimeOfDay) : Bool :=
  lower.all (· ≤ t) && upper.all (t < ·)

/-- The command that opens an interval, the first having none. -/
def opening (commands : List TimeOfDay) (interval : Nat) : Option TimeOfDay :=
  if interval = 0 then none else commands[interval - 1]?

/-- The command that closes an interval, the last having none. -/
def closing (commands : List TimeOfDay) (interval : Nat) : Option TimeOfDay := commands[interval]?

/-- The number of events in an interval. -/
def countIn (commands io : List TimeOfDay) (interval : Nat) : Nat :=
  io.countP (between (opening commands interval) (closing commands interval))

/-- The first interval from `start` on whose closing command is after an event; the last interval if none is. -/
def firstClosingAfter (commands : List TimeOfDay) (start : Nat) (event : TimeOfDay) : Nat :=
  start + ((commands.drop start).takeWhile fun command => !(event < command)).length

/-- The intervals of events in order, none before `start`. -/
def attribution (commands : List TimeOfDay) (start : Nat) : List TimeOfDay → List Nat
  | [] => []
  | event :: rest =>
    let interval := firstClosingAfter commands start event
    interval :: attribution commands interval rest

end LogCorrelation.Intervals
