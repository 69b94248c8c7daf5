/-!
# Intervals — counts and latencies of the intervals between commands

The times of the commands cut the day into intervals: one that ends at each command and one after the last.  A run
counts the events in each and takes the latency from each command to the next.
-/

namespace LogCorrelation

/-- What was measured over the intervals between commands. -/
structure Intervals where
  /-- The number of events in each interval; the last interval follows the last command. -/
  counts : List Nat
  /-- For each command the milliseconds since the one before, if known. -/
  latencies : List (Option Float)

namespace Intervals

/-- The number of commands. -/
def commandCount (p : Intervals) : Nat := p.latencies.length

/-- The number of events in all intervals. -/
def eventCount (p : Intervals) : Nat := p.counts.foldr (· + ·) 0

/-- The intervals of no commands, with `count` events. -/
def trailing (count : Nat) : Intervals := ⟨[count], []⟩

/-- Puts an interval of `count` events that ends at a command in front. -/
def cons (count : Nat) (latency : Option Float) (p : Intervals) : Intervals :=
  ⟨count :: p.counts, latency :: p.latencies⟩

end Intervals

end LogCorrelation
