import LogCorrelation.Intervals.Basic

/-!
# Intervals.FirstLatency — a value for the latency of the first command

The first command has no predecessor, so its latency is unknown.  `fillFirst` takes the latency at index 2 for it:
commands alternate between two kinds, and index 2 is the next one of the first kind.
-/

namespace LogCorrelation.Intervals

/-- Why the first latency cannot be filled in. -/
inductive FirstLatencyFault
  /-- There are one or two commands only. -/
  | tooFew (commands : Nat)
  /-- The latency at this index is unknown, though only the first may be. -/
  | missing (index : Nat)
deriving DecidableEq, Repr

/-- The wording of a fault. -/
def FirstLatencyFault.message : FirstLatencyFault → String
  | .tooFew commands => s!"cannot correct first latency: need at least 3 command timestamps, got {commands}"
  | .missing index => s!"latency at index {index} is missing"

/-- All latencies, if each is known; otherwise the index of the first that is not, counted from `index`. -/
def known (index : Nat) : List (Option Float) → Except FirstLatencyFault (List Float)
  | [] => .ok []
  | none :: _ => .error (.missing index)
  | some latency :: rest => (known (index + 1) rest).map (latency :: ·)

/-- The latencies with the first replaced by the one at index 2. -/
def fillFirst : List (Option Float) → Except FirstLatencyFault (List Float)
  | [] => .ok []
  | [_] => .error (.tooFew 1)
  | [_, _] => .error (.tooFew 2)
  | _ :: _ :: none :: _ => .error (.missing 2)
  | _ :: second :: some third :: rest => (known 1 (second :: some third :: rest)).map (third :: ·)

end LogCorrelation.Intervals
