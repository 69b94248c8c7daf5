/-!
# Settings — what a run of the program works on

Where the two logs are, how many commands stand behind one command time, what the two kinds of batches are called,
and whether the unknown first latency is filled in.  `check` states the two rules that settings have to keep.
-/

namespace LogCorrelation

/-- The settings of a run; the defaults hold where nothing else is said. -/
structure Settings where
  /-- The log of command times. -/
  commandLog : String := "bench/timestamps.txt"
  /-- The log of event times. -/
  ioLog : String := "bench/io_timestamps.txt"
  /-- The number of commands from one command time to the next, for titles. -/
  batchSize : Nat := 10000
  /-- The label of batches at even indices. -/
  evenLabel : String := "PUT"
  /-- The label of batches at odd indices. -/
  oddLabel : String := "GET"
  /-- Whether the unknown first latency is replaced by the one at index 2. -/
  fillFirst : Bool := true
deriving DecidableEq, Repr

namespace Settings

/-- Why settings cannot be used. -/
inductive Fault
  /-- The text is not a document of settings. -/
  | notADocument
  | zeroBatchSize
  | sameLabels (label : String)
deriving DecidableEq, Repr

/-- The wording of a fault. -/
def Fault.message : Fault → String
  | .notADocument => "Failed to parse TOML configuration"
  | .zeroBatchSize => "batch_size must be greater than zero"
  | .sameLabels label => s!"even_label and odd_label must differ (both are '{label}')"

/-- Refuses a batch size of zero and equal labels. -/
def check (s : Settings) : Except Fault Unit :=
  if s.batchSize = 0 then .error .zeroBatchSize
  else if s.evenLabel = s.oddLabel then .error (.sameLabels s.evenLabel)
  else .ok ()

/-- Settings pass the check if and only if they keep both rules. -/
theorem check_eq_ok_iff (s : Settings) : s.check = .ok () ↔ 0 < s.batchSize ∧ s.evenLabel ≠ s.oddLabel := by
  unfold check
  split
  · simp [*]
  · split <;> simp_all [Nat.pos_iff_ne_zero]

end Settings

end LogCorrelation
