import LogCorrelation.Log.Fault
import LogCorrelation.Log.Source
import LogCorrelation.Text.Blank

/-!
# Log.Reader — a log read as an ordered sequence of times

A reader takes one line after the other, skips blank ones and expects every other to hold a time not below the last
one.  The first fault ends it: from then on it answers nothing and takes nothing.  An end of the log does not: if
more lines follow, the next call goes on with them.
-/

namespace LogCorrelation.Log

/-- What one call answers: nothing, a time, or the fault that ends the log. -/
abbrev Answer := Option (Except Fault TimeOfDay)

/-- A log being read. -/
structure Reader where
  /-- The name by which faults call the log. -/
  name : String
  /-- The answers to reading a line that have not been taken yet. -/
  pending : List LineRead
  /-- How many lines have been read, blank ones included. -/
  lineCount : Nat := 0
  /-- The last time answered. -/
  last : Option TimeOfDay := none
  /-- Whether a fault has been answered. -/
  failed : Bool := false

namespace Reader

/-- A reader at the start of a source. -/
def ofSource (name : String) (source : Source) : Reader where
  name := name
  pending := source.reads

/-! ### One line -/

/-- What the bytes of a line hold. -/
inductive Line
  | blank
  | notText
  | malformed (cause : TimeOfDay.Malformed)
  | time (t : TimeOfDay)

/-- Decodes a line, trims it and reads the time in it. -/
def Line.ofBytes (bytes : List UInt8) : Line :=
  match String.fromUTF8? ⟨bytes.toArray⟩ with
  | none => .notText
  | some text =>
    let text := Text.trim text
    if text.isEmpty then
      .blank
    else
      match TimeOfDay.parse text with
      | .error cause => .malformed cause
      | .ok t => .time t


/-! ### One call -/

/-- The reader after it has answered a fault, with `pending` left and `lineCount` lines read. -/
def fail (r : Reader) (fault : Fault) (lineCount : Nat) (pending : List LineRead) : Answer × Reader :=
  (some (.error fault), { r with lineCount, pending, failed := true })

/-- Takes lines until one is not blank, `pending` being the answers left and `lineCount` the lines read. -/
def advance (r : Reader) (lineCount : Nat) : List LineRead → Answer × Reader
  | [] => (none, { r with lineCount, pending := [] })
  | .ended :: rest => (none, { r with lineCount, pending := rest })
  | .fault text :: rest => r.fail (.unreadable r.name (lineCount + 1) text) lineCount rest
  | .line bytes :: rest =>
    match Line.ofBytes bytes with
    | .notText =>
      r.fail (.unreadable r.name (lineCount + 1) "stream did not contain valid UTF-8") lineCount rest
    | .blank => r.advance (lineCount + 1) rest
    | .malformed cause => r.fail (.malformed r.name (lineCount + 1) cause) (lineCount + 1) rest
    | .time t =>
      match r.last.filter (t < ·) with
      | some later => r.fail (.outOfOrder r.name (lineCount + 1) later t) (lineCount + 1) rest
      | none => (some (.ok t), { r with lineCount := lineCount + 1, pending := rest, last := some t })

/-- The next answer, and the reader after it. -/
def next (r : Reader) : Answer × Reader :=
  if r.failed then (none, r) else r.advance r.lineCount r.pending

/-- A reader that has failed answers nothing and takes nothing. -/
theorem next_of_failed {r : Reader} (h : r.failed = true) : r.next = (none, r) := by simp [next, h]

/-! ### Many calls -/

/-- The answers to `count` more calls after those in `done`, the last one first. -/
def callsAfter (done : List (Answer × Nat)) : Nat → Reader → List (Answer × Nat)
  | 0, _ => done.reverse
  | count + 1, r =>
    let step := r.next
    callsAfter ((step.1, step.2.lineCount) :: done) count step.2

/-- The answers to `count` calls, each with the number of lines read after it. -/
def calls (count : Nat) (r : Reader) : List (Answer × Nat) := callsAfter [] count r

theorem callsAfter_eq (done : List (Answer × Nat)) (count : Nat) (r : Reader) :
    callsAfter done count r = done.reverse ++ calls count r := by
  induction count generalizing done r with
  | zero => simp [calls, callsAfter]
  | succ count ih =>
    rw [calls, callsAfter, callsAfter, ih, ih [_]]
    simp

@[simp] theorem calls_zero (r : Reader) : r.calls 0 = [] := rfl

@[simp] theorem calls_succ (count : Nat) (r : Reader) :
    r.calls (count + 1) = (r.next.1, r.next.2.lineCount) :: r.next.2.calls count := by
  rw [calls, callsAfter, callsAfter_eq]
  rfl

/-- As many calls as can answer anything, and one more. -/
def allCalls (r : Reader) : List (Answer × Nat) := r.calls (r.pending.length + 1)

/-- The calls up to the first that answers nothing. -/
def callsToEnd (r : Reader) : List (Answer × Nat) :=
  r.allCalls.takeWhile (·.1.isSome) ++ (r.allCalls.dropWhile (·.1.isSome)).take 1

/-- The answers of a log as a feed: past its last entry there is nothing. -/
def feed (r : Reader) : List Answer := r.allCalls.map (·.1)

end Reader

end LogCorrelation.Log
