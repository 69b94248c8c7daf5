import LogCorrelation.Log.Reader

/-!
# Log.Lines — what a log says, line by line

The lines of a log, all at once, and what reading has to answer for each of them.  `transcript` goes through the
lines in order and stops at the first fault.  `Legible` says which lines can be read at all, and `timesIn` gives the
times in lines that can.
-/

namespace LogCorrelation.Log

/-- The lines of a run of bytes.  A line feed ends a line; bytes after the last one are a line of their own. -/
def lines : List UInt8 → List (List UInt8)
  | [] => []
  | b :: bs =>
    if b = lineFeed then
      [] :: lines bs
    else
      match lines bs with
      | [] => [[b]]
      | line :: rest => (b :: line) :: rest

theorem lines_append_lineFeed : ∀ {held : List UInt8} (bs : List UInt8), lineFeed ∉ held →
    lines (held ++ lineFeed :: bs) = held :: lines bs
  | [], bs, _ => by simp [lines]
  | b :: held, bs, h => by
    rw [List.mem_cons, not_or] at h
    rw [List.cons_append, lines, if_neg (Ne.symm h.1), lines_append_lineFeed bs h.2]

theorem lines_of_not_mem : ∀ {held : List UInt8}, lineFeed ∉ held → held ≠ [] → lines held = [held]
  | [b], h, _ => by
    rw [List.mem_singleton] at h
    simp [lines, Ne.symm h]
  | b :: c :: held, h, _ => by
    rw [List.mem_cons, not_or] at h
    rw [lines, if_neg (Ne.symm h.1), lines_of_not_mem h.2 (by simp)]

/-! ### Sources without faults -/

/-- Whether a delivery hands out bytes or is read over. -/
def Delivery.isData : Delivery → Bool
  | .bytes _ | .interrupted => true
  | .endOfFile | .fault _ => false

/-- The bytes of a delivery. -/
def Delivery.data : Delivery → List UInt8
  | .bytes bs => bs
  | _ => []

/-- The bytes that a source hands out in all. -/
def Source.data (source : Source) : List UInt8 := source.flatMap Delivery.data

/-! ### The text in a line -/

/-- The text of a line without the blanks at its ends, if the line is UTF-8. -/
def trimmed? (line : List UInt8) : Option String := (String.fromUTF8? ⟨line.toArray⟩).map Text.trim

/-- Whether a line is UTF-8 and, without the blanks at its ends, empty or a time of day. -/
def Legible (line : List UInt8) : Prop := ∃ text ∈ trimmed? line, text = "" ∨ ∃ t, TimeOfDay.parse text = .ok t

instance : DecidablePred Legible := fun line =>
  have (text : String) : Decidable (∃ t, TimeOfDay.parse text = .ok t) :=
    match TimeOfDay.parse text with
    | .ok t => .isTrue ⟨t, rfl⟩
    | .error _ => .isFalse fun ⟨_, ht⟩ => absurd ht (by simp)
  inferInstanceAs (Decidable (∃ text ∈ trimmed? line, text = "" ∨ ∃ t, TimeOfDay.parse text = .ok t))

/-- Whether a line holds blanks only. -/
def isBlankLine (line : List UInt8) : Bool := trimmed? line == some ""

/-- The time in a line, if there is one. -/
def timeIn? (line : List UInt8) : Option TimeOfDay := (trimmed? line).bind fun text => (TimeOfDay.parse text).toOption

/-- The times in lines. -/
def timesIn (ls : List (List UInt8)) : List TimeOfDay := ls.filterMap timeIn?

/-- A line is not text, or is blank, or its text is no time, or it is one. -/
theorem line_cases (line : List UInt8) :
    trimmed? line = none ∨ trimmed? line = some "" ∨
      (∃ text cause, trimmed? line = some text ∧ text ≠ "" ∧ TimeOfDay.parse text = .error cause) ∨
      ∃ text t, trimmed? line = some text ∧ text ≠ "" ∧ TimeOfDay.parse text = .ok t := by
  cases h : trimmed? line with
  | none => exact .inl rfl
  | some text =>
    by_cases hne : text = ""
    · exact .inr (.inl (congrArg some hne))
    · cases hparse : TimeOfDay.parse text with
      | error cause => exact .inr (.inr (.inl ⟨text, cause, rfl, hne, hparse⟩))
      | ok t => exact .inr (.inr (.inr ⟨text, t, rfl, hne, hparse⟩))

/-! ### Answers -/

/-- The answers for the lines from here on up to the first that is nothing, with the number of lines read after each;
`count` lines have been read and `last` is the last time among them. -/
def transcript (name : String) (count : Nat) (last : Option TimeOfDay) : List (List UInt8) → List (Answer × Nat)
  | [] => [(none, count)]
  | line :: rest =>
    match trimmed? line with
    | none =>
      [(some (.error (.unreadable name (count + 1) "stream did not contain valid UTF-8")), count), (none, count)]
    | some text =>
      if text = "" then
        transcript name (count + 1) last rest
      else
        match TimeOfDay.parse text with
        | .error cause =>
          [(some (.error (.malformed name (count + 1) ⟨text, cause.defect⟩)), count + 1), (none, count + 1)]
        | .ok t =>
          match last.filter (t < ·) with
          | some later => [(some (.error (.outOfOrder name (count + 1) later t)), count + 1), (none, count + 1)]
          | none => (some (.ok t), count + 1) :: transcript name (count + 1) (some t) rest

section Transcript

variable (name : String) (count : Nat) (last : Option TimeOfDay) {line : List UInt8} (rest : List (List UInt8))

theorem transcript_notText (h : trimmed? line = none) :
    transcript name count last (line :: rest) =
      [(some (.error (.unreadable name (count + 1) "stream did not contain valid UTF-8")), count), (none, count)] := by
  rw [transcript, h]

theorem transcript_blank (h : trimmed? line = some "") :
    transcript name count last (line :: rest) = transcript name (count + 1) last rest := by
  rw [transcript, h]
  rfl

variable {text : String} (h : trimmed? line = some text) (hne : text ≠ "")

include h hne

theorem transcript_malformed {cause : TimeOfDay.Malformed} (hparse : TimeOfDay.parse text = .error cause) :
    transcript name count last (line :: rest) =
      [(some (.error (.malformed name (count + 1) ⟨text, cause.defect⟩)), count + 1), (none, count + 1)] := by
  simp only [transcript, h, hne, if_false, hparse]

variable {t : TimeOfDay} (hparse : TimeOfDay.parse text = .ok t)

include hparse

theorem transcript_outOfOrder {last : Option TimeOfDay} {later : TimeOfDay}
    (hlast : last.filter (t < ·) = some later) :
    transcript name count last (line :: rest) =
      [(some (.error (.outOfOrder name (count + 1) later t)), count + 1), (none, count + 1)] := by
  simp only [transcript, h, hne, if_false, hparse, hlast]

theorem transcript_time {last : Option TimeOfDay} (hlast : last.filter (t < ·) = none) :
    transcript name count last (line :: rest) =
      (some (.ok t), count + 1) :: transcript name (count + 1) (some t) rest := by
  simp only [transcript, h, hne, if_false, hparse, hlast]

end Transcript

end LogCorrelation.Log
