/-!
# Report.RowsReader — comma-separated records read back

The reader takes one character at a time.  A field that begins with a quote runs to the quote that closes it, two
quotes standing for one; any other field runs to the next comma or line feed.  A line feed outside quotes ends the
record, and the text has to end with a record.
-/

namespace LogCorrelation.Report

/-- Where in a record the reader stands. -/
inductive RecordPlace
  | fieldStart
  | plain
  | quoted
  /-- After a quote that may close the field. -/
  | closed
deriving DecidableEq, Repr

/-- What has been read: everything with the last first. -/
structure RecordState where
  records : List (List (List Char)) := []
  fields : List (List Char) := []
  field : List Char := []
  place : RecordPlace := .fieldStart
deriving DecidableEq, Repr

namespace RecordState

/-- One more character of the field. -/
def push (s : RecordState) (c : Char) (place : RecordPlace) : RecordState :=
  { s with field := c :: s.field, place }

/-- The field is complete. -/
def endField (s : RecordState) : RecordState :=
  { s with fields := s.field.reverse :: s.fields, field := [], place := .fieldStart }

/-- The record is complete. -/
def endRecord (s : RecordState) : RecordState :=
  { records := s.endField.fields.reverse :: s.records }

/-- The reader after one more character. -/
def step (s : RecordState) (c : Char) : Option RecordState :=
  match s.place with
  | .quoted => some (if c = '"' then { s with place := .closed } else s.push c .quoted)
  | .closed =>
    if c = '"' then some (s.push c .quoted)
    else if c = ',' then some s.endField
    else if c = '\n' then some s.endRecord
    else none
  | place =>
    if c = ',' then some s.endField
    else if c = '\n' then some s.endRecord
    else if c = '"' ∧ place = .fieldStart then some { s with place := .quoted }
    else some (s.push c .plain)

end RecordState

/-- The records of a text. -/
def readRecords (s : String) : Option (List (List String)) :=
  match s.toList.foldlM RecordState.step {} with
  | some ⟨records, [], [], .fieldStart⟩ => some (records.reverse.map (·.map String.ofList))
  | _ => none

end LogCorrelation.Report
