import LogCorrelation.Report.DataLine

/-!
# Report.TableReader — the tables of the plain report read back

A table stands between an empty line and the next one.  The reader is told the labels, as a label may look like anything;
it passes over what follows the label in the same line.  In every other line of a table blanks separate the columns, and
a column of which nothing but blanks is seen can only be the last.  Nothing may be left behind the last table.
-/

namespace LogCorrelation.Report

/-- A row of a table: the number of a batch, its count, and what is seen of its latency. -/
structure TableRow where
  batch : Nat
  count : Nat
  latency : Option (List Char)
deriving DecidableEq, Repr

/-- The texts between blanks. -/
def words (line : List Char) : List (List Char) := (line.splitOn ' ').filter (· ≠ [])

/-- The row with these columns. -/
def TableRow.ofColumns? (batch count : List Char) (latency : Option (List Char)) : Option TableRow := do
  return ⟨← readCount batch, ← readCount count, latency⟩

/-- The row that a line shows. -/
def TableRow.read (line : List Char) : Option TableRow :=
  match words line with
  | [batch, count] => ofColumns? batch count none
  | [batch, count, latency] => ofColumns? batch count (some latency)
  | _ => none

/-- The titles of the columns. -/
def columnTitles : List (List Char) := ["batch".toList, "io_requests".toList, "latency_ms".toList]

/-- What follows the first line. -/
def afterLine (cs : List Char) : List Char := (cs.dropWhile (· ≠ '\n')).drop 1

/-- The rows between the titles and the next empty line, and what follows from the line feed in front of it on. -/
def readRows (cs : List Char) : Option (List TableRow × List Char) :=
  match cs.splitOn '\n' with
  | titles :: lines =>
    if words titles = columnTitles then
      ((lines.takeWhile (· ≠ [])).mapM TableRow.read).map fun rows =>
        (rows, ['\n'].intercalate (lines.dropWhile (· ≠ [])))
    else
      none
  | [] => none

/-- The tables under these labels, in order. -/
def readTablesUnder : List String → List Char → Option (List (List TableRow))
  | [], cs => if cs = [] then some [] else none
  | label :: labels, cs =>
    let start := '\n' :: label.toList
    if start.isPrefixOf cs then
      match readRows (afterLine (cs.drop start.length)) with
      | some (rows, rest) => (readTablesUnder labels rest).map (rows :: ·)
      | none => none
    else
      none

/-- The tables of a plain report, which follow its first two lines. -/
def readTables (labels : List String) (s : String) : Option (List (List TableRow)) :=
  readTablesUnder labels (afterLine (afterLine s.toList))

end LogCorrelation.Report
