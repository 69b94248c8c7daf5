/-!
# Log.Source — a log as its storage hands it out, and as lines

A source is a sequence of deliveries: bytes in any division, faults, interruptions, and end-of-file answers after
which more may follow.  `reads` turns it into the sequence of answers that reading line by line gives.

* A line ends at a line feed, or where the source says that it has ended; the line feed is not part of it.
* An interruption is read over.  A fault wins over the bytes of an unfinished line, which are lost with it.
-/

namespace LogCorrelation.Log

/-- One answer of the storage behind a log. -/
inductive Delivery
  /-- Bytes; without any it is a piece of no length, which the reader passes over.  A storage that has nothing to hand
  out answers `endOfFile` instead. -/
  | bytes (bs : List UInt8)
  | endOfFile
  | fault (text : String)
  | interrupted
deriving DecidableEq, Repr

/-- What a log's storage hands out, in order; after the last delivery it is at its end. -/
abbrev Source := List Delivery

/-- One answer of reading a line. -/
inductive LineRead
  | line (bytes : List UInt8)
  | ended
  | fault (text : String)
deriving DecidableEq, Repr

/-- The byte at which a line ends. -/
def lineFeed : UInt8 := 10

/-- Bytes cut into lines as far as they have been handed out. -/
structure Cut where
  /-- The lines that are complete, the last one first. -/
  lines : List (List UInt8) := []
  /-- The bytes of the line that is not, the last one first. -/
  held : List UInt8 := []
deriving DecidableEq, Repr

/-- The cut with one more byte. -/
def Cut.push (c : Cut) (b : UInt8) : Cut :=
  if b = lineFeed then ⟨c.held.reverse :: c.lines, []⟩ else { c with held := b :: c.held }

/-- The cut with more bytes. -/
def Cut.append (c : Cut) (bs : List UInt8) : Cut := bs.foldl push c

/-- How bytes are divided does not show in the cut. -/
theorem Cut.append_append (c : Cut) (xs ys : List UInt8) : c.append (xs ++ ys) = (c.append xs).append ys :=
  List.foldl_append

/-- The answers to reading line by line, after the bytes in `held`, the last one first. -/
def readsFrom (held : List UInt8) : Source → List LineRead
  | [] => if held.isEmpty then [] else [.line held.reverse]
  | .bytes bs :: rest =>
    let c := Cut.append { held } bs
    c.lines.reverse.map .line ++ readsFrom c.held rest
  | .endOfFile :: rest => (if held.isEmpty then .ended else .line held.reverse) :: readsFrom [] rest
  | .fault text :: rest => .fault text :: readsFrom [] rest
  | .interrupted :: rest => readsFrom held rest

/-- The answers to reading a source line by line; past the last one the source has ended. -/
def Source.reads (source : Source) : List LineRead := readsFrom [] source

end LogCorrelation.Log
