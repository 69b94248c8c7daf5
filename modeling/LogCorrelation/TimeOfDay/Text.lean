import LogCorrelation.Decimal.Digits
import LogCorrelation.TimeOfDay.Basic

/-!
# TimeOfDay.Text — times of day as fixed-width text

A time is written `HH:MM:SS.ffffff`.  Reading checks, in this order: the length in bytes, each column against the
layout, the seconds, and the hour and minute; the first check that fails names the defect.
-/

namespace LogCorrelation.TimeOfDay

/-! ### Writing -/

/-- Four fields laid out as `HH:MM:SS.ffffff`, fifteen characters. -/
def clockText (hour minute second micro : Nat) : String :=
  String.ofList
    (Decimal.padded 2 hour ++ ':' :: Decimal.padded 2 minute ++ ':' :: Decimal.padded 2 second ++
      '.' :: Decimal.padded 6 micro)

/-- The text of a time. -/
def text (t : TimeOfDay) : String := clockText t.hour t.minute t.shownSecond t.shownMicro

/-! ### Reading -/

/-- Why a text is not a time of day. -/
inductive Defect
  /-- It has not fifteen bytes. -/
  | length
  /-- The byte in this column, counted from one, is not what the layout asks for. -/
  | column (number : Nat)
  /-- The seconds exceed 59. -/
  | second
  /-- The hour exceeds 23 or the minute 59. -/
  | field
deriving DecidableEq, Repr

/-- The wording of a defect. -/
def Defect.reason : Defect → String
  | .length => "expected 15 characters (HH:MM:SS.ffffff)"
  | .column number => "unexpected character at column " ++ toString number
  | .second => "seconds out of range (00-59)"
  | .field => "input is out of range"

/-- A text that is not a time of day, and why. -/
structure Malformed where
  text : String
  defect : Defect
deriving DecidableEq, Repr

/-- The wording of a refusal. -/
def Malformed.message (m : Malformed) : String :=
  "invalid timestamp '" ++ m.text ++ "': " ++ m.defect.reason

/-- What a column of the layout holds. -/
inductive Column
  | digit
  | mark (byte : UInt8)

/-- Whether a byte may stand in a column. -/
def Column.accepts : Column → UInt8 → Bool
  | .digit, b => 48 ≤ b && b ≤ 57
  | .mark byte, b => b == byte

/-- The fifteen columns of `HH:MM:SS.ffffff`. -/
def layout : List Column :=
  [.digit, .digit, .mark 58, .digit, .digit, .mark 58, .digit, .digit, .mark 46,
    .digit, .digit, .digit, .digit, .digit, .digit]

/-- The index of the first byte that its column does not accept. -/
def misfit? : List Column → List UInt8 → Option Nat
  | c :: cs, b :: bs => if c.accepts b then (misfit? cs bs).map (· + 1) else some 0
  | _, _ => none

/-- The number that `count` digit bytes denote, from index `start` on. -/
def field (bytes : List UInt8) (start count : Nat) : Nat :=
  ((bytes.drop start).take count).foldl (fun n b => 10 * n + (b.toNat - 48)) 0

/-- The time that a text denotes, or the first defect found. -/
def parse (text : String) : Except Malformed TimeOfDay :=
  let bytes := text.toUTF8.data.toList
  if bytes.length ≠ layout.length then
    .error ⟨text, .length⟩
  else
    match misfit? layout bytes with
    | some i => .error ⟨text, .column (i + 1)⟩
    | none =>
      if 59 < field bytes 6 2 then
        .error ⟨text, .second⟩
      else
        match ofFields? (field bytes 0 2) (field bytes 3 2) (field bytes 6 2) (field bytes 9 6) with
        | some t => .ok t
        | none => .error ⟨text, .field⟩

end LogCorrelation.TimeOfDay
