import LogCorrelation.Decimal.Float

/-!
# Json — JSON values and their indented text

Lists and objects have each element on a line of its own, two blanks deeper; empty ones are written closed.  Text
escapes only what JSON requires.  Reals have the fewest digits that read back, and what is no finite number is null.
-/

namespace LogCorrelation

/-- A JSON value; numbers are natural or real. -/
inductive Json
  | null
  | truth (b : Bool)
  | count (n : Nat)
  | real (x : Float)
  | text (s : String)
  | list (items : List Json)
  | object (fields : List (String × Json))

namespace Json

/-! ### Numbers and text -/

/-- Reals have an exponent from 1e16 on and below 1e-5, with its sign. -/
def realLayout : Decimal.Layout where
  tie := .toEven
  leastPlain := -5
  greatestPlain := 15
  mark := "e+"
  notANumber := "null"
  infinity := "null"
  negativeInfinity := "null"

/-- A character within a text. -/
def escape (c : Char) : List Char :=
  if c = '"' then ['\\', '"']
  else if c = '\\' then ['\\', '\\']
  else if c = '\x08' then ['\\', 'b']
  else if c = '\x0c' then ['\\', 'f']
  else if c = '\n' then ['\\', 'n']
  else if c = '\r' then ['\\', 'r']
  else if c = '\t' then ['\\', 't']
  else if c.toNat < 0x20 then
    ['\\', 'u', '0', '0', Nat.digitChar (c.toNat / 16), Nat.digitChar (c.toNat % 16)]
  else [c]

/-- A text between quotes. -/
def writeText (s : String) : List Char := '"' :: s.toList.flatMap escape ++ ['"']

/-! ### Values -/

/-- A line break and the indentation of a depth. -/
def lineBreak (depth : Nat) : List Char := '\n' :: List.replicate (2 * depth) ' '

mutual

/-- A value whose line is indented to a depth. -/
def write (depth : Nat) : Json → List Char
  | .null => "null".toList
  | .truth true => "true".toList
  | .truth false => "false".toList
  | .count n => Decimal.digits n
  | .real x => (realLayout.text x).toList
  | .text s => writeText s
  | .list [] => ['[', ']']
  | .list (item :: rest) =>
    '[' :: lineBreak (depth + 1) ++ write (depth + 1) item ++ writeItems (depth + 1) rest ++ lineBreak depth ++ [']']
  | .object [] => ['\x7b', '\x7d']
  | .object ((name, value) :: rest) =>
    '\x7b' :: lineBreak (depth + 1) ++ writeText name ++ [':', ' '] ++ write (depth + 1) value ++
      writeFields (depth + 1) rest ++ lineBreak depth ++ ['\x7d']

/-- The items of a list after the first. -/
def writeItems (depth : Nat) : List Json → List Char
  | [] => []
  | item :: rest => ',' :: lineBreak depth ++ write depth item ++ writeItems depth rest

/-- The fields of an object after the first. -/
def writeFields (depth : Nat) : List (String × Json) → List Char
  | [] => []
  | (name, value) :: rest =>
    ',' :: lineBreak depth ++ writeText name ++ [':', ' '] ++ write depth value ++ writeFields depth rest

end

/-- The indented text of a value. -/
def pretty (j : Json) : String := String.ofList (j.write 0)

end Json

end LogCorrelation
