import LogCorrelation.Decimal.Reader
import LogCorrelation.Json.Basic
import LogCorrelation.Text.CodePoint

/-!
# Json.Reader — JSON text read back

A number of digits alone is natural, any other is real.  The reader takes a bound on the number of its steps, for
which the length of the text is enough: every step but the first takes a character.
-/

namespace LogCorrelation.Json

open Text (hexValue? character?)

/-! ### Text -/

/-- The number that four hexadecimal digits denote. -/
def unit? (a b c d : Char) : Option Nat := do
  return 4096 * (← hexValue? a) + 256 * (← hexValue? b) + 16 * (← hexValue? c) + (← hexValue? d)

/-- Whether a unit is the first half of a pair. -/
def isHigh (unit : Nat) : Bool := 0xD800 ≤ unit && unit < 0xDC00

/-- The character of a pair of units. -/
def pair? (high low : Nat) : Option Char :=
  if 0xDC00 ≤ low ∧ low < 0xE000 then character? (0x10000 + (high - 0xD800) * 0x400 + (low - 0xDC00)) else none

/-- The character that a letter stands for after a backslash. -/
def escaped? : Char → Option Char
  | '"' => some '"'
  | '\\' => some '\\'
  | '/' => some '/'
  | 'b' => some '\x08'
  | 'f' => some '\x0c'
  | 'n' => some '\n'
  | 'r' => some '\r'
  | 't' => some '\t'
  | _ => none

/-- One character in front of what has been read after it. -/
def andThen (c : Option Char) (rest : Option (List Char × List Char)) : Option (List Char × List Char) :=
  match c, rest with
  | some c, some (cs, rest) => some (c :: cs, rest)
  | _, _ => none

/-- The characters up to the closing quote, and what follows it; `high` is the first half of a pair, if one has been
read. -/
def readText (high : Option Nat) : List Char → Option (List Char × List Char)
  | '\\' :: 'u' :: a :: b :: c :: d :: rest =>
    match high, unit? a b c d with
    | _, none => none
    | some high, some low => andThen (pair? high low) (readText none rest)
    | none, some unit =>
      if isHigh unit then readText (some unit) rest else andThen (character? unit) (readText none rest)
  | '"' :: rest => if high.isSome then none else some ([], rest)
  | '\\' :: c :: rest => if high.isSome then none else andThen (escaped? c) (readText none rest)
  | c :: rest =>
    if high.isSome ∨ c.toNat < 0x20 ∨ c = '\\' then none else andThen (some c) (readText none rest)
  | [] => none

/-! ### Numbers -/

/-- Whether a character may stand in a number. -/
def isNumeral (c : Char) : Bool := c.isDigit || c == '-' || c == '+' || c == '.' || c == 'e' || c == 'E'

/-- Whether whole digits are written as JSON allows: no zero in front of others. -/
def wholeAllowed : List Char → Bool
  | [] => false
  | '0' :: _ :: _ => false
  | _ => true

/-- Whether a digit follows each point, as JSON demands. -/
def pointAllowed : List Char → Bool
  | [] => true
  | '.' :: cs => cs.head?.any Char.isDigit && pointAllowed cs
  | _ :: cs => pointAllowed cs

/-- The number that a run of characters denotes. -/
def number? (cs : List Char) : Option Json :=
  if cs.all Char.isDigit ∧ wholeAllowed cs then
    some (.count (Decimal.value cs))
  else if cs.head? = some '+' then
    none
  else
    match Decimal.numeral? cs with
    | some n => if wholeAllowed n.whole && pointAllowed cs then some (.real n.toFloat) else none
    | none => none

/-! ### Values -/

/-- Whether a character may stand between words. -/
def isBlank (c : Char) : Bool := c == ' ' || c == '\n' || c == '\r' || c == '\t'

/-- What follows blanks. -/
def skip (cs : List Char) : List Char := cs.dropWhile isBlank

mutual

/-- A value and what follows it. -/
def readValue : Nat → List Char → Option (Json × List Char)
  | 0, _ => none
  | fuel + 1, cs =>
    match skip cs with
    | 'n' :: 'u' :: 'l' :: 'l' :: rest => some (.null, rest)
    | 't' :: 'r' :: 'u' :: 'e' :: rest => some (.truth true, rest)
    | 'f' :: 'a' :: 'l' :: 's' :: 'e' :: rest => some (.truth false, rest)
    | '"' :: rest => (readText none rest).map fun (cs, rest) => (.text (String.ofList cs), rest)
    | '[' :: rest =>
      match skip rest with
      | ']' :: rest => some (.list [], rest)
      | rest => (readItems fuel rest).map fun (items, rest) => (.list items, rest)
    | '\x7b' :: rest =>
      match skip rest with
      | '\x7d' :: rest => some (.object [], rest)
      | rest => (readFields fuel rest).map fun (fields, rest) => (.object fields, rest)
    | cs => (number? (cs.takeWhile isNumeral)).map fun n => (n, cs.dropWhile isNumeral)

/-- The items of a list up to its end, at least one, and what follows. -/
def readItems : Nat → List Char → Option (List Json × List Char)
  | 0, _ => none
  | fuel + 1, cs =>
    match readValue fuel cs with
    | none => none
    | some (item, rest) =>
      match skip rest with
      | ']' :: rest => some ([item], rest)
      | ',' :: rest => (readItems fuel rest).map fun (items, rest) => (item :: items, rest)
      | _ => none

/-- The fields of an object up to its end, at least one, and what follows. -/
def readFields : Nat → List Char → Option (List (String × Json) × List Char)
  | 0, _ => none
  | fuel + 1, cs =>
    match skip cs with
    | '"' :: rest =>
      match readText none rest with
      | none => none
      | some (name, rest) =>
        match skip rest with
        | ':' :: rest =>
          match readValue fuel rest with
          | none => none
          | some (value, rest) =>
            match skip rest with
            | '\x7d' :: rest => some ([(String.ofList name, value)], rest)
            | ',' :: rest =>
              (readFields fuel rest).map fun (fields, rest) => ((String.ofList name, value) :: fields, rest)
            | _ => none
        | _ => none
    | _ => none

end

/-- The value that a text denotes; only blanks may follow it. -/
def read (s : String) : Option Json :=
  match readValue (2 * s.toList.length + 1) s.toList with
  | some (j, rest) => if rest.all isBlank then some j else none
  | none => none

/-- The value of a field of an object. -/
def field? (name : String) : Json → Option Json
  | .object fields => fields.lookup name
  | _ => none

end LogCorrelation.Json
