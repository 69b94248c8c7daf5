import LogCorrelation.Toml.Token

/-!
# Toml.Document — a flat TOML document

A document is a list of keys with texts, integers and truth values, one to a line.  Tables, arrays, dotted keys, dates
and fractions are refused: no key has a value of such a kind.
-/

namespace LogCorrelation.Toml

/-- The value of a key. -/
inductive Value
  | text (s : String)
  | integer (n : Int)
  | truth (b : Bool)
deriving DecidableEq, Repr

/-- Keys with their values, in the order of the document. -/
abbrev Document := List (String × Value)

/-! ### Keys -/

/-- Whether a character may stand in a key without quotes. -/
def isKeyCharacter (c : Char) : Bool := c.isAlphanum || c == '_' || c == '-'

/-- The key that a word denotes. -/
def key? : Token → Option String
  | .bare word => if word.toList.all isKeyCharacter then some word else none
  | .text content false => some content
  | _ => none

/-! ### Integers -/

/-- The number that digits of a base denote, an underscore being allowed between two digits. -/
def groupedFrom (base : Nat) (n : Nat) : List Char → Option Nat
  | [] => some n
  | '_' :: c :: rest => digit c rest
  | c :: rest => digit c rest
where
  /-- The number with the digit `c` added. -/
  digit (c : Char) (rest : List Char) : Option Nat :=
    match Text.hexValue? c with
    | some d => if d < base then groupedFrom base (base * n + d) rest else none
    | none => none

/-- The number that one or more digits denote, the first being no underscore. -/
def grouped? (base : Nat) : List Char → Option Nat
  | [] | '_' :: _ => none
  | cs => groupedFrom base 0 cs

/-- A decimal number without a sign; a zero in front must be its only digit. -/
def decimal? : List Char → Option Nat
  | ['0'] => some 0
  | '0' :: _ => none
  | cs => grouped? 10 cs

/-- The least integer, that of sixty-four bits. -/
def leastInteger : Int := -9223372036854775808

/-- The greatest integer, that of sixty-four bits. -/
def greatestInteger : Int := 9223372036854775807

/-- The integer that a word denotes, if it is in range. -/
def integer? (word : String) : Option Int :=
  let n? : Option Int :=
    match word.toList with
    | '0' :: 'x' :: cs => (grouped? 16 cs).map Int.ofNat
    | '0' :: 'o' :: cs => (grouped? 8 cs).map Int.ofNat
    | '0' :: 'b' :: cs => (grouped? 2 cs).map Int.ofNat
    | '+' :: cs => (decimal? cs).map Int.ofNat
    | '-' :: cs => (decimal? cs).map (- Int.ofNat ·)
    | cs => (decimal? cs).map Int.ofNat
  n?.filter fun n => leastInteger ≤ n ∧ n ≤ greatestInteger

/-! ### Values and lines -/

/-- The value that a word denotes. -/
def value? : Token → Option Value
  | .bare "true" => some (.truth true)
  | .bare "false" => some (.truth false)
  | .bare word => (integer? word).map .integer
  | .text content _ => some (.text content)
  | _ => none

/-- The key and value of one line. -/
def pair? (key value : Token) : Option (String × Value) :=
  match key? key, value? value with
  | some k, some v => some (k, v)
  | _, _ => none

/-- The keys and values of the lines from here on. -/
def pairs? : List Token → Option Document
  | [] => some []
  | .newline :: rest => pairs? rest
  | key :: .equals :: value :: .newline :: rest =>
    match pair? key value, pairs? rest with
    | some p, some ps => some (p :: ps)
    | _, _ => none
  | [key, .equals, value] => (pair? key value).map ([·])
  | _ => none

/-- The document that a text denotes.  No key may occur twice. -/
def document? (s : String) : Option Document :=
  match (tokens? s).bind pairs? with
  | some pairs => if (pairs.map (·.1)).Nodup then some pairs else none
  | none => none

end LogCorrelation.Toml
