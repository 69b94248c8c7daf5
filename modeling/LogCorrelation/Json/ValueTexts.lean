import LogCorrelation.Json.Reader

/-!
# Json.ValueTexts — the texts of the values in a JSON text

A number can be written in many ways, and a value read back does not tell in which.  These readers give the texts of the
items of a list and of the fields of an object as they stand there, without the blanks around them.
-/

namespace LogCorrelation.Json

/-- The text of the first value, and what follows it. -/
def valueText (cs : List Char) : Option (List Char × List Char) :=
  let cs := skip cs
  (readValue (2 * cs.length + 1) cs).map fun (_, rest) => (cs.take (cs.length - rest.length), rest)

/-- The texts of the items of a list up to its end, at least one; only blanks may follow. -/
def itemTextsFrom : Nat → List Char → Option (List (List Char))
  | 0, _ => none
  | fuel + 1, cs =>
    match valueText cs with
    | none => none
    | some (value, rest) =>
      match skip rest with
      | ']' :: rest => if rest.all isBlank then some [value] else none
      | ',' :: rest => (itemTextsFrom fuel rest).map (value :: ·)
      | _ => none

/-- The texts of the items of the list that a text is. -/
def itemTexts (cs : List Char) : Option (List (List Char)) :=
  match skip cs with
  | '[' :: rest =>
    match skip rest with
    | ']' :: rest => if rest.all isBlank then some [] else none
    | rest => itemTextsFrom rest.length rest
  | _ => none

/-- The names and texts of the fields of an object up to its end, at least one; only blanks may follow. -/
def fieldTextsFrom : Nat → List Char → Option (List (String × List Char))
  | 0, _ => none
  | fuel + 1, cs =>
    match skip cs with
    | '"' :: rest =>
      match readText none rest with
      | none => none
      | some (name, rest) =>
        match skip rest with
        | ':' :: rest =>
          match valueText rest with
          | none => none
          | some (value, rest) =>
            match skip rest with
            | '\x7d' :: rest => if rest.all isBlank then some [(String.ofList name, value)] else none
            | ',' :: rest => (fieldTextsFrom fuel rest).map ((String.ofList name, value) :: ·)
            | _ => none
        | _ => none
    | _ => none

/-- The names and texts of the fields of the object that a text is. -/
def fieldTexts (cs : List Char) : Option (List (String × List Char)) :=
  match skip cs with
  | '\x7b' :: rest =>
    match skip rest with
    | '\x7d' :: rest => if rest.all isBlank then some [] else none
    | rest => fieldTextsFrom rest.length rest
  | _ => none

end LogCorrelation.Json
