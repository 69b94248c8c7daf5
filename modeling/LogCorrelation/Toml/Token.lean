import LogCorrelation.Text.CodePoint

/-!
# Toml.Token — the words of a TOML document

The scanner reads one character at a time.  Its `Mode` says what the characters read so far have begun; a word is
complete when a character comes that cannot belong to it.  Blanks separate words, comments are dropped, and ends of
lines are words of their own.  Only single characters decide, so no look-ahead is needed: the quotes that may close a
multi-line text are counted until another character comes.
-/

namespace LogCorrelation.Toml

open Text (hexValue? character?)

/-- A word of a document. -/
inductive Token
  /-- A run of characters without blanks, quotes, `=` and `#`. -/
  | bare (word : String)
  /-- A quoted text, and whether it was quoted three times. -/
  | text (content : String) (multiline : Bool)
  | equals
  | newline
deriving DecidableEq, Repr

/-- The two kinds of quotes: escapes count only in double ones. -/
inductive Quote
  | double
  | single
deriving DecidableEq, Repr

/-- The character of a quote. -/
def Quote.mark : Quote → Char
  | .double => '"'
  | .single => '\''

/-- A text whose closing quote has not been read. -/
structure OpenText where
  quote : Quote
  multiline : Bool
  /-- Its characters so far, the last one first. -/
  done : List Char
  /-- How many quotes have been read since. -/
  quotes : Nat

/-- What the characters read so far have begun. -/
inductive Mode
  | between
  | comment
  /-- After a carriage return, which a line feed has to follow. -/
  | carriage
  | bare (done : List Char)
  /-- After one or two opening quotes. -/
  | opening (quote : Quote) (count : Nat)
  /-- After three opening quotes; an end of line here is not part of the text. -/
  | opened (quote : Quote)
  | openedCarriage (quote : Quote)
  | text (t : OpenText)
  | textCarriage (t : OpenText)
  /-- After a backslash. -/
  | escape (t : OpenText)
  /-- In a code point of which `left` digits are to come. -/
  | codePoint (t : OpenText) (left : Nat) (value : Nat)
  /-- After a backslash at the end of a line, whose break has been read or not. -/
  | fold (t : OpenText) (broken : Bool)
  | foldCarriage (t : OpenText)

/-! ### Character classes -/

/-- Whether a character may stand in a comment or a text as it is; line breaks are treated apart. -/
def isPlain (c : Char) : Bool := c == '\t' || (0x20 ≤ c.toNat && c.toNat != 0x7F)

/-- Whether a character ends a bare word. -/
def endsBare (c : Char) : Bool :=
  c == ' ' || c == '\t' || c == '\n' || c == '\r' || c == '=' || c == '#' || c == '"' || c == '\''

/-- The character that stands for itself after a backslash. -/
def escaped? : Char → Option Char
  | 'b' => some '\x08'
  | 't' => some '\t'
  | 'n' => some '\n'
  | 'f' => some '\x0c'
  | 'r' => some '\r'
  | '"' => some '"'
  | '\\' => some '\\'
  | _ => none

/-! ### Texts -/

namespace OpenText

/-- The text with the quotes counted taken into it. -/
def settle (t : OpenText) : OpenText :=
  { t with done := List.replicate t.quotes t.quote.mark ++ t.done, quotes := 0 }

/-- The text with a character added; quotes that did not close it belong to it. -/
def push (t : OpenText) (c : Char) : OpenText := { t.settle with done := c :: t.settle.done }

/-- The word for a text whose last three quotes close it. -/
def closed (t : OpenText) : Token :=
  .text (String.ofList (List.replicate (t.quotes - 3) t.quote.mark ++ t.done).reverse) t.multiline

end OpenText

/-! ### One character -/

/-- A scanner's answer: the words completed, and what has been begun. -/
abbrev Step := Option (List Token × Mode)

/-- The step at a character that belongs to no word begun before. -/
def stepBetween (c : Char) : Step :=
  match c with
  | ' ' | '\t' => some ([], .between)
  | '\n' => some ([.newline], .between)
  | '\r' => some ([], .carriage)
  | '#' => some ([], .comment)
  | '=' => some ([.equals], .between)
  | '"' => some ([], .opening .double 1)
  | '\'' => some ([], .opening .single 1)
  | _ => some ([], .bare [c])

/-- A word is complete, and the character belongs to what follows it. -/
def complete (token : Token) (c : Char) : Step :=
  (stepBetween c).map fun (tokens, mode) => (token :: tokens, mode)

/-- The step at a character within a text. -/
def stepText (t : OpenText) (c : Char) : Step :=
  if c = t.quote.mark then
    if t.multiline then
      if t.quotes < 5 then some ([], .text { t with quotes := t.quotes + 1 }) else none
    else
      some ([.text (String.ofList t.done.reverse) false], .between)
  else if 3 ≤ t.quotes then
    complete t.closed c
  else if c = '\n' then
    if t.multiline then some ([], .text (t.push c)) else none
  else if c = '\r' then
    if t.multiline then some ([], .textCarriage t) else none
  else if c = '\\' ∧ t.quote = .double then
    some ([], .escape t.settle)
  else if isPlain c then
    some ([], .text (t.push c))
  else
    none

/-- The step at the character after a backslash. -/
def stepEscape (t : OpenText) (c : Char) : Step :=
  match escaped? c with
  | some e => some ([], .text (t.push e))
  | none =>
    match c with
    | 'u' => some ([], .codePoint t 4 0)
    | 'U' => some ([], .codePoint t 8 0)
    | ' ' | '\t' => if t.multiline then some ([], .fold t false) else none
    | '\n' => if t.multiline then some ([], .fold t true) else none
    | '\r' => if t.multiline then some ([], .foldCarriage t) else none
    | _ => none

/-- The step at a digit of a code point. -/
def stepCodePoint (t : OpenText) (left value : Nat) (c : Char) : Step :=
  match hexValue? c with
  | none => none
  | some d =>
    if left ≤ 1 then
      (character? (16 * value + d)).map fun e => ([], .text (t.push e))
    else
      some ([], .codePoint t (left - 1) (16 * value + d))

/-- The step at a character after a folded line. -/
def stepFold (t : OpenText) (broken : Bool) (c : Char) : Step :=
  match c with
  | ' ' | '\t' => some ([], .fold t broken)
  | '\n' => some ([], .fold t true)
  | '\r' => some ([], .foldCarriage t)
  | _ => if broken then stepText t c else none

/-- The step of the scanner at a character. -/
def step (mode : Mode) (c : Char) : Step :=
  match mode with
  | .between => stepBetween c
  | .comment =>
    if c = '\n' then some ([.newline], .between)
    else if c = '\r' then some ([], .carriage)
    else if isPlain c then some ([], .comment)
    else none
  | .carriage => if c = '\n' then some ([.newline], .between) else none
  | .bare done =>
    if endsBare c then complete (.bare (String.ofList done.reverse)) c else some ([], .bare (c :: done))
  | .opening quote count =>
    if c = quote.mark then
      some ([], if count = 1 then .opening quote 2 else .opened quote)
    else if count = 1 then
      stepText ⟨quote, false, [], 0⟩ c
    else
      complete (.text "" false) c
  | .opened quote =>
    if c = '\n' then some ([], .text ⟨quote, true, [], 0⟩)
    else if c = '\r' then some ([], .openedCarriage quote)
    else stepText ⟨quote, true, [], 0⟩ c
  | .openedCarriage quote => if c = '\n' then some ([], .text ⟨quote, true, [], 0⟩) else none
  | .text t => stepText t c
  | .textCarriage t => if c = '\n' then some ([], .text (t.push '\n')) else none
  | .escape t => stepEscape t c
  | .codePoint t left value => stepCodePoint t left value c
  | .fold t broken => stepFold t broken c
  | .foldCarriage t => if c = '\n' then some ([], .fold t true) else none

/-- The words complete at the end of the document. -/
def finish : Mode → Option (List Token)
  | .between | .comment => some []
  | .bare done => some [.bare (String.ofList done.reverse)]
  | .opening _ 2 => some [.text "" false]
  | .text t => if 3 ≤ t.quotes then some [t.closed] else none
  | _ => none

/-! ### All characters -/

/-- The words of the characters from here on. -/
def scanFrom (mode : Mode) : List Char → Option (List Token)
  | [] => finish mode
  | c :: rest =>
    match step mode c with
    | none => none
    | some (tokens, mode) => (scanFrom mode rest).map (tokens ++ ·)

/-- The words of a document; a byte order mark in front is dropped. -/
def tokens? (s : String) : Option (List Token) :=
  match s.toList with
  | '\uFEFF' :: rest => scanFrom .between rest
  | cs => scanFrom .between cs

end LogCorrelation.Toml
