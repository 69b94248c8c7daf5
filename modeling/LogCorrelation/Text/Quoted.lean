import LogCorrelation.Text.Combining
import LogCorrelation.Text.Ignorable
import LogCorrelation.Text.Unprintable

/-!
# Text.Quoted — a text between double quotes, every character visible

A quote and a backslash are escaped by a backslash, the usual controls by a letter, and every other character that
would not show by itself by its code point in hexadecimal.
-/

namespace LogCorrelation.Text

/-- Whether a character is written by its code point. -/
def needsCodePoint (c : Char) : Bool :=
  if c.toNat < 0x80 then c.toNat < 0x20 || c.toNat == 0x7F else isUnprintable c || isCombining c || isIgnorable c

/-- The written form of one character. -/
def escapeVisibly (c : Char) : List Char :=
  if c = '"' then ['\\', '"']
  else if c = '\\' then ['\\', '\\']
  else if c = '\x00' then ['\\', '0']
  else if c = '\t' then ['\\', 't']
  else if c = '\r' then ['\\', 'r']
  else if c = '\n' then ['\\', 'n']
  else if needsCodePoint c then ['\\', 'u', '\x7b'] ++ Nat.toDigits 16 c.toNat ++ ['\x7d']
  else [c]

/-- A text between double quotes. -/
def quoted (s : String) : String := String.ofList ('"' :: s.toList.flatMap escapeVisibly ++ ['"'])

end LogCorrelation.Text
