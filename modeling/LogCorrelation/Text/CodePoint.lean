/-!
# Text.CodePoint — characters by their number

Hexadecimal digits of both cases, and the character that a code point denotes; surrogates denote none.
-/

namespace LogCorrelation.Text

/-- The value of a hexadecimal digit. -/
def hexValue? (c : Char) : Option Nat :=
  if '0' ≤ c ∧ c ≤ '9' then some (c.toNat - 48)
  else if 'a' ≤ c ∧ c ≤ 'f' then some (c.toNat - 87)
  else if 'A' ≤ c ∧ c ≤ 'F' then some (c.toNat - 55)
  else none

/-- The character at a code point, if it is one. -/
def character? (n : Nat) : Option Char := if h : n.isValidChar then some (Char.ofNatAux n h) else none

theorem character?_toNat (c : Char) : character? c.toNat = some c := by
  have h : c.toNat.isValidChar := c.valid
  rw [character?, dif_pos h]
  rfl

end LogCorrelation.Text
