/-!
# Decimal.Digits — decimal digits of natural numbers

Numbers are written without leading zeros (`digits`) or with exactly a given number of digits (`padded`), and
`value` reads either back.  `value_padded` says that a number below `10 ^ width` survives the fixed width.
-/

namespace LogCorrelation.Decimal

/-- The decimal digits of `n`, most significant first, without leading zeros. -/
def digits (n : Nat) : List Char := Nat.toDigits 10 n

/-- The last `width` decimal digits of `n`, most significant first. -/
def padded : Nat → Nat → List Char
  | 0, _ => []
  | width + 1, n => padded width (n / 10) ++ [Nat.digitChar (n % 10)]

/-- The number below ten that a digit stands for. -/
def digitValue (c : Char) : Nat := c.toNat - 48

/-- The number that a run of digits denotes. -/
def value (ds : List Char) : Nat := ds.foldl (fun n d => 10 * n + digitValue d) 0

@[simp] theorem length_padded (width n : Nat) : (padded width n).length = width := by
  induction width generalizing n with
  | zero => rfl
  | succ width ih => simp [padded, ih]

theorem value_concat (ds : List Char) (d : Char) : value (ds ++ [d]) = 10 * value ds + digitValue d := by
  simp [value]

theorem digitValue_digitChar {n : Nat} (h : n < 10) : digitValue (Nat.digitChar n) = n := by
  have : ∀ m : Fin 10, digitValue (Nat.digitChar m) = m := by decide
  exact this ⟨n, h⟩

theorem value_padded_mod (width n : Nat) : value (padded width n) = n % Nat.pow 10 width := by
  induction width generalizing n with
  | zero => simp [padded, value, Nat.mod_one]
  | succ width ih =>
    rw [padded, value_concat, ih, digitValue_digitChar (Nat.mod_lt _ (by decide)), Nat.pow_eq, Nat.pow_eq,
      Nat.pow_succ, Nat.mul_comm (10 ^ width) 10, Nat.mod_mul, Nat.add_comm]

/-- A number below `10 ^ width` is read back from its `width` digits. -/
theorem value_padded {width n : Nat} (h : n < Nat.pow 10 width) : value (padded width n) = n := by
  rw [value_padded_mod, Nat.mod_eq_of_lt h]

end LogCorrelation.Decimal
