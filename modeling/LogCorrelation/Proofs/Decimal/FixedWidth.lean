import LogCorrelation.Decimal.Digits
import Mathlib.Data.List.Induction
import Mathlib.Tactic.Ring

/-!
# Proofs.Decimal.FixedWidth — runs of digits of a fixed width

A `DigitRun width` is a run of that many decimal digits.  Its characters and its value determine each other, and for
one width the order of the texts is the order of the values.

* `DigitRun.ofNat_value`, `DigitRun.value_ofNat`: writing and reading undo each other.
* `DigitRun.chars_lt_chars_iff`: texts of one width are ordered as their values.
-/

namespace LogCorrelation.Decimal

/-! ### Single digits -/

section Digit

variable {c d : Char}

theorem toNat_of_isDigit (h : c.isDigit = true) : 48 ≤ c.toNat ∧ c.toNat ≤ 57 := Char.isDigit_iff_toNat.mp h

theorem digitChar_digitValue (h : c.isDigit = true) : Nat.digitChar (digitValue c) = c := by
  have hrange := toNat_of_isDigit h
  have hchar : ∀ n : Fin 10, Nat.digitChar n = Char.ofNat (48 + n) := by decide
  rw [digitValue, hchar ⟨c.toNat - 48, by omega⟩, Nat.add_sub_cancel' hrange.1, Char.ofNat_toNat]

theorem digitValue_lt (h : c.isDigit = true) : digitValue c < 10 := by
  have hrange := toNat_of_isDigit h
  unfold digitValue
  omega

theorem digitValue_inj (hc : c.isDigit = true) (hd : d.isDigit = true) : digitValue c = digitValue d ↔ c = d :=
  ⟨fun h => by rw [← digitChar_digitValue hc, h, digitChar_digitValue hd], congrArg digitValue⟩

theorem digitValue_lt_digitValue_iff (hc : c.isDigit = true) (hd : d.isDigit = true) :
    digitValue c < digitValue d ↔ c < d := by
  have hcrange := toNat_of_isDigit hc
  have hdrange := toNat_of_isDigit hd
  rw [Char.lt_def, UInt32.lt_iff_toNat_lt]
  show c.toNat - 48 < d.toNat - 48 ↔ c.toNat < d.toNat
  omega

end Digit

/-! ### Runs of digits -/

theorem value_cons (d : Char) (ds : List Char) : value (d :: ds) = digitValue d * 10 ^ ds.length + value ds := by
  induction ds using List.reverseRecOn with
  | nil => simp [value]
  | append_singleton ds e ih =>
    rw [← List.cons_append, value_concat, value_concat, ih, List.length_append, List.length_singleton]
    ring

theorem value_lt {ds : List Char} (h : ∀ c ∈ ds, c.isDigit = true) : value ds < 10 ^ ds.length := by
  induction ds with
  | nil => simp [value]
  | cons d ds ih =>
    obtain ⟨hd, hds⟩ := List.forall_mem_cons.mp h
    calc value (d :: ds)
        = digitValue d * 10 ^ ds.length + value ds := value_cons d ds
      _ < digitValue d * 10 ^ ds.length + 10 ^ ds.length := Nat.add_lt_add_left (ih hds) _
      _ = (digitValue d + 1) * 10 ^ ds.length := by ring
      _ ≤ 10 * 10 ^ ds.length := Nat.mul_le_mul_right _ (digitValue_lt hd)
      _ = 10 ^ (d :: ds).length := by rw [List.length_cons, Nat.pow_succ, Nat.mul_comm]

/-- A run of digits is written back from the number that it denotes. -/
theorem padded_value {ds : List Char} (h : ∀ c ∈ ds, c.isDigit = true) : padded ds.length (value ds) = ds := by
  induction ds using List.reverseRecOn with
  | nil => rfl
  | append_singleton ds d ih =>
    obtain ⟨hds, hd⟩ := List.forall_mem_append.mp h
    have hd : d.isDigit = true := hd d (List.mem_singleton.mpr rfl)
    have hlt := digitValue_lt hd
    have hdiv : (10 * value ds + digitValue d) / 10 = value ds := by omega
    have hmod : (10 * value ds + digitValue d) % 10 = digitValue d := by omega
    rw [value_concat, List.length_append, List.length_singleton, padded, hdiv, hmod, ih hds, digitChar_digitValue hd]

theorem isDigit_padded (width n : Nat) : ∀ c ∈ padded width n, c.isDigit = true := by
  induction width generalizing n with
  | zero => simp [padded]
  | succ width ih =>
    rw [padded, List.forall_mem_append]
    refine ⟨ih (n / 10), fun c hc => ?_⟩
    rw [List.mem_singleton.mp hc, Nat.isDigit_digitChar]
    simpa using Nat.mod_lt n (by decide)

/-- Of two numbers the one with the greater leading part is the greater. -/
theorem mul_add_lt_mul_add_iff {a b p x y : Nat} (hx : x < p) (hy : y < p) :
    a * p + x < b * p + y ↔ a < b ∨ a = b ∧ x < y := by
  rcases Nat.lt_trichotomy a b with hab | rfl | hba
  · have := Nat.mul_le_mul_right p hab
    rw [Nat.succ_mul] at this
    omega
  · omega
  · have := Nat.mul_le_mul_right p hba
    rw [Nat.succ_mul] at this
    omega

/-- Runs of digits of one length are ordered as the numbers that they denote. -/
theorem value_lt_value_iff : ∀ {ds es : List Char}, ds.length = es.length → (∀ c ∈ ds, c.isDigit = true) →
    (∀ c ∈ es, c.isDigit = true) → (value ds < value es ↔ ds < es)
  | [], [], _, _, _ => by simp
  | d :: ds, e :: es, hlen, hd, he => by
    obtain ⟨hd, hds⟩ := List.forall_mem_cons.mp hd
    obtain ⟨he, hes⟩ := List.forall_mem_cons.mp he
    have hlen : ds.length = es.length := Nat.succ.inj hlen
    rw [List.cons_lt_cons_iff, value_cons, value_cons, hlen,
      mul_add_lt_mul_add_iff (hlen ▸ value_lt hds) (value_lt hes), digitValue_lt_digitValue_iff hd he,
      digitValue_inj hd he, value_lt_value_iff hlen hds hes]

/-! ### Runs of a width -/

/-- A run of `width` decimal digits. -/
structure DigitRun (width : Nat) where
  chars : List Char
  length_chars : chars.length = width
  isDigit : ∀ c ∈ chars, c.isDigit = true

namespace DigitRun

variable {width : Nat}

attribute [simp] length_chars

/-- The number that a run denotes. -/
def value (d : DigitRun width) : Nat := Decimal.value d.chars

/-- The last `width` digits of a number. -/
def ofNat (width n : Nat) : DigitRun width := ⟨padded width n, length_padded width n, isDigit_padded width n⟩

theorem ext {d e : DigitRun width} (h : d.chars = e.chars) : d = e := by
  cases d; cases e; simp_all

theorem value_lt (d : DigitRun width) : d.value < 10 ^ width := by
  have := Decimal.value_lt d.isDigit
  rwa [d.length_chars] at this

/-- A number with enough room is read back from its digits. -/
theorem value_ofNat {n : Nat} (h : n < 10 ^ width) : (ofNat width n).value = n := value_padded h

/-- The digits of the value of a run are its own. -/
theorem ofNat_value (d : DigitRun width) : ofNat width d.value = d := by
  refine ext ?_
  have := padded_value d.isDigit
  rwa [d.length_chars] at this

theorem value_inj {d e : DigitRun width} : d.value = e.value ↔ d = e :=
  ⟨fun h => by rw [← d.ofNat_value, h, e.ofNat_value], congrArg value⟩

/-- Texts of one width are ordered as their values. -/
theorem chars_lt_chars_iff (d e : DigitRun width) : d.chars < e.chars ↔ d.value < e.value :=
  (value_lt_value_iff (d.length_chars.trans e.length_chars.symm) d.isDigit e.isDigit).symm

end DigitRun

end LogCorrelation.Decimal
