import LogCorrelation.Decimal.Float

/-!
# Proofs.Decimal.Characters — the characters of decimal text

* `value_digits`, `head?_digits`: the digits of a number denote it, and no zero stands in front of others.
* `mem_text_of_isFinite`: which characters the text of a finite double has.
-/

namespace LogCorrelation.Decimal

/-! ### Digits of a number -/

theorem toList_toString (n : Nat) : (toString n).toList = digits n := Nat.toList_repr

theorem isDigit_of_mem_digits {n : Nat} {c : Char} (h : c ∈ digits n) : c.isDigit = true :=
  Nat.isDigit_of_mem_toDigits (by decide) (by decide) h

theorem digits_ne_nil (n : Nat) : digits n ≠ [] := Nat.toDigits_ne_nil

theorem value_digits (n : Nat) : value (digits n) = n := Nat.ofDigitChars_ten_toDigits

theorem head?_digits {n : Nat} (hn : 0 < n) : (digits n).head? ≠ some '0' := by
  induction n using Nat.strongRecOn with
  | ind n ih =>
    by_cases hten : n < 10
    · have hall : ∀ m : Fin 10, 0 < m.val → [Nat.digitChar m].head? ≠ some '0' := by decide
      rw [digits, Nat.toDigits_of_lt_base hten]
      exact hall ⟨n, hten⟩ hn
    · -- the first digit of several is that of the number divided by ten
      have hdiv := ih (n / 10) (by omega) (by omega)
      obtain ⟨d, ds, hds⟩ := List.exists_cons_of_ne_nil (digits_ne_nil (n / 10))
      rw [hds] at hdiv
      rw [digits] at hds
      rw [digits, Nat.toDigits_of_base_le (by decide) (by omega), hds]
      exact hdiv

/-! ### Text of a double -/

theorem mem_plain {s : Scaled} {c : Char} (h : c ∈ plain s) : c.isDigit = true ∨ c = '.' := by
  have hzero : '0'.isDigit = true := by decide
  unfold plain at h
  split at h
  · simp only [List.mem_append, List.mem_replicate, List.mem_cons, List.not_mem_nil, or_false] at h
    obtain (hdigit | ⟨-, rfl⟩) | rfl | rfl := h
    · exact .inl (isDigit_of_mem_digits hdigit)
    · exact .inl hzero
    · exact .inr rfl
    · exact .inl hzero
  · dsimp only at h
    split at h
    · simp only [List.mem_append, List.mem_cons] at h
      obtain hdigit | rfl | hdigit := h
      · exact .inl (isDigit_of_mem_digits (List.mem_of_mem_take hdigit))
      · exact .inr rfl
      · exact .inl (isDigit_of_mem_digits (List.mem_of_mem_drop hdigit))
    · simp only [List.cons_append, List.mem_cons, List.mem_append, List.mem_replicate] at h
      obtain rfl | rfl | ⟨-, rfl⟩ | hdigit := h
      · exact .inl hzero
      · exact .inr rfl
      · exact .inl hzero
      · exact .inl (isDigit_of_mem_digits hdigit)

theorem mem_scientific {mark : String} {s : Scaled} {c : Char} (h : c ∈ scientific mark s) :
    c.isDigit = true ∨ c = '.' ∨ c ∈ mark.toList ∨ c = 'e' ∨ c = '-' := by
  unfold scientific at h
  simp only [List.mem_append] at h
  obtain ((hfirst | hpoint) | hmark) | hdigit := h
  · exact .inl (isDigit_of_mem_digits (List.mem_of_mem_take hfirst))
  · split at hpoint
    · exact absurd hpoint (by simp)
    · obtain rfl | hdigit := List.mem_cons.mp hpoint
      · exact .inr (.inl rfl)
      · exact .inl (isDigit_of_mem_digits (List.mem_of_mem_drop hdigit))
  · split at hmark
    · exact .inr (.inr (.inl hmark))
    · simp only [List.mem_cons, List.not_mem_nil, or_false] at hmark
      exact .inr (.inr (.inr hmark))
  · exact .inl (isDigit_of_mem_digits hdigit)

theorem mem_signMark {sign : Float.Model.UnpackedFloat.Sign} {c : Char} (h : c ∈ signMark sign) : c = '-' := by
  cases sign with
  | positive => exact absurd h (by simp [signMark])
  | negative => exact List.mem_singleton.mp h

/-- The text of a finite double has no characters but digits, points, signs and exponent marks. -/
theorem mem_text_of_isFinite (l : Layout) {x : Float} (hx : x.isFinite = true) {c : Char} (h : c ∈ (l.text x).toList) :
    c.isDigit = true ∨ c = '.' ∨ c ∈ l.mark.toList ∨ c = 'e' ∨ c = '-' := by
  have hfinite : x.toModel.unpack.isFinite = true := hx
  unfold Layout.text at h
  cases hunpack : x.toModel.unpack with
  | notANumber => exact absurd ((congrArg _ hunpack).symm.trans hfinite) Bool.false_ne_true
  | infinity sign => exact absurd ((congrArg _ hunpack).symm.trans hfinite) Bool.false_ne_true
  | zero sign =>
    rw [hunpack, String.toList_ofList] at h
    simp only [List.mem_append, List.mem_cons, List.not_mem_nil, or_false] at h
    obtain hsign | rfl | rfl | rfl := h
    · exact .inr (.inr (.inr (.inr (mem_signMark hsign))))
    · exact .inl (by decide)
    · exact .inr (.inl rfl)
    · exact .inl (by decide)
  | finite sign mantissa exponent hpos =>
    rw [hunpack, String.toList_ofList] at h
    obtain hsign | hdigits := List.mem_append.mp h
    · exact .inr (.inr (.inr (.inr (mem_signMark hsign))))
    · unfold Layout.digits at hdigits
      split at hdigits
      · obtain hdigit | hpoint := mem_plain hdigits
        · exact .inl hdigit
        · exact .inr (.inl hpoint)
      · exact mem_scientific hdigits

end LogCorrelation.Decimal
