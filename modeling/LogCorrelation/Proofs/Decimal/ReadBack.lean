import LogCorrelation.Decimal.Reader
import LogCorrelation.Proofs.Decimal.Places

/-!
# Proofs.Decimal.ReadBack — texts of thousandths are read back

A text of digits around a point is read as the quotient of its digits by a power of ten.  So is a number of thousandths
the quotient that a thousand divides it to, and both quotients are rounded from the same number.

* `numeral?_digits`: digits around a point are a numeral.
* `isRounded_toFloat`: the double that a numeral is read as.
* `ofText?_shortPlaces`: thousandths without the zeros at their end.
-/

namespace LogCorrelation.Decimal

open Float.Model.UnpackedFloat (Sign)

/-! ### Numerals -/

/-- Whether a sign is written. -/
def isMarked : Sign → Bool
  | .positive => false
  | .negative => true

theorem signOf_signMark (sign : Sign) {c : Char} (hc : c.isDigit = true) (cs : List Char) :
    signOf (signMark sign ++ c :: cs) = (isMarked sign, c :: cs) := by
  cases sign with
  | negative => rfl
  | positive =>
    show signOf (c :: cs) = (false, c :: cs)
    unfold signOf
    split
    · next h => exact absurd hc ((List.cons.inj h).1 ▸ by decide)
    · next h => exact absurd hc ((List.cons.inj h).1 ▸ by decide)
    · rfl

/-- Digits around a point are read as such. -/
theorem numeral?_digits (sign : Sign) {whole fraction : List Char} (hne : whole ≠ [])
    (hwhole : ∀ c ∈ whole, c.isDigit = true) (hfraction : ∀ c ∈ fraction, c.isDigit = true) :
    numeral? (signMark sign ++ (whole ++ '.' :: fraction)) = some ⟨isMarked sign, whole, fraction, 0⟩ := by
  obtain ⟨d, ds, rfl⟩ := List.exists_cons_of_ne_nil hne
  have hsign := signOf_signMark sign (hwhole d List.mem_cons_self) (ds ++ '.' :: fraction)
  have htake : (d :: ds ++ '.' :: fraction).takeWhile Char.isDigit = d :: ds := by
    rw [List.takeWhile_append_of_pos hwhole, List.takeWhile_cons_of_neg (by decide), List.append_nil]
  have hdrop : (d :: ds ++ '.' :: fraction).dropWhile Char.isDigit = '.' :: fraction := by
    rw [List.dropWhile_append_of_pos hwhole, List.dropWhile_cons_of_neg (by decide)]
  have htake' : fraction.takeWhile Char.isDigit = fraction := List.takeWhile_eq_self_iff.mpr hfraction
  have hdrop' : fraction.dropWhile Char.isDigit = [] := List.dropWhile_eq_nil_iff.mpr hfraction
  unfold numeral?
  rw [List.cons_append, hsign]
  simp only [← List.cons_append, htake, hdrop, htake', hdrop']
  rw [if_neg (by simp)]

theorem toLower_of_isDigit {c : Char} (hc : c.isDigit = true) : c.toLower = c := by
  unfold Char.isDigit at hc
  rw [Bool.and_eq_true, decide_eq_true_iff, decide_eq_true_iff] at hc
  unfold Char.toLower
  rw [dif_neg]
  rintro ⟨hle, -⟩
  exact absurd (UInt32.le_trans hle hc.2) (by decide)

/-- A text that begins with a digit is none of the words. -/
theorem ofText?_signMark (sign : Sign) {c : Char} (hc : c.isDigit = true) (cs : List Char) :
    ofText? (String.ofList (signMark sign ++ c :: cs)) = (numeral? (signMark sign ++ c :: cs)).map (·.toFloat) := by
  have hword {word : String} (h : (String.ofList (c :: cs)).toLower = word) {d : Char}
      (hd : word.toList.head? = some d) : d.isDigit = true := by
    have hlist : word.toList = (c :: cs).map Char.toLower := by
      rw [← h, String.toLower, String.toList_map, String.toList_ofList]
    rw [hlist, List.map_cons, List.head?_cons, toLower_of_isDigit hc] at hd
    exact Option.some.inj hd ▸ hc
  unfold ofText?
  rw [String.toList_ofList, signOf_signMark sign hc]
  dsimp only
  split
  · next h => exact absurd (hword h rfl) (by decide)
  · next h => exact absurd (hword h rfl) (by decide)
  · next h => exact absurd (hword h rfl) (by decide)
  · rfl

/-! ### Quotients -/

theorem unpack_ten :
    (Float.ofBits 0x4024000000000000).toModel.unpack = .finite .positive 5629499534213120 (-49) (by decide) := by
  rfl

theorem unpack_hundred :
    (Float.ofBits 0x4059000000000000).toModel.unpack = .finite .positive 7036874417766400 (-46) (by decide) := by
  rfl

/-- Small powers of ten are doubles. -/
theorem power_normal {k : ℕ} (hk : k < Float.exactlyRepresentablePowersOfTen.size) (hle : k ≤ 3) :
    Normal .positive (-52) (-43) Float.exactlyRepresentablePowersOfTen[k].toModel.unpack ∧
      magnitude Float.exactlyRepresentablePowersOfTen[k].toModel.unpack = 10 ^ k := by
  have hpower {x : Float} {mantissa : ℕ} {exponent : ℤ} {hpos : 0 < mantissa}
      (hx : x.toModel.unpack = .finite .positive mantissa exponent hpos) (hlog : mantissa.log2 = 52)
      (hleast : -52 ≤ exponent) (hgreatest : exponent ≤ -43) (hvalue : (mantissa : ℚ) * 2 ^ exponent = 10 ^ k) :
      Normal .positive (-52) (-43) x.toModel.unpack ∧ magnitude x.toModel.unpack = 10 ^ k := by
    rw [hx]
    exact ⟨⟨rfl, hlog, hleast, hgreatest⟩, hvalue⟩
  interval_cases k
  · exact hpower unpack_one (by decide) (by decide) (by decide) (by norm_num)
  · exact hpower unpack_ten (by decide) (by decide) (by decide) (by norm_num)
  · exact hpower unpack_hundred (by decide) (by decide) (by decide) (by norm_num)
  · exact hpower unpack_thousand (by decide) (by decide) (by decide) (by norm_num)

/-- **A numeral of few digits is read as the double it rounds to.** -/
theorem isRounded_toFloat (sign : Sign) {whole fraction : List Char} (hnone : value (whole ++ fraction) ≠ 0)
    (hlt : value (whole ++ fraction) < 2 ^ 53) (hpos : fraction ≠ []) (hle : fraction.length ≤ 3) :
    IsRounded (value (whole ++ fraction) / 10 ^ fraction.length) sign
      (Numeral.toFloat ⟨isMarked sign, whole, fraction, 0⟩) := by
  have hsize : fraction.length < Float.exactlyRepresentablePowersOfTen.size := lt_of_le_of_lt hle (by decide)
  have hquotient : Float.ofScientific (value (whole ++ fraction)) true fraction.length =
      (value (whole ++ fraction)).toUInt64.toFloat / Float.exactlyRepresentablePowersOfTen[fraction.length] := by
    rw [Float.ofScientific, dif_pos ⟨hlt, le_trans hle (by decide)⟩]
    rfl
  have hword : Normal .positive (-52) 1 (value (whole ++ fraction)).toUInt64.toFloat.toModel.unpack := by
    rw [unpack_word hnone hlt]
    exact normal_ofNat hnone hlt
  obtain ⟨hpower, hten⟩ := power_normal hsize hle
  have hmagnitude :
      magnitude (value (whole ++ fraction)).toUInt64.toFloat.toModel.unpack = value (whole ++ fraction) := by
    rw [unpack_word hnone hlt, magnitude_ofNat hnone hlt]
  have hdigits : 0 < fraction.length := List.length_pos_iff.mpr hpos
  have hexponent : (decide ((0 : ℤ) - fraction.length < 0), ((0 : ℤ) - fraction.length).natAbs) =
      (true, fraction.length) := by
    rw [Prod.mk.injEq, decide_eq_true_iff]
    omega
  obtain ⟨hnegative, hplaces⟩ := Prod.mk.inj hexponent
  unfold Numeral.toFloat
  dsimp only
  rw [hnegative, hplaces, hquotient, ← hmagnitude, ← hten]
  cases sign with
  | positive => exact isRounded_div hword hpower (by decide)
  | negative => exact (roundsTo_unpack_div hword hpower (by decide) (by decide)).isRounded_neg

/-- **Thousandths are read back** from their text without the zeros at its end. -/
theorem ofText?_shortPlaces {m : ℕ} {sign : Sign} {x : Float} (hpos : 0 < m) (hlt : m < 2 ^ 53)
    (h : IsRounded (m / 10 ^ 3) sign x) : ofText? (String.ofList (signMark sign ++ shortPlaces 3 m)) = some x := by
  have hplaces : 0 < 3 := by decide
  have hne : padded 3 (m % 10 ^ 3) ≠ [] := List.cons_ne_nil _ _
  obtain ⟨k, hlength, hvalue⟩ := value_shortPlaces hplaces m
  have hle : value (digits (m / 10 ^ 3) ++ withoutZeros (padded 3 (m % 10 ^ 3))) ≤ m := by
    conv_rhs => rw [← hvalue]
    exact Nat.le_mul_of_pos_right _ (by positivity)
  have hnone : value (digits (m / 10 ^ 3) ++ withoutZeros (padded 3 (m % 10 ^ 3))) ≠ 0 := by
    intro hzero
    rw [hzero, Nat.zero_mul] at hvalue
    exact hpos.ne hvalue
  have hrounded := isRounded_toFloat sign hnone (lt_of_le_of_lt hle hlt) (withoutZeros_ne_nil _) (by omega)
  rw [value_shortPlaces_div hplaces] at hrounded
  obtain ⟨d, ds, hds⟩ := List.exists_cons_of_ne_nil (digits_ne_nil (m / 10 ^ 3))
  have hdigit : d.isDigit = true := isDigit_of_mem_digits (hds ▸ List.mem_cons_self)
  have htext := ofText?_signMark sign hdigit (ds ++ '.' :: withoutZeros (padded 3 (m % 10 ^ 3)))
  rw [← List.cons_append, ← hds, numeral?_digits sign (digits_ne_nil _) (fun c hc => isDigit_of_mem_digits hc)
    (isDigit_of_mem_withoutZeros hne (isDigit_padded _ _)), Option.map_some, hrounded.unique h] at htext
  exact htext

end LogCorrelation.Decimal
