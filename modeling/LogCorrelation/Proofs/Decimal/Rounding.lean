import LogCorrelation.Decimal.Float
import LogCorrelation.Proofs.Decimal.Normal

/-!
# Proofs.Decimal.Rounding — the double that a rational number rounds to

A positive rational number has a double that it rounds to: fifty-three bits of it, the last one rounded to nearest, with
a carry where rounding gives a fifty-fourth.  `RoundsTo` says so of an unpacked double, and there is only one.

* `IsNearest`: rounding to an integer, ties to even, and `isNearest_roundDiv` for a quotient.
* `roundsTo_roundWithAccuracy`: a mantissa with its residual bits rounds as the number that it stands for.
* `roundsTo_mul`, `roundsTo_div`: so do products and quotients; `magnitude_natCast`: natural numbers are not rounded.
* `IsRounded`: the double itself, which `IsRounded.unique` says is one only.
-/

namespace LogCorrelation.Decimal

open Float.Model (Format UnpackedFloat totalExponent)
open Float.Model.UnpackedFloat (Sign Accuracy ExtendedMantissa)

/-! ### Rounding to an integer -/

/-- A natural number nearest to a rational one; of two it is the even one. -/
structure IsNearest (q : ℚ) (n : ℕ) : Prop where
  le_half : |n - q| ≤ 1 / 2
  even : |n - q| = 1 / 2 → n % 2 = 0

namespace IsNearest

variable {q : ℚ} {n n' : ℕ}

theorem bounds (h : IsNearest q n) : q - 1 / 2 ≤ n ∧ (n : ℚ) ≤ q + 1 / 2 := by
  have habs := abs_le.mp h.le_half
  constructor <;> linarith [habs.1, habs.2]

theorem of_lt_half (h : |n - q| < 1 / 2) : IsNearest q n := ⟨h.le, fun htie => absurd htie h.ne⟩

/-- Two nearest numbers that differ are neighbours, both at a distance of a half, and only one of them is even. -/
theorem unique (h : IsNearest q n) (h' : IsNearest q n') : n = n' := by
  wlog hle : n ≤ n' generalizing n n'
  · exact (this h' h (Nat.le_of_not_le hle)).symm
  rcases Nat.eq_or_lt_of_le hle with heq | hlt
  · exact heq
  · have hnext : (n : ℚ) + 1 ≤ n' := by exact_mod_cast hlt
    have hlow := h.bounds
    have hhigh := h'.bounds
    have hn : (n : ℚ) - q = -(1 / 2) := by linarith [hlow.1, hhigh.2]
    have hn' : (n' : ℚ) - q = 1 / 2 := by linarith [hlow.1, hhigh.2]
    have heven := h.even (by rw [hn]; norm_num)
    have heven' := h'.even (by rw [hn']; norm_num)
    have hneighbour : n' = n + 1 := by
      have : (n' : ℚ) = n + 1 := by linarith
      exact_mod_cast this
    omega

end IsNearest

theorem div_add_mod_div {num den : ℕ} (hden : 0 < den) :
    (num : ℚ) / den = (num / den : ℕ) + ((num % den : ℕ) : ℚ) / den := by
  have hne : (den : ℚ) ≠ 0 := by exact_mod_cast hden.ne'
  have hsplit : (num : ℚ) = den * (num / den : ℕ) + (num % den : ℕ) := by exact_mod_cast (Nat.div_add_mod num den).symm
  rw [hsplit, add_div, mul_div_cancel_left₀ _ hne]

/-! ### Residual bits -/

/-- A mantissa whose residual bits tell where a number lies between it and the next one. -/
def Represents (m : ExtendedMantissa) (q : ℚ) : Prop :=
  match m.roundBit, m.stickyBit with
  | false, false => q = m.mantissa
  | false, true => m.mantissa < q ∧ q < m.mantissa + 1 / 2
  | true, false => q = m.mantissa + 1 / 2
  | true, true => m.mantissa + 1 / 2 < q ∧ q < m.mantissa + 1

theorem represents_exact (mantissa : ℕ) : Represents (.ofMantissaAndAccuracy mantissa .exact) mantissa := rfl

theorem represents_quotient {num den : ℕ} (hden : 0 < den) :
    Represents (.ofMantissaAndAccuracy (num / den) (UnpackedFloat.accuracyOfFraction (num % den) den))
      (num / den) := by
  have hpos : (0 : ℚ) < den := by exact_mod_cast hden
  have hmod : ((num % den : ℕ) : ℚ) / den < 1 := by
    rw [div_lt_one hpos]
    exact_mod_cast Nat.mod_lt num hden
  rw [div_add_mod_div hden]
  unfold UnpackedFloat.accuracyOfFraction
  split
  · next hzero =>
    rw [hzero, Nat.cast_zero, zero_div, add_zero]
    exact represents_exact _
  · next hne =>
    have hmodpos : 0 < ((num % den : ℕ) : ℚ) / den := by
      have : (0 : ℚ) < (num % den : ℕ) := by exact_mod_cast Nat.pos_of_ne_zero hne
      positivity
    cases hcompare : compare (2 * (num % den)) den with
    | lt =>
      have hhalf : ((num % den : ℕ) : ℚ) / den < 1 / 2 := by
        rw [div_lt_iff₀ hpos]
        have : (2 * (num % den : ℕ) : ℚ) < den := by exact_mod_cast Nat.compare_eq_lt.mp hcompare
        linarith
      show ((num / den : ℕ) : ℚ) < _ ∧ _ < ((num / den : ℕ) : ℚ) + 1 / 2
      exact ⟨by linarith, by linarith⟩
    | eq =>
      have hhalf : ((num % den : ℕ) : ℚ) / den = 1 / 2 := by
        rw [div_eq_iff hpos.ne']
        have : (2 * (num % den : ℕ) : ℚ) = den := by exact_mod_cast Nat.compare_eq_eq.mp hcompare
        linarith
      rw [hhalf]
      rfl
    | gt =>
      have hhalf : 1 / 2 < ((num % den : ℕ) : ℚ) / den := by
        rw [lt_div_iff₀ hpos]
        have : (den : ℚ) < 2 * (num % den : ℕ) := by exact_mod_cast Nat.compare_eq_gt.mp hcompare
        linarith
      show ((num / den : ℕ) : ℚ) + 1 / 2 < _ ∧ _ < ((num / den : ℕ) : ℚ) + 1
      exact ⟨by linarith, by linarith⟩

namespace Represents

variable {m : ExtendedMantissa} {q : ℚ}

theorem floor_bounds (h : Represents m q) : (m.mantissa : ℚ) ≤ q ∧ q < m.mantissa + 1 := by
  obtain ⟨mantissa, round, sticky⟩ := m
  cases round <;> cases sticky <;> simp only [Represents] at h
  · exact ⟨h.ge, by linarith⟩
  · exact ⟨h.1.le, by linarith [h.2]⟩
  · exact ⟨by linarith, by linarith⟩
  · exact ⟨by linarith [h.1], h.2⟩

/-- One more bit is moved behind the mantissa. -/
theorem shiftRightOne (h : Represents m q) : Represents m.shiftRightOne (q / 2) := by
  obtain ⟨mantissa, round, sticky⟩ := m
  have hsplit : (mantissa : ℚ) = 2 * (mantissa / 2 : ℕ) + (mantissa % 2 : ℕ) := by
    exact_mod_cast (Nat.div_add_mod mantissa 2).symm
  rcases Nat.mod_two_eq_zero_or_one mantissa with hparity | hparity <;> rw [hparity] at hsplit <;> push_cast at hsplit <;>
    cases round <;> cases sticky <;>
    simp only [Represents, ExtendedMantissa.shiftRightOne, hparity, bne_self_eq_false, Nat.reduceBNe, Bool.or_self,
      Bool.or_true, Bool.or_false] at h ⊢ <;> first | (constructor <;> linarith) | linarith

theorem shiftRight (h : Represents m q) (k : ℕ) : Represents (m >>> k) (q / 2 ^ k) := by
  show Represents (Nat.repeat ExtendedMantissa.shiftRightOne k m) _
  induction k with
  | zero => simpa [Nat.repeat] using h
  | succ k ih =>
    rw [pow_succ, ← div_div]
    exact ih.shiftRightOne

/-- **The rounded mantissa is the nearest integer.** -/
theorem isNearest (h : Represents m q) : IsNearest q m.roundedMantissa := by
  obtain ⟨mantissa, round, sticky⟩ := m
  cases round <;> cases sticky <;> simp only [Represents] at h <;>
    simp only [ExtendedMantissa.roundedMantissa, ExtendedMantissa.accuracy, Accuracy.roundToNearestEven]
  · refine .of_lt_half ?_
    rw [h]
    simp
  · refine .of_lt_half ?_
    rw [abs_lt]
    constructor <;> linarith [h.1, h.2]
  · refine ⟨?_, fun _ => by omega⟩
    rcases Nat.mod_two_eq_zero_or_one mantissa with hparity | hparity <;> rw [hparity, h] <;> push_cast <;>
      rw [abs_le] <;> constructor <;> linarith
  · refine .of_lt_half ?_
    push_cast
    rw [abs_lt]
    constructor <;> linarith [h.1, h.2]

end Represents

/-- Rounding a quotient is rounding its whole part by the residual bits of the rest. -/
theorem roundDiv_eq {num den : ℕ} (hden : 0 < den) :
    roundDiv num den =
      (ExtendedMantissa.ofMantissaAndAccuracy (num / den)
        (UnpackedFloat.accuracyOfFraction (num % den) den)).roundedMantissa := by
  unfold roundDiv UnpackedFloat.accuracyOfFraction
  split
  · next hlt =>
    split
    · rfl
    · rw [hlt]
      rfl
  · next hgt =>
    rw [if_neg (by have := Nat.compare_eq_gt.mp hgt; omega), hgt]
    rfl
  · next heq =>
    rw [if_neg (by have := Nat.compare_eq_eq.mp heq; omega), heq]
    rfl

/-- **A quotient is rounded to nearest**, ties to even. -/
theorem isNearest_roundDiv {num den : ℕ} (hden : 0 < den) : IsNearest (num / den) (roundDiv num den) := by
  rw [roundDiv_eq hden]
  exact (represents_quotient hden).isNearest

/-! ### The double of a rational number -/

/-- The exponent at which a number has a whole part of fifty-three bits. -/
structure HasExponent (q : ℚ) (exponent : ℤ) : Prop where
  low : 2 ^ 52 ≤ q / 2 ^ exponent
  high : q / 2 ^ exponent < 2 ^ 53

theorem HasExponent.le {q : ℚ} {e e' : ℤ} (h : HasExponent q e) (h' : HasExponent q e') : e' ≤ e := by
  by_contra hlt
  have hstep : e + 1 ≤ e' := by omega
  have hpow : (0 : ℚ) < 2 ^ e := by positivity
  have hpow' : (0 : ℚ) < 2 ^ e' := by positivity
  have hdouble : (2 : ℚ) ^ e * 2 ≤ 2 ^ e' := by
    rw [← zpow_add_one₀ two_ne_zero]
    exact zpow_le_zpow_right₀ one_le_two hstep
  have hhigh : q < 2 ^ 53 * 2 ^ e := (div_lt_iff₀ hpow).mp h.high
  have hlow' : 2 ^ 52 * 2 ^ e' ≤ q := (le_div_iff₀ hpow').mp h'.low
  linarith

theorem HasExponent.unique {q : ℚ} {e e' : ℤ} (h : HasExponent q e) (h' : HasExponent q e') : e = e' :=
  Int.le_antisymm (h'.le h) (h.le h')

/-- The double of a sign that a positive rational number rounds to.  Rounding the last of fifty-three bits may carry
into a fifty-fourth; then the mantissa is halved. -/
inductive RoundsTo (q : ℚ) (sign : Sign) : UnpackedFloat → Prop
  | plain {mantissa : ℕ} {exponent : ℤ} (hexponent : HasExponent q exponent)
      (hnear : IsNearest (q / 2 ^ exponent) mantissa) (hlt : mantissa < 2 ^ 53) (hpos : 0 < mantissa) :
      RoundsTo q sign (.finite sign mantissa exponent hpos)
  | carried {exponent : ℤ} (hexponent : HasExponent q exponent) (hnear : IsNearest (q / 2 ^ exponent) (2 ^ 53)) :
      RoundsTo q sign (.finite sign (2 ^ 52) (exponent + 1) (by decide))

/-- **There is only one double** that a number rounds to. -/
theorem RoundsTo.unique {q : ℚ} {sign : Sign} {f g : UnpackedFloat} (hf : RoundsTo q sign f) (hg : RoundsTo q sign g) :
    f = g := by
  cases hf with
  | plain hexponent hnear hlt hpos =>
    cases hg with
    | plain hexponent' hnear' hlt' hpos' =>
      obtain rfl := hexponent.unique hexponent'
      obtain rfl := hnear.unique hnear'
      rfl
    | carried hexponent' hnear' =>
      obtain rfl := hexponent.unique hexponent'
      exact absurd (hnear.unique hnear') hlt.ne
  | carried hexponent hnear =>
    cases hg with
    | plain hexponent' hnear' hlt' hpos' =>
      obtain rfl := hexponent.unique hexponent'
      exact absurd (hnear'.unique hnear) hlt'.ne
    | carried hexponent' hnear' =>
      obtain rfl := hexponent.unique hexponent'
      rfl

/-- The bits beyond the fifty-third go into the residual bits. -/
theorem shiftToTargetExponent_eq {mantissa : ℕ} {exponent : ℤ} (hbits : 52 ≤ mantissa.log2)
    (hleast : -1074 ≤ mantissa.log2 + exponent - 52) (accuracy : Accuracy) :
    UnpackedFloat.shiftToTargetExponent .binary64 mantissa exponent accuracy =
      (ExtendedMantissa.ofMantissaAndAccuracy mantissa accuracy >>> (mantissa.log2 - 52),
        mantissa.log2 + exponent - 52) := by
  have hshift : (max ((mantissa.log2 : ℤ) + 1 + exponent - (53 : ℕ)) (-1074) - exponent).toNat =
      mantissa.log2 - 52 := by omega
  have hexponent : exponent + ((mantissa.log2 - 52 : ℕ) : ℤ) = mantissa.log2 + exponent - 52 := by omega
  show (ExtendedMantissa.ofMantissaAndAccuracy mantissa accuracy >>>
      (max ((mantissa.log2 : ℤ) + 1 + exponent - (53 : ℕ)) (-1074) - exponent).toNat,
    exponent + ((max ((mantissa.log2 : ℤ) + 1 + exponent - (53 : ℕ)) (-1074) - exponent).toNat : ℤ)) =
    (ExtendedMantissa.ofMantissaAndAccuracy mantissa accuracy >>> (mantissa.log2 - 52),
      mantissa.log2 + exponent - 52)
  rw [hshift, hexponent]

/-- **A mantissa with its residual bits rounds as the number that it stands for.** -/
theorem roundsTo_roundWithAccuracy {mantissa : ℕ} {exponent : ℤ} {accuracy : Accuracy} {p : ℚ}
    (h : Represents (.ofMantissaAndAccuracy mantissa accuracy) p) (hbits : 52 ≤ mantissa.log2)
    (hleast : -1074 ≤ mantissa.log2 + exponent - 52) (sign : Sign) :
    RoundsTo (p * 2 ^ exponent) sign
      (UnpackedFloat.roundWithAccuracy .binary64 sign mantissa exponent accuracy) := by
  have hfirst := shiftToTargetExponent_eq hbits hleast accuracy
  have hlog := (shiftToTargetExponent_normal hbits hleast accuracy).1
  have hshifted := h.shiftRight (mantissa.log2 - 52)
  rw [hfirst] at hlog
  unfold UnpackedFloat.roundWithAccuracy
  rw [hfirst]
  generalize ExtendedMantissa.ofMantissaAndAccuracy mantissa accuracy >>> (mantissa.log2 - 52) = m at hlog hshifted
  dsimp only at hlog ⊢
  -- the number in units of the last of the fifty-three bits
  have hscale : p / 2 ^ (mantissa.log2 - 52) = p * 2 ^ exponent / 2 ^ ((mantissa.log2 : ℤ) + exponent - 52) := by
    have hsum : (mantissa.log2 : ℤ) + exponent - 52 = exponent + ((mantissa.log2 - 52 : ℕ) : ℤ) := by omega
    rw [hsum, zpow_add₀ two_ne_zero, zpow_natCast]
    field_simp
  rw [hscale] at hshifted
  have hbounds := hshifted.floor_bounds
  have hnear := hshifted.isNearest
  obtain ⟨hle, hlt⟩ := bounds_of_log2_eq hlog
  have hlow : (2 : ℚ) ^ 52 ≤ m.mantissa := by exact_mod_cast hle
  have hhigh : (m.mantissa : ℚ) + 1 ≤ 2 ^ 53 := by exact_mod_cast hlt
  have hexponent : HasExponent (p * 2 ^ exponent) (mantissa.log2 + exponent - 52) :=
    ⟨le_trans hlow hbounds.1, lt_of_lt_of_le hbounds.2 hhigh⟩
  have hrounded : m.mantissa ≤ m.roundedMantissa := le_roundToNearestEven _ _
  have hrounded' : m.roundedMantissa ≤ m.mantissa + 1 := roundToNearestEven_le _ _
  rcases Nat.lt_or_ge m.roundedMantissa (2 ^ 53) with hsmall | hlarge
  · have hlog' : m.roundedMantissa.log2 = 52 :=
      (Nat.log2_eq_iff (by omega)).mpr ⟨le_trans hle hrounded, hsmall⟩
    rw [shiftToTargetExponent_eq (by omega) (by omega), hlog', dif_neg (by show m.roundedMantissa ≠ 0; omega)]
    have hsame : ((52 : ℕ) : ℤ) + (mantissa.log2 + exponent - 52) - 52 = mantissa.log2 + exponent - 52 := by omega
    simp only [hsame]
    exact .plain hexponent hnear hsmall _
  · have hcarry : m.roundedMantissa = 2 ^ 53 := by omega
    rw [hcarry] at hnear ⊢
    have hhalf : (ExtendedMantissa.ofMantissaAndAccuracy (2 ^ 53) .exact >>> (53 - 52)).mantissa = 2 ^ 52 := by decide
    rw [shiftToTargetExponent_eq (by decide) (by rw [Nat.log2_two_pow]; omega), Nat.log2_two_pow,
      dif_neg (by rw [hhalf]; decide)]
    have hnext : ((53 : ℕ) : ℤ) + (mantissa.log2 + exponent - 52) - 52 = mantissa.log2 + exponent - 52 + 1 := by omega
    simp only [hnext]
    exact .carried hexponent hnear

/-! ### Operations -/

/-- The size of a finite double. -/
def magnitude : UnpackedFloat → ℚ
  | .finite _ mantissa exponent _ => mantissa * 2 ^ exponent
  | _ => 0

variable {sign sign' : Sign} {low high low' high' : ℤ} {f g : UnpackedFloat}

/-- A double rounds to itself. -/
theorem roundsTo_magnitude (h : Normal sign low high f) : RoundsTo (magnitude f) sign f := by
  obtain ⟨mantissa, exponent, hpos, rfl, hlog, -, -⟩ := h.exists_finite
  obtain ⟨hle, hlt⟩ := bounds_of_log2_eq hlog
  have hunits : (mantissa : ℚ) * 2 ^ exponent / 2 ^ exponent = mantissa := by field_simp
  refine .plain ⟨?_, ?_⟩ (.of_lt_half ?_) hlt hpos
  · rw [magnitude, hunits]
    exact_mod_cast hle
  · rw [magnitude, hunits]
    exact_mod_cast hlt
  · rw [magnitude, hunits, sub_self]
    norm_num

/-- A double with all its bits is what its size rounds to. -/
theorem RoundsTo.eq_of_normal (h : RoundsTo (magnitude g) sign f) (hg : Normal sign low high g) : f = g :=
  h.unique (roundsTo_magnitude hg)

theorem roundsTo_mul (hf : Normal sign low high f) (hg : Normal sign' low' high' g) (hleast : -1126 ≤ low + low') :
    RoundsTo (magnitude f * magnitude g) (sign * sign') (UnpackedFloat.mul .binary64 f g) := by
  obtain ⟨mantissa, exponent, hpos, rfl, hlog, hle, hge⟩ := hf.exists_finite
  obtain ⟨mantissa', exponent', hpos', rfl, hlog', hle', hge'⟩ := hg.exists_finite
  have hbits := log2_product hlog hlog'
  have hvalue : magnitude (.finite sign mantissa exponent hpos) * magnitude (.finite sign' mantissa' exponent' hpos') =
      ((mantissa * mantissa' : ℕ) : ℚ) * 2 ^ (exponent + exponent') := by
    rw [magnitude, magnitude, zpow_add₀ two_ne_zero]
    push_cast
    ring
  rw [hvalue]
  exact roundsTo_roundWithAccuracy (represents_exact _) (by omega) (by omega) _

theorem roundsTo_div (hf : Normal sign low high f) (hg : Normal sign' low' high' g) (hleast : -1021 ≤ low - high') :
    RoundsTo (magnitude f / magnitude g) (sign / sign') (UnpackedFloat.div .binary64 f g) := by
  obtain ⟨mantissa, exponent, hpos, rfl, hlog, hle, hge⟩ := hf.exists_finite
  obtain ⟨mantissa', exponent', hpos', rfl, hlog', hle', hge'⟩ := hg.exists_finite
  have hbits := log2_quotient hlog hlog'
  have hvalue : magnitude (.finite sign mantissa exponent hpos) / magnitude (.finite sign' mantissa' exponent' hpos') =
      ((mantissa <<< 53 : ℕ) : ℚ) / mantissa' * 2 ^ (exponent - exponent' - 53) := by
    have hden : (mantissa' : ℚ) ≠ 0 := by exact_mod_cast hpos'.ne'
    rw [magnitude, magnitude, zpow_sub₀ two_ne_zero, zpow_sub₀ two_ne_zero, Nat.shiftLeft_eq]
    push_cast
    field_simp
  rw [hvalue, UnpackedFloat.div, divCore_normal hlog hlog' (by omega)]
  exact roundsTo_roundWithAccuracy (represents_quotient hpos') (by omega) (by omega) _

theorem magnitude_neg (f : UnpackedFloat) : magnitude f.neg = magnitude f := by
  cases f <;> rfl

theorem RoundsTo.neg {q : ℚ} (h : RoundsTo q sign f) : RoundsTo q (-sign) f.neg := by
  cases h with
  | plain hexponent hnear hlt hpos => exact .plain hexponent hnear hlt hpos
  | carried hexponent hnear => exact .carried hexponent hnear

/-! ### Doubles -/

/-- The double that a number of a sign rounds to. -/
def IsRounded (q : ℚ) (sign : Sign) (x : Float) : Prop := ∃ f, RoundsTo q sign f ∧ x = Float.ofModel (Float.Model.pack f)

theorem IsRounded.unique {q : ℚ} {x y : Float} (hx : IsRounded q sign x) (hy : IsRounded q sign y) : x = y := by
  obtain ⟨f, hf, rfl⟩ := hx
  obtain ⟨g, hg, rfl⟩ := hy
  rw [hf.unique hg]

theorem RoundsTo.isRounded_neg {q : ℚ} {x : Float} (h : RoundsTo q sign x.toModel.unpack) : IsRounded q (-sign) (-x) :=
  ⟨_, h.neg, rfl⟩

section Float

variable {x y : Float} (hx : Normal sign low high x.toModel.unpack) (hy : Normal sign' low' high' y.toModel.unpack)

include hx

theorem unpack_neg (hlow : -1074 ≤ low) (hhigh : high ≤ 970) : (-x).toModel.unpack = x.toModel.unpack.neg :=
  unpack_pack_of_normal (normal_neg hx) hlow hhigh

include hy

theorem unpack_div (hleast : -1021 ≤ low - high') (hgreatest : high - low' ≤ 1021) :
    (x / y).toModel.unpack = UnpackedFloat.div .binary64 x.toModel.unpack y.toModel.unpack :=
  unpack_pack_of_normal (normal_div hx hy hleast) (by omega) (by omega)

/-- **A quotient of doubles is what the quotient of their sizes rounds to.** -/
theorem roundsTo_unpack_div (hleast : -1021 ≤ low - high') (hgreatest : high - low' ≤ 1021) :
    RoundsTo (magnitude x.toModel.unpack / magnitude y.toModel.unpack) (sign / sign') (x / y).toModel.unpack := by
  rw [unpack_div hx hy hleast hgreatest]
  exact roundsTo_div hx hy hleast

/-- **A quotient of doubles is its exact value rounded.** -/
theorem isRounded_div (hleast : -1021 ≤ low - high') :
    IsRounded (magnitude x.toModel.unpack / magnitude y.toModel.unpack) (sign / sign') (x / y) :=
  ⟨_, roundsTo_div hx hy hleast, rfl⟩

end Float

/-! ### Integers -/

/-- A natural number with few enough bits is its own double. -/
theorem magnitude_ofNat {n : ℕ} (hn : n ≠ 0) (hlt : n < 2 ^ 53) : magnitude (UnpackedFloat.ofNat .binary64 n) = n := by
  obtain ⟨hfull, heq⟩ := ofNat_eq_roundWithAccuracy hn hlt
  have hlog : n.log2 < 53 := (Nat.log2_lt hn).mpr hlt
  have hpos : 0 < n <<< (52 - n.log2) := Nat.pos_of_ne_zero (ne_zero_of_log2_eq hfull)
  let exact : UnpackedFloat := .finite .positive (n <<< (52 - n.log2)) (0 - (52 - n.log2 : ℕ)) hpos
  have hnormal : Normal .positive (-52) 0 exact := ⟨rfl, hfull, by omega, by omega⟩
  have hrounds : RoundsTo (magnitude exact) .positive (UnpackedFloat.ofNat .binary64 n) := by
    rw [heq]
    exact roundsTo_roundWithAccuracy (represents_exact _) hfull.ge (by rw [hfull]; omega) _
  rw [hrounds.eq_of_normal hnormal]
  show ((n <<< (52 - n.log2) : ℕ) : ℚ) * 2 ^ ((0 : ℤ) - (52 - n.log2 : ℕ)) = n
  rw [Nat.shiftLeft_eq, zpow_sub₀ two_ne_zero, zpow_natCast]
  push_cast
  field_simp

theorem magnitude_one : magnitude (Float.ofBits 0x3FF0000000000000).toModel.unpack = 1 := by
  rw [unpack_one, magnitude]
  norm_num

theorem magnitude_natCast {n : ℕ} (hn : n ≠ 0) (hlt : n < 2 ^ 53) : magnitude (Float.ofNat n).toModel.unpack = n := by
  have hword := normal_ofNat hn hlt
  have hproduct := roundsTo_mul hword normal_one (by decide)
  rw [magnitude_one, mul_one] at hproduct
  have hunpack : (Float.ofNat n).toModel.unpack =
      UnpackedFloat.mul .binary64 (UnpackedFloat.ofNat .binary64 n) (Float.ofBits 0x3FF0000000000000).toModel.unpack := by
    rw [ofNat_eq_mul_one hlt, ← unpack_word hn hlt]
    have hnormal := normal_mul hword normal_one (by decide)
    rw [← unpack_word hn hlt] at hnormal
    exact unpack_pack_of_normal hnormal (by decide) (by decide)
  rw [hunpack, hproduct.eq_of_normal hword, magnitude_ofNat hn hlt]

/-- The size of an integer as a double. -/
theorem magnitude_ofInt {d : ℤ} (hd : d ≠ 0) (hlt : d.natAbs < 2 ^ 53) :
    magnitude (Float.ofInt d).toModel.unpack = d.natAbs := by
  cases d with
  | ofNat n => exact magnitude_natCast (by simpa using hd) hlt
  | negSucc n =>
    have hpositive : Normal .positive (-52) 3 (Float.ofNat (n + 1)).toModel.unpack := normal_natCast (by omega) hlt
    show magnitude (-(Float.ofNat (n + 1))).toModel.unpack = _
    rw [unpack_neg hpositive (by decide) (by decide), magnitude_neg]
    exact magnitude_natCast (Nat.succ_ne_zero n) hlt

end LogCorrelation.Decimal
