import LogCorrelation.Proofs.TimeOfDay.Elapsed
import Mathlib

/-!
# Proofs.Decimal.Normal — signs of doubles through a computation

A double is normal if its mantissa has all of its fifty-three bits.  Rounding a mantissa that has as many bits or more
gives a normal number again, of the same sign, where the exponent is far from both ends.  So a computation that starts
from normal numbers never arrives at zero, and the sign of what it arrives at is that of the exact result.

* `normal_roundWithAccuracy`: rounding gives a normal number.
* `normal_mul`, `normal_neg`, `normal_div`: so do the operations, and the sign goes with them.
* `Normal.comparesAs`, `compare_zero_iff`: how such a number compares with zero.
-/

namespace LogCorrelation

open Float.Model (Format UnpackedFloat totalExponent)
open Float.Model.UnpackedFloat (Sign Accuracy ExtendedMantissa)

/-- A number of a given sign whose mantissa has all its bits, and whose exponent lies in a range. -/
def Normal (sign : Sign) (low high : Int) : UnpackedFloat → Prop
  | .finite sign' mantissa exponent _ => sign' = sign ∧ mantissa.log2 = 52 ∧ low ≤ exponent ∧ exponent ≤ high
  | _ => False

/-- A normal number is finite, with all of its bits. -/
theorem Normal.exists_finite {sign : Sign} {low high : Int} {f : UnpackedFloat} (h : Normal sign low high f) :
    ∃ mantissa exponent hpos, f = .finite sign mantissa exponent hpos ∧ mantissa.log2 = 52 ∧ low ≤ exponent ∧
      exponent ≤ high := by
  cases f with
  | infinity _ => exact absurd h id
  | notANumber => exact absurd h id
  | zero _ => exact absurd h id
  | finite _ mantissa exponent hpos =>
    obtain ⟨rfl, hlog, hle, hge⟩ := h
    exact ⟨mantissa, exponent, hpos, rfl, hlog, hle, hge⟩

/-! ### Packing -/

/-- The hidden bit is the fifty-third. -/
theorem hidden_append_ofNat {mantissa : Nat} (h : mantissa.log2 = 52) :
    (1#1 ++ BitVec.ofNat 52 mantissa).toNat = mantissa := by
  have hne : mantissa ≠ 0 := by
    rintro rfl
    exact absurd h (by decide)
  obtain ⟨hle, hlt⟩ := (Nat.log2_eq_iff hne).mp h
  rw [BitVec.toNat_append, ← Nat.shiftLeft_add_eq_or_of_lt (BitVec.ofNat 52 mantissa).isLt, BitVec.toNat_ofNat]
  show 1 <<< 52 + mantissa % 2 ^ 52 = mantissa
  omega

/-- **A normal number is packed and unpacked without loss.** -/
theorem unpack_pack_of_normal {sign : Sign} {low high : Int} {f : UnpackedFloat} (h : Normal sign low high f)
    (hlow : -1074 ≤ low) (hhigh : high ≤ 970) : (Float.Model.pack f).unpack = f := by
  obtain ⟨mantissa, exponent, hpos, rfl, hlog, hle, hge⟩ := h.exists_finite
  let field := (exponent + 1075).toNat
  let packed := UnpackedFloat.packComponents Format.binary64 sign (BitVec.ofNat 11 field) (BitVec.ofNat 52 mantissa)
  have hfield : (BitVec.ofNat 11 field).toNat = field := Nat.mod_eq_of_lt (by show _ < 2048; omega)
  have hpacked : UnpackedFloat.pack .binary64 (.finite sign mantissa exponent hpos) = packed := by
    have hbiased : (exponent + Format.binary64.exponentBias + Format.binary64.mantissaBitsWithoutImplicit).toNat =
        field := by
      show (exponent + (1023 : Nat) + (52 : Nat)).toNat = _
      omega
    have hbits : 52 + 1 = Format.binary64.mantissaBits := rfl
    unfold UnpackedFloat.pack
    dsimp only
    rw [hbiased, hlog, if_neg (by omega), if_pos hbits]
  have hexponent : UnpackedFloat.unpackExponent packed = BitVec.ofNat 11 field :=
    UnpackedFloat.unpackExponent_packComponents
  have hmantissa : UnpackedFloat.unpackMantissa packed = BitVec.ofNat 52 mantissa :=
    UnpackedFloat.unpackMantissa_packComponents
  have hsign : UnpackedFloat.unpackSign packed = sign.toBitVec := UnpackedFloat.unpackSign_packComponents _ _ _
  have hones : BitVec.ofNat 11 field ≠ -1#11 := by
    intro hall
    have hgreatest : field = 2047 := hfield.symm.trans (congrArg BitVec.toNat hall)
    omega
  have hnonzero : BitVec.ofNat 11 field ≠ 0#11 := by
    intro hnone
    have hleast : field = 0 := hfield.symm.trans (congrArg BitVec.toNat hnone)
    omega
  have hback : (field : Int) - ((1023 : Nat) + (52 : Nat)) = exponent := by omega
  show UnpackedFloat.unpack .binary64 (UnpackedFloat.pack .binary64 _) = _
  rw [hpacked]
  unfold UnpackedFloat.unpack
  dsimp only
  rw [hexponent, hsign, if_neg hones, if_neg hnonzero]
  simp only [hmantissa, hidden_append_ofNat hlog, Sign.ofBitVec_toBitVec, hfield]
  show UnpackedFloat.finite sign mantissa ((field : Int) - ((1023 : Nat) + (52 : Nat))) _ = _
  simp only [hback]

/-- A normal number is packed and unpacked within its own range. -/
theorem normal_unpack_pack {sign : Sign} {low high : Int} {f : UnpackedFloat} (h : Normal sign low high f)
    (hlow : -1074 ≤ low) (hhigh : high ≤ 970) : Normal sign low high (Float.Model.pack f).unpack := by
  rw [unpack_pack_of_normal h hlow hhigh]
  exact h

/-! ### Rounding -/

theorem le_roundToNearestEven (mantissa : Nat) (accuracy : Accuracy) :
    mantissa ≤ accuracy.roundToNearestEven mantissa := by
  rcases accuracy with _ | _ | _ | _ <;> simp only [Accuracy.roundToNearestEven] <;> omega

theorem log2_shiftRight (m k : Nat) : (m >>> k).log2 = m.log2 - k := by
  rw [Nat.shiftRight_eq_div_pow, Nat.log2_eq_log_two, Nat.log2_eq_log_two, Nat.log_div_base_pow]

theorem log2_shiftLeft {n : Nat} (hn : n ≠ 0) (k : Nat) : (n <<< k).log2 = n.log2 + k := by
  induction k with
  | zero => rfl
  | succ k ih =>
    have hne : n <<< k ≠ 0 := by simpa using hn
    rw [Nat.shiftLeft_succ, Nat.log2_two_mul hne, ih, Nat.add_assoc]

theorem log2_eq_or_of_bounds {m k : Nat} (hle : 2 ^ k ≤ m) (hlt : m < 2 ^ (k + 2)) : m.log2 = k ∨ m.log2 = k + 1 := by
  have hne : m ≠ 0 := Nat.ne_of_gt (Nat.lt_of_lt_of_le (Nat.two_pow_pos k) hle)
  have hlow := (Nat.le_log2 hne).mpr hle
  have hhigh := (Nat.log2_lt hne).mpr hlt
  omega

theorem ne_zero_of_log2_eq {m : Nat} (h : m.log2 = 52) : m ≠ 0 := by
  rintro rfl
  exact absurd h (by decide)

theorem bounds_of_log2_eq {m : Nat} (h : m.log2 = 52) : 2 ^ 52 ≤ m ∧ m < 2 ^ 53 :=
  (Nat.log2_eq_iff (ne_zero_of_log2_eq h)).mp h

/-- Bits beyond the fifty-third are shifted out. -/
theorem shiftToTargetExponent_normal {mantissa : Nat} {exponent : Int} (hmantissa : 52 ≤ mantissa.log2)
    (hleast : -1074 ≤ mantissa.log2 + exponent - 52) (accuracy : Accuracy) :
    (UnpackedFloat.shiftToTargetExponent .binary64 mantissa exponent accuracy).1.mantissa.log2 = 52 ∧
      (UnpackedFloat.shiftToTargetExponent .binary64 mantissa exponent accuracy).2 = mantissa.log2 + exponent - 52 := by
  have hshift : (max ((mantissa.log2 : Int) + 1 + exponent - (53 : Nat)) (-1074) - exponent).toNat =
      mantissa.log2 - 52 := by omega
  constructor
  · show ((ExtendedMantissa.ofMantissaAndAccuracy mantissa accuracy) >>>
      (max ((mantissa.log2 : Int) + 1 + exponent - (53 : Nat)) (-1074) - exponent).toNat).mantissa.log2 = 52
    rw [mantissa_shiftRight, mantissa_ofMantissaAndAccuracy, log2_shiftRight, hshift]
    omega
  · show exponent + ((max ((mantissa.log2 : Int) + 1 + exponent - (53 : Nat)) (-1074) - exponent).toNat : Int) = _
    rw [hshift]
    omega

/-- **Rounding gives a normal number** where there are bits enough and the exponent is far from both ends. -/
theorem normal_roundWithAccuracy {mantissa : Nat} {exponent low high : Int} (hmantissa : 52 ≤ mantissa.log2)
    (hlow : low ≤ mantissa.log2 + exponent - 52) (hhigh : mantissa.log2 + exponent - 51 ≤ high) (hleast : -1074 ≤ low)
    (sign : Sign) (accuracy : Accuracy) :
    Normal sign low high (UnpackedFloat.roundWithAccuracy .binary64 sign mantissa exponent accuracy) := by
  obtain ⟨hfirst, hexponent⟩ := shiftToTargetExponent_normal hmantissa (le_trans hleast hlow) accuracy
  unfold UnpackedFloat.roundWithAccuracy
  generalize UnpackedFloat.shiftToTargetExponent .binary64 mantissa exponent accuracy = first at hfirst hexponent
  obtain ⟨shifted, exponent'⟩ := first
  dsimp only at hfirst hexponent ⊢
  -- rounding may carry into a fifty-fourth bit, and the second shift takes it back
  obtain ⟨hle, hlt⟩ := bounds_of_log2_eq hfirst
  have hrounded : shifted.mantissa ≤ shifted.roundedMantissa := le_roundToNearestEven _ _
  have hrounded' : shifted.roundedMantissa ≤ shifted.mantissa + 1 := roundToNearestEven_le _ _
  have hbits : shifted.roundedMantissa.log2 = 52 ∨ shifted.roundedMantissa.log2 = 53 :=
    log2_eq_or_of_bounds (le_trans hle hrounded) (by omega)
  have henough : 52 ≤ shifted.roundedMantissa.log2 := by omega
  have hleast' : -1074 ≤ shifted.roundedMantissa.log2 + exponent' - 52 := by omega
  obtain ⟨hsecond, hexponent''⟩ := shiftToTargetExponent_normal henough hleast' .exact
  rw [dif_neg (ne_zero_of_log2_eq hsecond)]
  refine ⟨rfl, hsecond, ?_, ?_⟩ <;> omega

/-! ### Operations -/

variable {sign sign' : Sign} {low high low' high' : Int} {f g : UnpackedFloat}

/-- The mantissa of a natural number is shifted up until it has all its bits. -/
theorem ofNat_eq_roundWithAccuracy {n : Nat} (hn : n ≠ 0) (hlt : n < 2 ^ 53) :
    (n <<< (52 - n.log2)).log2 = 52 ∧ UnpackedFloat.ofNat .binary64 n =
      UnpackedFloat.roundWithAccuracy .binary64 .positive (n <<< (52 - n.log2)) (0 - (52 - n.log2 : Nat)) .exact := by
  have hlog : n.log2 < 53 := (Nat.log2_lt hn).mpr hlt
  have hshift : (0 - max ((n.log2 : Int) + 1 + 0 - (53 : Nat)) (-1074)).toNat = 52 - n.log2 := by omega
  refine ⟨by rw [log2_shiftLeft hn]; omega, ?_⟩
  unfold UnpackedFloat.ofNat UnpackedFloat.ofInt UnpackedFloat.normalize
  split
  · next h => exact absurd (Int.compare_eq_lt.mp h) (by omega)
  · next h => exact absurd (Int.compare_eq_eq.mp h) (by omega)
  · show UnpackedFloat.roundWithAccuracy .binary64 .positive
      (n <<< (0 - max ((n.log2 : Int) + 1 + 0 - (53 : Nat)) (-1074)).toNat)
      (0 - ((0 - max ((n.log2 : Int) + 1 + 0 - (53 : Nat)) (-1074)).toNat : Int)) .exact = _
    rw [hshift]

theorem normal_ofNat {n : Nat} (hn : n ≠ 0) (hlt : n < 2 ^ 53) :
    Normal .positive (-52) 1 (UnpackedFloat.ofNat .binary64 n) := by
  obtain ⟨hfull, heq⟩ := ofNat_eq_roundWithAccuracy hn hlt
  rw [heq]
  refine normal_roundWithAccuracy ?_ ?_ ?_ (by decide) _ _ <;> rw [hfull] <;> omega

theorem log2_product {m n : Nat} (hm : m.log2 = 52) (hn : n.log2 = 52) :
    (m * n).log2 = 104 ∨ (m * n).log2 = 105 := by
  obtain ⟨hmle, hmlt⟩ := bounds_of_log2_eq hm
  obtain ⟨hnle, hnlt⟩ := bounds_of_log2_eq hn
  have hproduct : 2 ^ 52 * 2 ^ 52 ≤ m * n := Nat.mul_le_mul hmle hnle
  have hproduct' : m * n < 2 ^ 53 * 2 ^ 53 := Nat.mul_lt_mul'' hmlt hnlt
  exact log2_eq_or_of_bounds hproduct hproduct'

/-- A dividend that is shifted by all the bits of a mantissa gives a quotient with bits enough. -/
theorem log2_quotient {m n : Nat} (hm : m.log2 = 52) (hn : n.log2 = 52) :
    (m <<< 53 / n).log2 = 52 ∨ (m <<< 53 / n).log2 = 53 := by
  obtain ⟨hmle, hmlt⟩ := bounds_of_log2_eq hm
  obtain ⟨hnle, hnlt⟩ := bounds_of_log2_eq hn
  have hquotient : 2 ^ 52 ≤ m <<< 53 / n := by
    rw [Nat.shiftLeft_eq, Nat.le_div_iff_mul_le (by omega)]
    omega
  have hquotient' : m <<< 53 / n < 2 ^ (52 + 2) := by
    rw [Nat.shiftLeft_eq, Nat.div_lt_iff_lt_mul (by omega)]
    omega
  exact log2_eq_or_of_bounds hquotient hquotient'

theorem divCore_normal {m n : Nat} {e e' : Int} (hm : m.log2 = 52) (hn : n.log2 = 52) (hleast : -1021 ≤ e - e') :
    UnpackedFloat.divCore .binary64 m e n e' =
      (m <<< 53 / n, e - e' - 53, UnpackedFloat.accuracyOfFraction (m <<< 53 % n) n) := by
  let target := min (e - e')
    (max (((m.log2 : Int) + 1 + e) - ((n.log2 : Int) + 1 + e') - (53 : Nat)) (-1074))
  have htarget : target = e - e' - 53 := by omega
  have hshift : (e - e' - target).toNat = 53 := by omega
  show (m <<< (e - e' - target).toNat / n, target,
    UnpackedFloat.accuracyOfFraction (m <<< (e - e' - target).toNat % n) n) = _
  rw [hshift, htarget]

theorem normal_mul (hf : Normal sign low high f) (hg : Normal sign' low' high' g) (hleast : -1126 ≤ low + low') :
    Normal (sign * sign') (low + low' + 52) (high + high' + 54) (UnpackedFloat.mul .binary64 f g) := by
  obtain ⟨mantissa, exponent, hpos, rfl, hlog, hle, hge⟩ := hf.exists_finite
  obtain ⟨mantissa', exponent', hpos', rfl, hlog', hle', hge'⟩ := hg.exists_finite
  have hbits := log2_product hlog hlog'
  show Normal _ _ _
    (UnpackedFloat.roundWithAccuracy .binary64 _ (mantissa * mantissa') (exponent + exponent') .exact)
  refine normal_roundWithAccuracy ?_ ?_ ?_ ?_ _ _ <;> omega

theorem normal_neg (h : Normal sign low high f) : Normal (-sign) low high f.neg := by
  obtain ⟨mantissa, exponent, hpos, rfl, hlog, hle, hge⟩ := h.exists_finite
  exact ⟨rfl, hlog, hle, hge⟩

theorem normal_div (hf : Normal sign low high f) (hg : Normal sign' low' high' g) (hleast : -1021 ≤ low - high') :
    Normal (sign / sign') (low - high' - 53) (high - low' - 51) (UnpackedFloat.div .binary64 f g) := by
  obtain ⟨mantissa, exponent, hpos, rfl, hlog, hle, hge⟩ := hf.exists_finite
  obtain ⟨mantissa', exponent', hpos', rfl, hlog', hle', hge'⟩ := hg.exists_finite
  have hbits := log2_quotient hlog hlog'
  rw [UnpackedFloat.div, divCore_normal hlog hlog' (by omega)]
  refine normal_roundWithAccuracy ?_ ?_ ?_ ?_ _ _ <;> omega

/-! ### Integers -/

/-- The sign of an integer as a double. -/
def signOf (d : Int) : Sign := if d < 0 then .negative else .positive

theorem signOf_natCast (n : Nat) : signOf n = .positive := if_neg (Int.not_lt.mpr (Int.natCast_nonneg n))

/-- A number that has few enough bits is converted without loss. -/
theorem unpack_word {n : Nat} (hn : n ≠ 0) (hlt : n < 2 ^ 53) :
    n.toUInt64.toFloat.toModel.unpack = UnpackedFloat.ofNat .binary64 n := by
  have htoNat : n.toUInt64.toNat = n := UInt64.toNat_ofNat_of_lt (Nat.lt_trans hlt (by decide))
  show (Float.Model.pack (UnpackedFloat.ofNat .binary64 n.toUInt64.toNat)).unpack = _
  rw [htoNat]
  exact unpack_pack_of_normal (normal_ofNat hn hlt) (by decide) (by decide)

theorem normal_one : Normal .positive (-52) (-52) (Float.ofBits 0x3FF0000000000000).toModel.unpack := by
  rw [unpack_one]
  exact ⟨rfl, by decide, by decide, by decide⟩

theorem normal_natCast {n : Nat} (hn : n ≠ 0) (hlt : n < 2 ^ 53) :
    Normal .positive (-52) 3 (Float.ofNat n).toModel.unpack := by
  have hword : Normal .positive (-52) 1 n.toUInt64.toFloat.toModel.unpack := by
    rw [unpack_word hn hlt]
    exact normal_ofNat hn hlt
  rw [ofNat_eq_mul_one hlt]
  exact normal_unpack_pack (normal_mul hword normal_one (by decide)) (by decide) (by decide)

theorem normal_ofInt {d : Int} (hd : d ≠ 0) (hlt : d.natAbs < 2 ^ 53) :
    Normal (signOf d) (-52) 3 (Float.ofInt d).toModel.unpack := by
  cases d with
  | ofNat n =>
    have hn : n ≠ 0 := by simpa using hd
    have hsign : signOf (Int.ofNat n) = .positive := signOf_natCast n
    rw [hsign]
    exact normal_natCast hn hlt
  | negSucc n =>
    have hsign : signOf (Int.negSucc n) = -.positive := if_pos (Int.negSucc_lt_zero n)
    have hpositive : Normal .positive (-52) 3 (Float.ofNat (n + 1)).toModel.unpack := normal_natCast (by omega) hlt
    rw [hsign]
    exact normal_unpack_pack (normal_neg hpositive) (by decide) (by decide)

/-! ### Comparison with zero -/

/-- An unpacked double that compares with zero as an integer does. -/
def ComparesAs (d : Int) (f : UnpackedFloat) : Prop :=
  f.compare (.zero .positive) = some (compare d 0) ∧ (UnpackedFloat.zero .positive).compare f = some (compare 0 d)

theorem Normal.comparesAs {d : Int} (hd : d ≠ 0) (h : Normal (signOf d) low high f) : ComparesAs d f := by
  obtain ⟨mantissa, exponent, hpos, rfl, -⟩ := h.exists_finite
  rcases Int.lt_or_gt_of_ne hd with hneg | hpos'
  · rw [signOf, if_pos hneg, ComparesAs, Int.compare_eq_lt.mpr hneg, Int.compare_eq_gt.mpr hneg]
    exact ⟨rfl, rfl⟩
  · rw [signOf, if_neg (Int.not_lt.mpr (Int.le_of_lt hpos')), ComparesAs, Int.compare_eq_gt.mpr hpos',
      Int.compare_eq_lt.mpr hpos']
    exact ⟨rfl, rfl⟩

theorem unpack_zero : (0.0 : Float).toModel.unpack = .zero .positive := by
  rfl

theorem compare_zero_iff {x : Float} {d : Int} (h : ComparesAs d x.toModel.unpack) :
    (x < 0.0 ↔ d < 0) ∧ (0.0 < x ↔ 0 < d) ∧ ((x == 0.0) = true ↔ d = 0) := by
  refine ⟨?_, ?_, ?_⟩
  · show decide (x.toModel.unpack.lt (0.0 : Float).toModel.unpack = true) = true ↔ _
    rw [unpack_zero, decide_eq_true_iff, UnpackedFloat.lt, beq_iff_eq, h.1, Option.some.injEq, Int.compare_eq_lt]
  · show decide ((0.0 : Float).toModel.unpack.lt x.toModel.unpack = true) = true ↔ _
    rw [unpack_zero, decide_eq_true_iff, UnpackedFloat.lt, beq_iff_eq, h.2, Option.some.injEq, Int.compare_eq_lt]
  · show x.toModel.unpack.beq (0.0 : Float).toModel.unpack = true ↔ _
    rw [unpack_zero, UnpackedFloat.beq, beq_iff_eq, h.1, Option.some.injEq, Int.compare_eq_eq]

end LogCorrelation
