import LogCorrelation.TimeOfDay.Basic

/-!
# Proofs.TimeOfDay.Elapsed — elapsed time is a finite number

Rounding can overflow only where exponents are large.  `Within` bounds the exponent and the bits of the mantissa of an
unpacked double; each step of the computation of `elapsed` widens the bounds, and the last ones are still far from
overflow.
-/

namespace LogCorrelation

open Float.Model (Format UnpackedFloat totalExponent)
open Float.Model.UnpackedFloat (Sign Accuracy ExtendedMantissa)

/-! ### Bounds on unpacked doubles -/

/-- A number whose mantissa has a number of bits at most, and whose exponent has an upper bound. -/
def Within (bits : Nat) (top : Int) : UnpackedFloat → Prop
  | .zero _ => True
  | .finite _ mantissa exponent _ => mantissa < Nat.pow 2 bits ∧ exponent ≤ top
  | _ => False

namespace Within

variable {bits : Nat} {top : Int} {f : UnpackedFloat}

theorem isFinite (h : Within bits top f) : f.isFinite = true := by
  cases f with
  | zero sign => rfl
  | finite sign mantissa exponent hpos => rfl
  | infinity sign => exact absurd h id
  | notANumber => exact absurd h id

variable {p : Prop} [Decidable p]

theorem ite {f g : UnpackedFloat} (hf : p → Within bits top f) (hg : ¬ p → Within bits top g) :
    Within bits top (if p then f else g) := by
  by_cases h : p
  · rw [if_pos h]
    exact hf h
  · rw [if_neg h]
    exact hg h

theorem dite {f : p → UnpackedFloat} {g : ¬ p → UnpackedFloat} (hf : ∀ h, Within bits top (f h))
    (hg : ∀ h, Within bits top (g h)) : Within bits top (if h : p then f h else g h) := by
  by_cases h : p
  · rw [dif_pos h]
    exact hf h
  · rw [dif_neg h]
    exact hg h

end Within

/-! ### Packing -/

theorem within_unpack_packComponents {sign : Sign} {exponent : BitVec 11} {mantissa : BitVec 52}
    (h : exponent ≠ -1#11) {top : Int} (htop : (exponent.toNat : Int) - 1075 ≤ top) (hleast : -1074 ≤ top) :
    Within 53 top (UnpackedFloat.unpack .binary64 (UnpackedFloat.packComponents .binary64 sign exponent mantissa)) := by
  have hbias : ((Format.binary64.exponentBias : Nat) : Int) = 1023 := rfl
  have hplaces : ((Format.binary64.mantissaBitsWithoutImplicit : Nat) : Int) = 52 := rfl
  have hpow : Nat.pow 2 53 = 9007199254740992 := rfl
  have hmantissa : mantissa.toNat < 4503599627370496 := mantissa.isLt
  let packed := UnpackedFloat.packComponents Format.binary64 sign exponent mantissa
  have hm : UnpackedFloat.unpackMantissa packed = mantissa := UnpackedFloat.unpackMantissa_packComponents
  have he : UnpackedFloat.unpackExponent packed = exponent := UnpackedFloat.unpackExponent_packComponents
  show Within 53 top (UnpackedFloat.unpack Format.binary64 packed)
  unfold UnpackedFloat.unpack
  dsimp only
  refine Within.ite (fun hones => absurd (he.symm.trans hones) h) fun _ => Within.ite (fun hzero => ?_) fun _ => ?_
  · -- no leading bit is hidden, and the exponent is the least one
    refine Within.dite (fun _ => trivial) fun _ => ⟨?_, ?_⟩
    · rw [hm]
      omega
    · rw [hzero, hbias, hplaces]
      show (0 : Int) - (1023 + 52) + 1 ≤ top
      omega
  · have hwhole : (1#1 ++ UnpackedFloat.unpackMantissa packed).toNat < 9007199254740992 :=
      (1#1 ++ UnpackedFloat.unpackMantissa packed).isLt
    refine ⟨hpow ▸ hwhole, ?_⟩
    rw [he, hbias, hplaces]
    omega

/-- A number is packed and unpacked within its own bounds, if its exponent is far from overflow. -/
theorem within_unpack_pack {bits : Nat} {top : Int} {f : UnpackedFloat} (h : Within bits top f) (hleast : -1074 ≤ top)
    (hgreatest : top < 971) : Within 53 top (Float.Model.pack f).unpack := by
  have hzero : ((0#11).toNat : Int) - 1075 ≤ top := by
    show (0 : Int) - 1075 ≤ top
    omega
  show Within 53 top (UnpackedFloat.unpack .binary64 (UnpackedFloat.pack .binary64 f))
  cases f with
  | infinity sign => exact absurd h id
  | notANumber => exact absurd h id
  | zero sign => exact within_unpack_packComponents (by decide) hzero hleast
  | finite sign mantissa exponent hpos =>
    have hexponent : exponent ≤ top := h.2
    have hfield : (exponent + Format.binary64.exponentBias + Format.binary64.mantissaBitsWithoutImplicit).toNat =
        (exponent + 1075).toNat := by
      show (exponent + (1023 : Nat) + (52 : Nat)).toNat = _
      omega
    have hroom : ¬ 2048 ≤ (exponent + 1075).toNat + 1 := by omega
    have htoNat : (BitVec.ofNat 11 (exponent + 1075).toNat).toNat = (exponent + 1075).toNat :=
      Nat.mod_eq_of_lt (by show _ < 2048; omega)
    unfold UnpackedFloat.pack
    dsimp only
    rw [hfield, if_neg hroom]
    split
    · refine within_unpack_packComponents ?_ ?_ hleast
      · intro hall
        have hones : (exponent + 1075).toNat = 2047 := htoNat.symm.trans (congrArg BitVec.toNat hall)
        omega
      · rw [htoNat]
        omega
    · exact within_unpack_packComponents (by decide) hzero hleast

/-! ### Rounding -/

theorem mantissa_shiftRight (m : ExtendedMantissa) (n : Nat) : (m >>> n).mantissa = m.mantissa >>> n := by
  show (Nat.repeat ExtendedMantissa.shiftRightOne n m).mantissa = m.mantissa >>> n
  induction n with
  | zero => rfl
  | succ n ih =>
    have hhalf : (Nat.repeat ExtendedMantissa.shiftRightOne (n + 1) m).mantissa =
        (Nat.repeat ExtendedMantissa.shiftRightOne n m).mantissa / 2 := rfl
    rw [hhalf, ih, Nat.shiftRight_succ]

theorem mantissa_shiftRight_le (m : ExtendedMantissa) (n : Nat) : (m >>> n).mantissa ≤ m.mantissa := by
  rw [mantissa_shiftRight]
  exact Nat.shiftRight_le _ _

theorem mantissa_ofMantissaAndAccuracy (mantissa : Nat) (accuracy : Accuracy) :
    (ExtendedMantissa.ofMantissaAndAccuracy mantissa accuracy).mantissa = mantissa := by
  rcases accuracy with _ | _ | _ | _ <;> rfl

theorem roundToNearestEven_le (mantissa : Nat) (accuracy : Accuracy) :
    accuracy.roundToNearestEven mantissa ≤ mantissa + 1 := by
  rcases accuracy with _ | _ | _ | _ <;> simp only [Accuracy.roundToNearestEven] <;> omega

theorem log2_le_of_lt {n bits : Nat} (h : n < Nat.pow 2 bits) : n.log2 ≤ bits := by
  by_cases hn : n = 0
  · rw [hn, Nat.log2_zero]
    exact Nat.zero_le bits
  · exact Nat.le_of_lt ((Nat.log2_lt hn).mpr h)

theorem shiftToTargetExponent_le {mantissa bits : Nat} {exponent top : Int} (hmantissa : mantissa < Nat.pow 2 bits)
    (hexponent : exponent ≤ top) (hleast : -1074 ≤ top) (accuracy : Accuracy) :
    (UnpackedFloat.shiftToTargetExponent .binary64 mantissa exponent accuracy).1.mantissa ≤ mantissa ∧
      (UnpackedFloat.shiftToTargetExponent .binary64 mantissa exponent accuracy).2 ≤ top + bits := by
  have hlog := log2_le_of_lt hmantissa
  have hfirst := mantissa_shiftRight_le (ExtendedMantissa.ofMantissaAndAccuracy mantissa accuracy)
  rw [mantissa_ofMantissaAndAccuracy] at hfirst
  refine ⟨hfirst _, ?_⟩
  show exponent + ((max (mantissa.log2 + 1 + exponent - (53 : Nat)) (-1074) - exponent).toNat : Int) ≤ top + bits
  omega

theorem within_roundWithAccuracy {mantissa bits : Nat} {exponent top : Int} (hmantissa : mantissa < Nat.pow 2 bits)
    (hexponent : exponent ≤ top) (hleast : -1074 ≤ top) (sign : Sign) (accuracy : Accuracy) :
    Within (bits + 1) (top + 2 * bits + 1)
      (UnpackedFloat.roundWithAccuracy .binary64 sign mantissa exponent accuracy) := by
  obtain ⟨hshifted, htop⟩ := shiftToTargetExponent_le hmantissa hexponent hleast accuracy
  unfold UnpackedFloat.roundWithAccuracy
  generalize UnpackedFloat.shiftToTargetExponent .binary64 mantissa exponent accuracy = first at hshifted htop
  obtain ⟨shifted, exponent'⟩ := first
  dsimp only at hshifted htop ⊢
  have hrounded : shifted.roundedMantissa ≤ shifted.mantissa + 1 := roundToNearestEven_le _ _
  have hpow : Nat.pow 2 (bits + 1) = Nat.pow 2 bits * 2 := rfl
  have hmantissa' : shifted.roundedMantissa < Nat.pow 2 (bits + 1) := by omega
  obtain ⟨hfinal, htop'⟩ := shiftToTargetExponent_le hmantissa' htop (by omega) .exact
  refine Within.dite (fun _ => trivial) fun _ => ⟨?_, ?_⟩
  · omega
  · push_cast at htop'
    omega

/-! ### Operations -/

theorem shiftLeft_lt {n shift bits room : Nat} (hn : n < Nat.pow 2 bits) (hshift : shift ≤ room) :
    n <<< shift < Nat.pow 2 (bits + room) := by
  have hpow : Nat.pow 2 (bits + room) = Nat.pow 2 bits * Nat.pow 2 room := Nat.pow_add 2 bits room
  have hle : Nat.pow 2 shift ≤ Nat.pow 2 room := Nat.pow_le_pow_right (by decide) hshift
  have hpos : 0 < Nat.pow 2 shift := Nat.pow_pos (by decide)
  rw [Nat.shiftLeft_eq, hpow]
  calc n * Nat.pow 2 shift
      < Nat.pow 2 bits * Nat.pow 2 shift := Nat.mul_lt_mul_of_pos_right hn hpos
    _ ≤ Nat.pow 2 bits * Nat.pow 2 room := Nat.mul_le_mul_left _ hle

theorem within_ofNat {n : Nat} (hn : n < Nat.pow 2 64) : Within 117 233 (UnpackedFloat.ofNat .binary64 n) := by
  unfold UnpackedFloat.ofNat UnpackedFloat.ofInt UnpackedFloat.normalize
  split
  · next h => exact absurd (Int.compare_eq_lt.mp h) (by omega)
  · trivial
  · have htoNat : (n : Int).toNat = n := rfl
    have hroom : (0 - max ((n.log2 : Int) + 1 + 0 - (53 : Nat)) (-1074)).toNat ≤ 52 := by omega
    rw [htoNat]
    have hwide := shiftLeft_lt hn hroom
    have htop : (0 : Int) - ((0 - max ((n.log2 : Int) + 1 + 0 - (53 : Nat)) (-1074)).toNat : Int) ≤ 0 := by omega
    exact within_roundWithAccuracy hwide htop (by decide) .positive .exact

theorem within_mul {bits bits' : Nat} {top top' : Int} {f g : UnpackedFloat} (hf : Within bits top f)
    (hg : Within bits' top' g) (hleast : -1074 ≤ top + top') :
    Within (bits + bits' + 1) (top + top' + 2 * (bits + bits' : Nat) + 1) (UnpackedFloat.mul .binary64 f g) := by
  cases g with
  | infinity sign => exact absurd hg id
  | notANumber => exact absurd hg id
  | zero sign =>
    cases f with
    | infinity sign => exact absurd hf id
    | notANumber => exact absurd hf id
    | zero sign => trivial
    | finite sign mantissa exponent hpos => trivial
  | finite sign' mantissa' exponent' hpos' =>
    cases f with
    | infinity sign => exact absurd hf id
    | notANumber => exact absurd hf id
    | zero sign => trivial
    | finite sign mantissa exponent hpos =>
      have hpow : Nat.pow 2 (bits + bits') = Nat.pow 2 bits * Nat.pow 2 bits' := Nat.pow_add 2 bits bits'
      have hmantissa : mantissa * mantissa' < Nat.pow 2 (bits + bits') := by
        rw [hpow]
        exact Nat.mul_lt_mul'' hf.1 hg.1
      exact within_roundWithAccuracy hmantissa (Int.add_le_add hf.2 hg.2) hleast _ _

theorem within_neg {bits : Nat} {top : Int} {f : UnpackedFloat} (h : Within bits top f) : Within bits top f.neg := by
  cases f with
  | infinity sign => exact absurd h id
  | notANumber => exact absurd h id
  | zero sign => trivial
  | finite sign mantissa exponent hpos => exact h

theorem within_div {bits bits' : Nat} {top : Int} {f : UnpackedFloat} (hf : Within bits top f) (sign : Sign)
    {mantissa : Nat} (exponent : Int) (hpos : 0 < mantissa) (hmantissa : mantissa < Nat.pow 2 bits')
    (hleast : -1074 ≤ top - exponent) :
    Within (bits + (bits' + 53) + 1) (top - exponent + 2 * (bits + (bits' + 53) : Nat) + 1)
      (UnpackedFloat.div .binary64 f (.finite sign mantissa exponent hpos)) := by
  cases f with
  | infinity sign => exact absurd hf id
  | notANumber => exact absurd hf id
  | zero sign => trivial
  | finite sign' mantissa' exponent' hpos' =>
    have hlog := log2_le_of_lt hmantissa
    have htop : exponent' ≤ top := hf.2
    -- the dividend is shifted until the quotient has bits enough
    let first := exponent' - exponent
    let target := min first
      (max ((mantissa'.log2 + 1 + exponent') - (mantissa.log2 + 1 + exponent) - (53 : Nat)) (-1074))
    have hroom : (first - target).toNat ≤ bits' + 53 := by omega
    have hwide := shiftLeft_lt hf.1 hroom
    have hquotient : mantissa' <<< (first - target).toNat / mantissa < Nat.pow 2 (bits + (bits' + 53)) :=
      Nat.lt_of_le_of_lt (Nat.div_le_self _ _) hwide
    have htarget : target ≤ top - exponent := by omega
    exact within_roundWithAccuracy hquotient htarget hleast _ _

/-! ### Elapsed time -/

theorem unpack_one :
    (Float.ofBits 0x3FF0000000000000).toModel.unpack = .finite .positive 4503599627370496 (-52) (by decide) := by
  rfl

theorem unpack_thousand : (1000.0 : Float).toModel.unpack = .finite .positive 8796093022208000 (-43) (by decide) := by
  rfl

/-- A number that has few enough bits is converted as a word, and multiplied by one. -/
theorem ofNat_eq_mul_one {n : Nat} (h : n < 9007199254740992) :
    Float.ofNat n = n.toUInt64.toFloat * Float.ofBits 0x3FF0000000000000 := by
  show Float.ofScientific n false 0 = _
  rw [Float.ofScientific, dif_pos ⟨h, by decide⟩]
  rfl

theorem within_natCast {n : Nat} (h : n < 9007199254740992) : Within 53 394 (Float.ofNat n).toModel.unpack := by
  have hword : Within 53 233 n.toUInt64.toFloat.toModel.unpack := by
    show Within 53 233 (Float.Model.pack (UnpackedFloat.ofNat .binary64 n.toUInt64.toNat)).unpack
    have hsize : n.toUInt64.toNat < Nat.pow 2 64 := n.toUInt64.toNat_lt
    exact within_unpack_pack (within_ofNat hsize) (by decide) (by decide)
  have hone : Within 53 (-52) (Float.ofBits 0x3FF0000000000000).toModel.unpack := by
    rw [unpack_one]
    exact ⟨by decide, by decide⟩
  rw [ofNat_eq_mul_one h]
  exact within_unpack_pack (within_mul hword hone (by decide)) (by decide) (by decide)

theorem within_ofInt {d : Int} (h : d.natAbs < 9007199254740992) : Within 53 394 (Float.ofInt d).toModel.unpack := by
  cases d with
  | ofNat n => exact within_natCast h
  | negSucc n =>
    have hpositive : Within 53 394 (Float.ofNat (n + 1)).toModel.unpack := within_natCast h
    exact within_unpack_pack (within_neg hpositive) (by decide) (by decide)

/-- **Elapsed time is a finite number.** -/
theorem TimeOfDay.isFinite_elapsed (a b : TimeOfDay) : (a.elapsed b).isFinite = true := by
  have hsecond := a.second_lt
  have hsecond' := b.second_lt
  have hmicro := a.micro_lt
  have hmicro' := b.micro_lt
  have hday : ((b.micros : Int) - a.micros).natAbs < 9007199254740992 := by
    unfold micros
    omega
  have hbits : 8796093022208000 < Nat.pow 2 53 := by decide
  have hquotient := within_div (within_ofInt hday) .positive (-43) (by decide) hbits (by decide)
  rw [← unpack_thousand] at hquotient
  exact (within_unpack_pack hquotient (by decide) (by decide)).isFinite

end LogCorrelation
