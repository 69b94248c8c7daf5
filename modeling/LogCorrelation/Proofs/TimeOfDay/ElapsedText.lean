import LogCorrelation.Proofs.Decimal.ReadBack
import LogCorrelation.Proofs.TimeOfDay.LeapSecond

/-!
# Proofs.TimeOfDay.ElapsedText — elapsed time is written without loss

Milliseconds are a whole number of microseconds divided by a thousand.  The quotient is rounded to a double and the double
is rounded again when it is written, but both errors are far below half a microsecond.  So its texts are those of the
thousandths themselves.

* `roundsTo_elapsed`: the double that is rounded to.
* `text_elapsed`, `fixed_elapsed`: its shortest text and its text with three places.
* `ofText?_text_elapsed`: its shortest text is read back as that double.
-/

namespace LogCorrelation.TimeOfDay

open Decimal (IsRounded RoundsTo magnitude allPlaces shortPlaces signMark)
open Float.Model.UnpackedFloat (Sign)

/-- Microseconds from one time to another, negative if the second is the earlier one. -/
def microsFrom (start stop : TimeOfDay) : ℤ := (stop.micros : ℤ) - start.micros

theorem natAbs_microsFrom_lt (a b : TimeOfDay) : (a.microsFrom b).natAbs < 10 ^ 11 := by
  have hsecond := a.second_lt
  have hsecond' := b.second_lt
  have hmicro := a.micro_lt
  have hmicro' := b.micro_lt
  unfold microsFrom micros
  omega

theorem elapsed_eq (a b : TimeOfDay) : a.elapsed b = Float.ofInt (a.microsFrom b) / 1000.0 := rfl

theorem normal_thousand : Normal .positive (-43) (-43) (1000.0 : Float).toModel.unpack := by
  rw [unpack_thousand]
  exact ⟨rfl, by decide, by decide, by decide⟩

theorem magnitude_thousand : magnitude (1000.0 : Float).toModel.unpack = 10 ^ 3 := by
  rw [unpack_thousand, magnitude]
  norm_num

theorem div_positive (sign : Sign) : sign / .positive = sign := by
  cases sign <;> rfl

theorem natAbs_microsFrom_lt_two_pow (a b : TimeOfDay) : (a.microsFrom b).natAbs < 2 ^ 53 :=
  lt_trans (natAbs_microsFrom_lt a b) (by decide)

/-- **Elapsed time is what the thousandths round to.** -/
theorem roundsTo_elapsed {a b : TimeOfDay} (h : a.microsFrom b ≠ 0) :
    RoundsTo ((a.microsFrom b).natAbs / 10 ^ 3) (signOf (a.microsFrom b)) (a.elapsed b).toModel.unpack := by
  have hlt := natAbs_microsFrom_lt_two_pow a b
  have hquotient := Decimal.roundsTo_unpack_div (normal_ofInt h hlt) normal_thousand (by decide) (by decide)
  rwa [Decimal.magnitude_ofInt h hlt, magnitude_thousand, div_positive] at hquotient

theorem isRounded_elapsed {a b : TimeOfDay} (h : a.microsFrom b ≠ 0) :
    IsRounded ((a.microsFrom b).natAbs / 10 ^ 3) (signOf (a.microsFrom b)) (a.elapsed b) := by
  have hlt := natAbs_microsFrom_lt_two_pow a b
  have hquotient := Decimal.isRounded_div (normal_ofInt h hlt) normal_thousand (by decide)
  rwa [Decimal.magnitude_ofInt h hlt, magnitude_thousand, div_positive] at hquotient

theorem unpack_elapsed_of_eq_zero {a b : TimeOfDay} (h : a.microsFrom b = 0) :
    (a.elapsed b).toModel.unpack = .zero .positive := by
  rw [elapsed_eq, h]
  rfl

/-- **The shortest text of elapsed time** has no exponent, and no zeros at the end of its places. -/
theorem text_elapsed (a b : TimeOfDay) {l : Decimal.Layout} (hleast : l.leastPlain ≤ -3)
    (hgreatest : 11 ≤ l.greatestPlain) :
    l.text (a.elapsed b) =
      String.ofList (signMark (signOf (a.microsFrom b)) ++ shortPlaces 3 (a.microsFrom b).natAbs) := by
  by_cases h : a.microsFrom b = 0
  · rw [Decimal.Layout.text, unpack_elapsed_of_eq_zero h, h]
    rfl
  · have hlt : (a.microsFrom b).natAbs < 10 ^ 15 := lt_trans (natAbs_microsFrom_lt a b) (by decide)
    exact Decimal.text_eq_of_roundsTo (Int.natAbs_pos.mpr h) hlt (roundsTo_elapsed h) hleast hgreatest

/-- **The text of elapsed time with three places.** -/
theorem fixed_elapsed (a b : TimeOfDay) :
    Decimal.fixed 3 (a.elapsed b) =
      String.ofList (signMark (signOf (a.microsFrom b)) ++ allPlaces 3 (a.microsFrom b).natAbs) := by
  by_cases h : a.microsFrom b = 0
  · rw [Decimal.fixed, unpack_elapsed_of_eq_zero h, h]
    rfl
  · have hlt : (a.microsFrom b).natAbs < 10 ^ 15 := lt_trans (natAbs_microsFrom_lt a b) (by decide)
    exact Decimal.fixed_eq_of_roundsTo (Int.natAbs_pos.mpr h) hlt (roundsTo_elapsed h)

/-- No time elapsed is read back as such. -/
theorem ofText?_elapsed_of_eq_zero {a b : TimeOfDay} (h : a.microsFrom b = 0) :
    Decimal.ofText? (String.ofList (signMark .positive ++ shortPlaces 3 0)) = some (a.elapsed b) := by
  have hmodel : (Float.ofScientific 0 true 1).toModel = (Float.ofInt 0 / 1000.0).toModel := by decide +kernel
  have hvalue : Float.ofScientific 0 true 1 = Float.ofInt 0 / 1000.0 := congrArg Float.ofModel hmodel
  have hzero : shortPlaces 3 0 = ['0', '.', '0'] := by decide
  rw [elapsed_eq, h, ← hvalue, hzero, Decimal.ofText?_signMark .positive (by decide)]
  rfl

/-- **Elapsed time is read back** from its shortest text. -/
theorem ofText?_text_elapsed (a b : TimeOfDay) {l : Decimal.Layout} (hleast : l.leastPlain ≤ -3)
    (hgreatest : 11 ≤ l.greatestPlain) : Decimal.ofText? (l.text (a.elapsed b)) = some (a.elapsed b) := by
  rw [text_elapsed a b hleast hgreatest]
  by_cases h : a.microsFrom b = 0
  · rw [h]
    exact ofText?_elapsed_of_eq_zero h
  · exact Decimal.ofText?_shortPlaces (Int.natAbs_pos.mpr h) (natAbs_microsFrom_lt_two_pow a b) (isRounded_elapsed h)

end LogCorrelation.TimeOfDay
