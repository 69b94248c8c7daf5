import LogCorrelation.Proofs.Json.RoundTrip
import LogCorrelation.Proofs.TimeOfDay.ElapsedText

/-!
# Proofs.Json.Elapsed — elapsed time in a document

Elapsed time is written as digits around a point.  That is a number as JSON allows it, and the point makes it a real one,
so that the time is read back which was written.

* `number?_point`: digits around a point are a real number.
* `readsBack_elapsed`: the text of elapsed time is read back as that time.
-/

namespace LogCorrelation.Json

open Decimal (digits isMarked padded signMark withoutZeros)
open Float.Model.UnpackedFloat (Sign)

/-- Digits in front of a point are passed over by the test of what follows it. -/
theorem pointAllowed_append {cs : List Char} (h : '.' ∉ cs) (rest : List Char) :
    pointAllowed (cs ++ rest) = pointAllowed rest := by
  induction cs with
  | nil => rfl
  | cons c cs ih =>
    obtain ⟨hc, hcs⟩ := not_or.mp (mt List.mem_cons.mpr h)
    rw [List.cons_append, pointAllowed, ih hcs]
    rintro rfl
    exact hc rfl

theorem point_not_mem {cs : List Char} (h : ∀ c ∈ cs, c.isDigit = true) : '.' ∉ cs :=
  fun hmem => absurd (h '.' hmem) (by decide)

theorem pointAllowed_point {fraction : List Char} (hne : fraction ≠ []) (h : ∀ c ∈ fraction, c.isDigit = true) :
    pointAllowed ('.' :: fraction) = true := by
  have hrest : pointAllowed fraction = true := by
    have hnil := pointAllowed_append (point_not_mem h) []
    rwa [List.append_nil] at hnil
  obtain ⟨c, cs, rfl⟩ := List.exists_cons_of_ne_nil hne
  rw [pointAllowed, hrest, List.head?_cons, Option.any_some, h c List.mem_cons_self]
  rfl

/-- **Digits around a point are a real number.** -/
theorem number?_point (sign : Sign) (n : ℕ) {fraction : List Char} (hne : fraction ≠ [])
    (h : ∀ c ∈ fraction, c.isDigit = true) :
    number? (signMark sign ++ (digits n ++ '.' :: fraction)) =
      some (.real (Decimal.Numeral.toFloat ⟨isMarked sign, digits n, fraction, 0⟩)) := by
  have hdigits : ∀ c ∈ digits n, c.isDigit = true := fun c hc => Decimal.isDigit_of_mem_digits hc
  have hmark : '.' ∉ signMark sign := by cases sign <;> decide
  have hpoint : pointAllowed (signMark sign ++ (digits n ++ '.' :: fraction)) = true := by
    rw [pointAllowed_append hmark, pointAllowed_append (point_not_mem hdigits), pointAllowed_point hne h]
  have hreal : ¬ (signMark sign ++ (digits n ++ '.' :: fraction)).all Char.isDigit = true := by
    rw [List.all_eq_true]
    exact fun hall => absurd (hall '.' (by simp)) (by decide)
  have hplus : (signMark sign ++ (digits n ++ '.' :: fraction)).head? ≠ some '+' := by
    cases sign with
    | negative => exact fun hhead => absurd (Option.some.inj hhead) (by decide)
    | positive =>
      obtain ⟨d, ds, hds⟩ := List.exists_cons_of_ne_nil (Decimal.digits_ne_nil n)
      have hd : d.isDigit = true := hdigits d (hds ▸ List.mem_cons_self)
      rw [hds]
      intro hhead
      obtain rfl : d = '+' := Option.some.inj hhead
      exact absurd hd (by decide)
  rw [number?, if_neg (fun hall => hreal hall.1), if_neg hplus,
    Decimal.numeral?_digits sign (Decimal.digits_ne_nil n) hdigits h]
  dsimp only
  rw [wholeAllowed_digits, hpoint]
  rfl

/-- **Elapsed time is read back** from what a document says of it. -/
theorem readsBack_elapsed (a b : TimeOfDay) : ReadsBack (a.elapsed b) := by
  let sign := signOf (a.microsFrom b)
  let whole := (a.microsFrom b).natAbs / 10 ^ 3
  let fraction := withoutZeros (padded 3 ((a.microsFrom b).natAbs % 10 ^ 3))
  have htext : (realLayout.text (a.elapsed b)).toList = signMark sign ++ (digits whole ++ '.' :: fraction) := by
    rw [TimeOfDay.text_elapsed a b (by decide) (by decide), String.toList_ofList]
    rfl
  have hfraction : ∀ c ∈ fraction, c.isDigit = true :=
    Decimal.isDigit_of_mem_withoutZeros (List.cons_ne_nil _ _) (Decimal.isDigit_padded _ _)
  -- plain text and documents read these digits as the same double
  have hvalue : Decimal.Numeral.toFloat ⟨isMarked sign, digits whole, fraction, 0⟩ = a.elapsed b := by
    have hread : Decimal.ofText? (realLayout.text (a.elapsed b)) = some (a.elapsed b) :=
      TimeOfDay.ofText?_text_elapsed a b (by decide) (by decide)
    obtain ⟨d, ds, hds⟩ := List.exists_cons_of_ne_nil (Decimal.digits_ne_nil whole)
    have hdigit : d.isDigit = true := Decimal.isDigit_of_mem_digits (hds ▸ List.mem_cons_self)
    have hnumeral := Decimal.numeral?_digits sign (Decimal.digits_ne_nil whole)
      (fun c hc => Decimal.isDigit_of_mem_digits hc) hfraction
    rw [← String.ofList_toList (s := realLayout.text (a.elapsed b)), htext, hds, List.cons_append,
      Decimal.ofText?_signMark sign hdigit, ← List.cons_append, ← hds, hnumeral] at hread
    exact Option.some.inj hread
  unfold ReadsBack
  rw [htext, number?_point sign whole (Decimal.withoutZeros_ne_nil _) hfraction, hvalue]

end LogCorrelation.Json
