import LogCorrelation.Proofs.Decimal.Characters
import LogCorrelation.Proofs.Decimal.FixedWidth
import LogCorrelation.Proofs.Decimal.Shortest
import Mathlib.Data.List.DropRight

/-!
# Proofs.Decimal.Places — numbers with a few decimal places

A number of steps of `10 ^ -places` is written with all its places, or without the zeros at its end.  Both texts denote
the number exactly.

* `plain_eq_shortPlaces`: a decimal without a trailing zero, laid out without an exponent, is the shorter of the two.
* `text_eq_of_roundsTo`, `fixed_eq_of_roundsTo`: what is written of a double that thousandths round to.
-/

namespace LogCorrelation.Decimal

open Float.Model.UnpackedFloat (Sign)

/-! ### Digits of shifted numbers -/

theorem padded_zero (width : ℕ) : padded width 0 = List.replicate width '0' := by
  induction width with
  | zero => rfl
  | succ width ih => rw [padded, Nat.zero_div, ih, List.replicate_succ']; rfl

theorem digits_of_lt {n : ℕ} (h : n < 10) : digits n = [Nat.digitChar n] := Nat.toDigits_of_lt_base h

theorem digits_of_le {n : ℕ} (h : 10 ≤ n) : digits n = digits (n / 10) ++ [Nat.digitChar (n % 10)] :=
  Nat.toDigits_of_base_le (by decide) h

theorem length_digits_pos (n : ℕ) : 0 < (digits n).length := List.length_pos_iff.mpr (digits_ne_nil n)

theorem length_digits_le_iff {n k : ℕ} (hk : 0 < k) : (digits n).length ≤ k ↔ n < 10 ^ k :=
  Nat.length_toDigits_le_iff (by decide) hk

theorem pow_pred_length_digits_le {n : ℕ} (hn : 0 < n) : 10 ^ ((digits n).length - 1) ≤ n := by
  by_contra hlt
  rcases Nat.eq_zero_or_pos ((digits n).length - 1) with hzero | hpos
  · rw [hzero] at hlt
    omega
  · have := (length_digits_le_iff hpos).mpr (Nat.lt_of_not_le hlt)
    omega

/-- A number is shifted to the left by zeros at its end. -/
theorem digits_mul_pow {n : ℕ} (hn : 0 < n) (k : ℕ) : digits (n * 10 ^ k) = digits n ++ List.replicate k '0' := by
  induction k with
  | zero => simp
  | succ k ih =>
    have hlarge : 10 ≤ n * 10 ^ (k + 1) := by
      rw [pow_succ, ← mul_assoc]
      exact Nat.le_mul_of_pos_left 10 (by positivity)
    have hdiv : n * 10 ^ (k + 1) / 10 = n * 10 ^ k := by rw [pow_succ, ← mul_assoc, Nat.mul_div_cancel _ (by decide)]
    have hmod : n * 10 ^ (k + 1) % 10 = 0 := by rw [pow_succ, ← mul_assoc, Nat.mul_mod_left]
    rw [digits_of_le hlarge, hdiv, hmod, ih, List.replicate_succ', List.append_assoc]
    rfl

/-- The last digits of a long number are those of a fixed width. -/
theorem digits_eq_append_padded {width n : ℕ} (h : 10 ^ width ≤ n) :
    digits n = digits (n / 10 ^ width) ++ padded width n := by
  induction width generalizing n with
  | zero => simp [padded]
  | succ width ih =>
    have hle : 10 ^ width ≤ n / 10 := by rw [Nat.le_div_iff_mul_le (by decide), ← pow_succ]; exact h
    have hten : 10 ≤ n := le_trans (Nat.le_self_pow (Nat.succ_ne_zero width) 10) h
    rw [digits_of_le hten, ih hle, padded, Nat.div_div_eq_div_mul, pow_succ', List.append_assoc]

/-- A short number is filled with zeros in front. -/
theorem padded_eq_append_digits {width n : ℕ} (hn : 0 < n) (h : n < 10 ^ width) :
    padded width n = List.replicate (width - (digits n).length) '0' ++ digits n := by
  induction width generalizing n with
  | zero => omega
  | succ width ih =>
    rcases Nat.lt_or_ge n 10 with hten | hten
    · rw [padded, Nat.div_eq_of_lt hten, Nat.mod_eq_of_lt hten, padded_zero, digits_of_lt hten]
      rfl
    · have hlt : n / 10 < 10 ^ width := by rw [Nat.div_lt_iff_lt_mul (by decide), ← pow_succ]; exact h
      rw [padded, ih (by omega) hlt, digits_of_le hten, List.length_append, List.length_singleton, Nat.add_sub_add_right,
        List.append_assoc]

theorem padded_mod (width n : ℕ) : padded width (n % 10 ^ width) = padded width n := by
  have hwidth := padded_value (isDigit_padded width n)
  rwa [length_padded, value_padded_mod] at hwidth

theorem padded_mul_pow (width n k : ℕ) : padded (width + k) (n * 10 ^ k) = padded width n ++ List.replicate k '0' := by
  induction k with
  | zero => simp
  | succ k ih =>
    have hdiv : n * 10 ^ (k + 1) / 10 = n * 10 ^ k := by rw [pow_succ, ← mul_assoc, Nat.mul_div_cancel _ (by decide)]
    have hmod : n * 10 ^ (k + 1) % 10 = 0 := by rw [pow_succ, ← mul_assoc, Nat.mul_mod_left]
    rw [← Nat.add_assoc, padded, hdiv, hmod, ih, List.replicate_succ', List.append_assoc]
    rfl

/-! ### Texts of steps -/

/-- Digits without the zeros at their end, but at least one digit. -/
def withoutZeros (ds : List Char) : List Char :=
  let kept := ds.rdropWhile (· = '0')
  if kept = [] then ['0'] else kept

/-- A number of steps of `10 ^ -places` with all places. -/
def allPlaces (places steps : ℕ) : List Char := digits (steps / 10 ^ places) ++ '.' :: padded places (steps % 10 ^ places)

/-- A number of steps of `10 ^ -places` without zeros at the end, but with at least one place. -/
def shortPlaces (places steps : ℕ) : List Char :=
  digits (steps / 10 ^ places) ++ '.' :: withoutZeros (padded places (steps % 10 ^ places))

theorem withoutZeros_replicate (n : ℕ) : withoutZeros (List.replicate n '0') = ['0'] := by
  have hall : (List.replicate n '0').rdropWhile (· = '0') = [] := by
    rw [List.rdropWhile_eq_nil_iff]
    intro c hc
    simpa using (List.mem_replicate.mp hc).2
  rw [withoutZeros, hall, if_pos rfl]

theorem withoutZeros_append_replicate {ds : List Char} {d : Char} (hd : d ≠ '0') (k : ℕ) :
    withoutZeros (ds ++ [d] ++ List.replicate k '0') = ds ++ [d] := by
  have hkept : (ds ++ [d] ++ List.replicate k '0').rdropWhile (· = '0') = ds ++ [d] := by
    induction k with
    | zero =>
      rw [List.replicate_zero, List.append_nil]
      exact List.rdropWhile_concat_neg _ _ _ (by simpa using hd)
    | succ k ih =>
      rw [List.replicate_succ', ← List.append_assoc, List.rdropWhile_concat_pos _ _ _ (by simp)]
      exact ih
  rw [withoutZeros, hkept, if_neg (by simp)]

theorem digitChar_ne_zero {n : ℕ} (h : n % 10 ≠ 0) : Nat.digitChar (n % 10) ≠ '0' := by
  have hall : ∀ i : Fin 10, i.val ≠ 0 → Nat.digitChar i ≠ '0' := by decide
  exact hall ⟨n % 10, Nat.mod_lt n (by decide)⟩ h

/-- A number without a zero at its end keeps all its places. -/
theorem withoutZeros_padded_append {width n : ℕ} (hwidth : 0 < width) (hn : n % 10 ≠ 0) (k : ℕ) :
    withoutZeros (padded width n ++ List.replicate k '0') = padded width n := by
  obtain ⟨width, rfl⟩ : ∃ w, width = w + 1 := ⟨width - 1, by omega⟩
  exact withoutZeros_append_replicate (digitChar_ne_zero hn) k

/-- A number without a zero at its end, laid out with some places. -/
theorem plain_of_places {c places : ℕ} (hc : 0 < c) (hplaces : 0 < places) :
    plain ⟨c, -places⟩ = digits (c / 10 ^ places) ++ '.' :: padded places c := by
  have hneg : ¬ (0 : ℤ) ≤ -(places : ℤ) := by omega
  have htoNat : (-(-(places : ℤ))).toNat = places := by omega
  unfold plain
  dsimp only
  rw [if_neg hneg, htoNat]
  split
  · next hlong =>
    have hle : 10 ^ places ≤ c := by
      by_contra hlt
      exact absurd ((length_digits_le_iff hplaces).mpr (Nat.lt_of_not_le hlt)) (Nat.not_le.mpr hlong)
    have hwhole : (digits c).length - places = (digits (c / 10 ^ places)).length := by
      rw [digits_eq_append_padded hle, List.length_append, length_padded, Nat.add_sub_cancel]
    rw [hwhole, digits_eq_append_padded hle, List.take_left, List.drop_left]
  · next hshort =>
    have hlt := (length_digits_le_iff hplaces).mp (Nat.le_of_not_lt hshort)
    rw [Nat.div_eq_of_lt hlt, padded_eq_append_digits hc hlt]
    rfl

/-- **A decimal without a trailing zero is laid out as the shorter text** of its steps. -/
theorem plain_eq_shortPlaces {c j places : ℕ} (hten : ¬ 10 ∣ c) (hplaces : 0 < places) :
    plain ⟨c, (j : ℤ) - places⟩ = shortPlaces places (c * 10 ^ j) := by
  have hc : 0 < c := Nat.pos_of_ne_zero fun hzero => hten (hzero ▸ dvd_zero 10)
  have hlast : c % 10 ≠ 0 := fun hzero => hten (Nat.dvd_of_mod_eq_zero hzero)
  unfold shortPlaces
  rcases Nat.lt_or_ge j places with hlt | hge
  · obtain ⟨k, rfl⟩ : ∃ k, places = k + j := ⟨places - j, by omega⟩
    have hexponent : (j : ℤ) - (k + j : ℕ) = -(k : ℤ) := by omega
    have hdiv : c * 10 ^ j / 10 ^ (k + j) = c / 10 ^ k := by
      rw [pow_add, Nat.mul_div_mul_right _ _ (by positivity)]
    rw [hexponent, plain_of_places hc (by omega), hdiv, padded_mod, padded_mul_pow,
      withoutZeros_padded_append (by omega) hlast]
  · obtain ⟨k, rfl⟩ : ∃ k, j = k + places := ⟨j - places, by omega⟩
    have hexponent : ((k + places : ℕ) : ℤ) - places = k := by omega
    have hdiv : c * 10 ^ (k + places) / 10 ^ places = c * 10 ^ k := by
      rw [pow_add, ← mul_assoc, Nat.mul_div_cancel _ (by positivity)]
    have hmod : c * 10 ^ (k + places) % 10 ^ places = 0 := by rw [pow_add, ← mul_assoc, Nat.mul_mod_left]
    rw [hexponent, hdiv, hmod, padded_zero, withoutZeros_replicate, digits_mul_pow hc]
    unfold plain
    dsimp only
    rw [if_pos (Int.natCast_nonneg k), Int.toNat_natCast, List.append_assoc]

/-! ### What the texts denote -/

/-- Digits on both sides of a point, and nothing else, that denote a number. -/
def Denotes (text : List Char) (q : ℚ) : Prop :=
  ∃ whole fraction, text = whole ++ '.' :: fraction ∧ whole ≠ [] ∧ fraction ≠ [] ∧
    (∀ c ∈ whole ++ fraction, c.isDigit = true) ∧ (value (whole ++ fraction) : ℚ) / 10 ^ fraction.length = q

theorem value_append (ds es : List Char) : value (ds ++ es) = value ds * 10 ^ es.length + value es := by
  induction es using List.reverseRecOn with
  | nil => simp [value]
  | append_singleton es e ih =>
    rw [← List.append_assoc, value_concat, value_concat, ih, List.length_append, List.length_singleton]
    ring

theorem value_replicate (k : ℕ) : value (List.replicate k '0') = 0 := by
  have hpadded := value_padded_mod k 0
  rwa [padded_zero, Nat.zero_mod] at hpadded

/-- Only zeros are left out. -/
theorem exists_eq_withoutZeros_append {ds : List Char} (hds : ds ≠ []) :
    ∃ k, ds = withoutZeros ds ++ List.replicate k '0' := by
  induction ds using List.reverseRecOn with
  | nil => exact absurd rfl hds
  | append_singleton ds d ih =>
    by_cases hd : d = '0'
    · subst hd
      rcases ds.eq_nil_or_concat with rfl | ⟨_, _, hcons⟩
      · exact ⟨0, rfl⟩
      · obtain ⟨k, hk⟩ := ih (by rw [hcons]; simp)
        have hsame : withoutZeros (ds ++ ['0']) = withoutZeros ds := by
          rw [withoutZeros, withoutZeros, List.rdropWhile_concat_pos _ _ _ (by simp)]
        refine ⟨k + 1, ?_⟩
        rw [hsame, List.replicate_succ', ← List.append_assoc, ← hk]
    · have hsame : withoutZeros (ds ++ [d] ++ List.replicate 0 '0') = ds ++ [d] := withoutZeros_append_replicate hd 0
      rw [List.replicate_zero, List.append_nil] at hsame
      exact ⟨0, by rw [hsame, List.replicate_zero, List.append_nil]⟩

theorem withoutZeros_ne_nil (ds : List Char) : withoutZeros ds ≠ [] := by
  unfold withoutZeros
  dsimp only
  split
  · exact List.cons_ne_nil _ _
  · assumption

/-- The last digit is no zero, or the only one. -/
theorem getLast?_withoutZeros (ds : List Char) : withoutZeros ds = ['0'] ∨ (withoutZeros ds).getLast? ≠ some '0' := by
  unfold withoutZeros
  dsimp only
  split
  · exact .inl rfl
  · next hkept =>
    have hlast := List.rdropWhile_last_not (· = '0') ds hkept
    rw [List.getLast?_eq_some_getLast hkept]
    exact .inr fun hzero => hlast (by simpa using hzero)

theorem value_allPlaces (places steps : ℕ) :
    value (digits (steps / 10 ^ places) ++ padded places (steps % 10 ^ places)) = steps := by
  rw [value_append, value_digits, length_padded, value_padded_mod, Nat.pow_eq, Nat.mod_mod, Nat.div_add_mod']

/-- **All places denote the number.** -/
theorem denotes_allPlaces {places : ℕ} (hplaces : 0 < places) (steps : ℕ) :
    Denotes (allPlaces places steps) (steps / 10 ^ places) := by
  refine ⟨_, _, rfl, digits_ne_nil _, ?_, ?_, ?_⟩
  · exact List.length_pos_iff.mp (by rw [length_padded]; exact hplaces)
  · exact List.forall_mem_append.mpr ⟨fun c hc => isDigit_of_mem_digits hc, isDigit_padded _ _⟩
  · rw [value_allPlaces, length_padded]

/-- The places left are the number, up to the zeros left out. -/
theorem value_shortPlaces {places : ℕ} (hplaces : 0 < places) (steps : ℕ) :
    ∃ k, (withoutZeros (padded places (steps % 10 ^ places))).length + k = places ∧
      value (digits (steps / 10 ^ places) ++ withoutZeros (padded places (steps % 10 ^ places))) * 10 ^ k = steps := by
  have hne : padded places (steps % 10 ^ places) ≠ [] :=
    List.length_pos_iff.mp (by rw [length_padded]; exact hplaces)
  obtain ⟨k, hk⟩ := exists_eq_withoutZeros_append hne
  refine ⟨k, ?_, ?_⟩
  · have hall := congrArg List.length hk
    rw [length_padded, List.length_append, List.length_replicate] at hall
    exact hall.symm
  · have hvalue := value_allPlaces places steps
    rwa [hk, ← List.append_assoc, value_append, value_replicate, List.length_replicate, Nat.add_zero] at hvalue

theorem value_shortPlaces_div {places : ℕ} (hplaces : 0 < places) (steps : ℕ) :
    (value (digits (steps / 10 ^ places) ++ withoutZeros (padded places (steps % 10 ^ places))) : ℚ) /
      10 ^ (withoutZeros (padded places (steps % 10 ^ places))).length = steps / 10 ^ places := by
  obtain ⟨k, hlength, hvalue⟩ := value_shortPlaces hplaces steps
  have hpow : (10 : ℚ) ^ places = 10 ^ (withoutZeros (padded places (steps % 10 ^ places))).length * 10 ^ k := by
    rw [← pow_add, hlength]
  have hcast := congrArg (Nat.cast : ℕ → ℚ) hvalue
  rw [Nat.cast_mul, Nat.cast_pow, Nat.cast_ofNat] at hcast
  rw [← hcast, hpow, mul_div_mul_right _ _ (by positivity)]

theorem isDigit_of_mem_withoutZeros {ds : List Char} (hds : ds ≠ []) (h : ∀ c ∈ ds, c.isDigit = true) :
    ∀ c ∈ withoutZeros ds, c.isDigit = true := by
  intro c hc
  obtain ⟨k, hk⟩ := exists_eq_withoutZeros_append hds
  exact h c (by rw [hk]; exact List.mem_append_left _ hc)

/-- **So do the places without zeros at their end.** -/
theorem denotes_shortPlaces {places : ℕ} (hplaces : 0 < places) (steps : ℕ) :
    Denotes (shortPlaces places steps) (steps / 10 ^ places) := by
  have hne : padded places (steps % 10 ^ places) ≠ [] :=
    List.length_pos_iff.mp (by rw [length_padded]; exact hplaces)
  refine ⟨_, _, rfl, digits_ne_nil _, withoutZeros_ne_nil _, ?_, ?_⟩
  · exact List.forall_mem_append.mpr
      ⟨fun c hc => isDigit_of_mem_digits hc, isDigit_of_mem_withoutZeros hne (isDigit_padded _ _)⟩
  · exact value_shortPlaces_div hplaces steps

/-! ### Doubles that thousandths round to -/

theorem RoundsTo.exists_eq_finite {q : ℚ} {sign : Sign} {f : Float.Model.UnpackedFloat} (h : RoundsTo q sign f) :
    ∃ mantissa exponent hpos, f = .finite sign mantissa exponent hpos := by
  cases h with
  | plain => exact ⟨_, _, _, rfl⟩
  | carried => exact ⟨_, _, _, rfl⟩

/-- **Fixed places are rounded to nearest.** -/
theorem Binary.isNearest_steps (b : Binary) (places : ℕ) : IsNearest (b.toRat * 10 ^ places) (b.steps places) := by
  have hden : 0 < 2 ^ (-b.exponent).toNat := Nat.pow_pos (by decide)
  have hnear : IsNearest ((b.mantissa * 2 ^ b.exponent.toNat * 10 ^ places : ℕ) / (2 ^ (-b.exponent).toNat : ℕ))
      (b.steps places) := isNearest_roundDiv hden
  have hvalue : ((b.mantissa * 2 ^ b.exponent.toNat * 10 ^ places : ℕ) : ℚ) / (2 ^ (-b.exponent).toNat : ℕ) =
      b.toRat * 10 ^ places := by
    push_cast
    rw [toRat, ← zpow_mul_toNat two_ne_zero b.exponent]
    field_simp
  rwa [hvalue] at hnear

theorem thousandths_lt {m : ℕ} (hlt : m < 10 ^ 15) : (m : ℚ) / 10 ^ 3 < 10 ^ 12 := by
  rw [div_lt_iff₀ (by positivity), ← pow_add]
  exact_mod_cast hlt

section Thousandths

variable {x : Float} {m : ℕ} {sign : Sign} (hpos : 0 < m) (hlt : m < 10 ^ 15)
  (h : RoundsTo (m / 10 ^ 3) sign x.toModel.unpack)

include hpos hlt h

/-- **The shortest text is that of the thousandths**, without an exponent and without zeros at its end. -/
theorem text_eq_of_roundsTo {l : Layout} (hleast : l.leastPlain ≤ -3) (hgreatest : 11 ≤ l.greatestPlain) :
    l.text x = String.ofList (signMark sign ++ shortPlaces 3 m) := by
  obtain ⟨mantissa, exponent, hmantissa, hunpack⟩ := h.exists_eq_finite
  obtain ⟨j, c, hten, rfl⟩ := Nat.exists_eq_pow_mul_and_not_dvd hpos.ne' 10 (by decide)
  have hc : 0 < c := Nat.pos_of_ne_zero fun hzero => hten (hzero ▸ dvd_zero 10)
  have hvalue : Scaled.toRat ⟨c, (j : ℤ) - (3 : ℕ)⟩ = ((10 ^ j * c : ℕ) : ℚ) / 10 ^ 3 := by
    rw [Scaled.toRat, zpow_sub₀ (by norm_num), zpow_natCast, zpow_natCast]
    push_cast
    ring
  have hsmall : Scaled.toRat ⟨c, (j : ℤ) - (3 : ℕ)⟩ < 10 ^ 12 := by
    rw [hvalue]
    exact thousandths_lt hlt
  have hshortest : Binary.shortest l.tie ⟨mantissa, exponent⟩ = ⟨c, (j : ℤ) - (3 : ℕ)⟩ := by
    rw [hunpack, ← hvalue] at h
    exact h.shortest_eq hten (by push_cast; omega) hsmall l.tie
  have hlength : j + (digits c).length ≤ 15 := by
    have hle : 10 ^ (j + ((digits c).length - 1)) < 10 ^ 15 := by
      rw [pow_add]
      exact lt_of_le_of_lt (Nat.mul_le_mul_left _ (pow_pred_length_digits_le hc)) hlt
    have := (Nat.pow_lt_pow_iff_right (by decide)).mp hle
    omega
  have hplain : l.digits ⟨c, (j : ℤ) - (3 : ℕ)⟩ = plain ⟨c, (j : ℤ) - (3 : ℕ)⟩ := by
    have hfirst := length_digits_pos c
    unfold Layout.digits Scaled.leading
    rw [if_pos]
    rw [Bool.and_eq_true, decide_eq_true_iff, decide_eq_true_iff]
    push_cast
    constructor <;> omega
  unfold Layout.text
  rw [hunpack]
  dsimp only
  rw [hshortest, hplain, plain_eq_shortPlaces hten (by decide), Nat.mul_comm c]

/-- **Three places are those of the thousandths.** -/
theorem fixed_eq_of_roundsTo : fixed 3 x = String.ofList (signMark sign ++ allPlaces 3 m) := by
  obtain ⟨mantissa, exponent, hmantissa, hunpack⟩ := h.exists_eq_finite
  have hsteps : Binary.steps ⟨mantissa, exponent⟩ 3 = m := by
    have hsmall := thousandths_lt hlt
    have hleast : (10 : ℚ) ^ (-3 : ℤ) ≤ m / 10 ^ 3 := by
      rw [le_div_iff₀ (by positivity)]
      norm_num
      exact hpos
    rw [hunpack] at h
    have hnormal : Binary.leastExponent < exponent := by
      have := h.le_exponent hleast
      unfold Binary.leastExponent
      omega
    have hnear := (h.reaches hnormal).near
    have hquarter := (⟨mantissa, exponent⟩ : Binary).four_mul_quarter
    -- the last place of the double is far finer than a thousandth
    have hfine : (2 : ℚ) ^ exponent ≤ 2 ^ (-12 : ℤ) := zpow_le_zpow_right₀ one_le_two (h.exponent_le hsmall)
    refine ((Binary.isNearest_steps ⟨mantissa, exponent⟩ 3).unique (.of_lt_half ?_))
    obtain ⟨hlow, hhigh⟩ := abs_le.mp hnear
    norm_num at hfine hlow hhigh ⊢
    rw [abs_lt]
    constructor <;> linarith
  unfold fixed
  rw [hunpack]
  dsimp only
  rw [hsteps]
  rfl

end Thousandths

end LogCorrelation.Decimal
