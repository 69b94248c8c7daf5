import LogCorrelation.Decimal.Shortest
import LogCorrelation.Proofs.Decimal.Rounding

/-!
# Proofs.Decimal.Shortest — when the shortest decimal is a given one

A binary number is reached from the rational numbers around it that round to it.  If one of them is a decimal without a
trailing zero whose grid is coarser than these numbers are apart, then no coarser grid has a point among them and its
own grid has no other.  So the search stops at this decimal.

* `holds_iff`: the comparison of weights decides which grid points reach a binary number.
* `reaches_of_isNearest`, `reaches_of_carry`: a number reaches what it rounds to.
* `shortest_eq`: the decimal that is found.
-/

namespace LogCorrelation.Decimal

/-- The number that a coefficient and a power of ten denote. -/
def Scaled.toRat (s : Scaled) : ℚ := s.coefficient * 10 ^ s.exponent

namespace Binary

variable {b : Binary} {k : ℤ} {q q' : ℚ} {tie : Tie}

/-- The number that a mantissa and a power of two denote. -/
def toRat (b : Binary) : ℚ := b.mantissa * 2 ^ b.exponent

/-- A quarter of the last place. -/
def quarter (b : Binary) : ℚ := 2 ^ (b.exponent - 2)

/-- The numbers that round to a binary number, both ends among them if its mantissa is even. -/
def Reaches (b : Binary) (q : ℚ) : Prop :=
  if b.mantissa % 2 = 0 then b.low * b.quarter ≤ q ∧ q ≤ b.high * b.quarter
  else b.low * b.quarter < q ∧ q < b.high * b.quarter

theorem quarter_pos (b : Binary) : 0 < b.quarter := zpow_pos two_pos _

theorem four_mul_quarter (b : Binary) : 4 * b.quarter = 2 ^ b.exponent := by
  rw [quarter, zpow_sub₀ two_ne_zero]
  norm_num
  ring

theorem centre_mul_quarter (b : Binary) : b.centre * b.quarter = b.toRat := by
  rw [toRat, ← four_mul_quarter, centre]
  push_cast
  ring

/-- Reaching a binary number, in quarters of its last place. -/
theorem reaches_mul_quarter {x : ℚ} :
    b.Reaches (x * b.quarter) ↔
      if b.mantissa % 2 = 0 then (b.low : ℚ) ≤ x ∧ x ≤ b.high else (b.low : ℚ) < x ∧ x < b.high := by
  have hquarter := b.quarter_pos
  unfold Reaches
  rw [mul_le_mul_iff_left₀ hquarter, mul_le_mul_iff_left₀ hquarter, mul_lt_mul_iff_left₀ hquarter,
    mul_lt_mul_iff_left₀ hquarter]

theorem low_of_narrow (h : b.mantissa = leastNormal) (h' : leastExponent < b.exponent) :
    b.low = 4 * leastNormal - 1 := by
  have hnarrow : b.narrowBelow = true := by
    unfold narrowBelow
    rw [h, beq_self_eq_true, Bool.true_and, decide_eq_true_iff]
    exact h'
  rw [low, hnarrow, if_pos rfl, centre, h]

theorem low_of_ne (h : b.mantissa ≠ leastNormal) : b.low = 4 * b.mantissa - 2 := by
  have hwide : b.narrowBelow = false := by
    unfold narrowBelow
    rw [beq_eq_false_iff_ne.mpr h, Bool.false_and]
  rw [low, hwide, if_neg Bool.false_ne_true, centre]

/-! ### Distances -/

theorem Reaches.bounds (h : b.Reaches q) : b.low * b.quarter ≤ q ∧ q ≤ b.high * b.quarter := by
  unfold Reaches at h
  split at h
  · exact h
  · exact ⟨h.1.le, h.2.le⟩

theorem Reaches.near (h : b.Reaches q) : |q - b.toRat| ≤ 2 * b.quarter := by
  have hbounds := h.bounds
  have hlow : (b.centre : ℚ) - 2 ≤ b.low := by
    have : b.centre ≤ b.low + 2 := by
      unfold low
      split <;> omega
    have : (b.centre : ℚ) ≤ b.low + 2 := by exact_mod_cast this
    linarith
  have hhigh : (b.high : ℚ) = b.centre + 2 := by
    unfold high
    push_cast
    rfl
  have hscaled := mul_le_mul_of_nonneg_right hlow b.quarter_pos.le
  rw [← centre_mul_quarter, abs_le]
  rw [hhigh] at hbounds
  constructor <;> linarith [hbounds.1, hbounds.2]

/-- Numbers that round to one binary number are at most its last place apart. -/
theorem Reaches.abs_sub_le (h : b.Reaches q) (h' : b.Reaches q') : |q - q'| ≤ 2 ^ b.exponent := by
  have hnear := abs_le.mp h.near
  have hnear' := abs_le.mp h'.near
  rw [← four_mul_quarter, abs_le]
  constructor <;> linarith [hnear.1, hnear.2, hnear'.1, hnear'.2]

/-! ### Grids -/

theorem zpow_mul_toNat {a : ℚ} (ha : a ≠ 0) (k : ℤ) : a ^ k * a ^ (-k).toNat = a ^ k.toNat := by
  rw [← zpow_natCast, ← zpow_natCast, ← zpow_add₀ ha]
  congr 1
  omega

/-- The weights of a grid step and of a quarter are in the ratio of their sizes. -/
theorem exists_unit (b : Binary) (k : ℤ) :
    ∃ u : ℚ, 0 < u ∧ ((b.weights k).1 : ℚ) = 10 ^ k * u ∧ ((b.weights k).2 : ℚ) = b.quarter * u := by
  refine ⟨10 ^ (-k).toNat * 2 ^ (2 - b.exponent).toNat, by positivity, ?_, ?_⟩
  · show ((10 ^ k.toNat * 2 ^ (2 - b.exponent).toNat : ℕ) : ℚ) = _
    push_cast
    rw [← zpow_mul_toNat (by norm_num : (10 : ℚ) ≠ 0) k]
    ring
  · show ((10 ^ (-k).toNat * 2 ^ (b.exponent - 2).toNat : ℕ) : ℚ) = _
    push_cast
    rw [quarter, ← zpow_mul_toNat two_ne_zero (b.exponent - 2), neg_sub]
    ring

theorem quarters_le_steps_iff (b : Binary) (k : ℤ) (n d : ℕ) :
    n * (b.weights k).2 ≤ d * (b.weights k).1 ↔ n * b.quarter ≤ d * (10 : ℚ) ^ k := by
  obtain ⟨u, hu, hstep, hquarter⟩ := b.exists_unit k
  rw [← Nat.cast_le (α := ℚ), Nat.cast_mul, Nat.cast_mul, hstep, hquarter, ← mul_assoc, ← mul_assoc,
    mul_le_mul_iff_left₀ hu]

theorem steps_le_quarters_iff (b : Binary) (k : ℤ) (n d : ℕ) :
    d * (b.weights k).1 ≤ n * (b.weights k).2 ↔ d * (10 : ℚ) ^ k ≤ n * b.quarter := by
  obtain ⟨u, hu, hstep, hquarter⟩ := b.exists_unit k
  rw [← Nat.cast_le (α := ℚ), Nat.cast_mul, Nat.cast_mul, hstep, hquarter, ← mul_assoc, ← mul_assoc,
    mul_le_mul_iff_left₀ hu]

/-- **The weights decide which grid points reach a binary number.** -/
theorem holds_iff (b : Binary) (k : ℤ) (d : ℕ) : b.holds k d = true ↔ b.Reaches (d * 10 ^ k) := by
  have hlow := b.quarters_le_steps_iff k b.low d
  have hlow' := b.steps_le_quarters_iff k b.low d
  have hhigh := b.quarters_le_steps_iff k b.high d
  have hhigh' := b.steps_le_quarters_iff k b.high d
  unfold holds Reaches
  dsimp only
  split
  · rw [Bool.and_eq_true, decide_eq_true_iff, decide_eq_true_iff, hlow, hhigh']
  · rw [Bool.and_eq_true, decide_eq_true_iff, decide_eq_true_iff, ← not_le, ← not_le, hlow', hhigh, not_le, not_le]

/-- The number lies between the last grid point below it and the next one. -/
theorem below_bounds (b : Binary) (k : ℤ) :
    b.below k * (10 : ℚ) ^ k ≤ b.toRat ∧ b.toRat < (b.below k + 1 : ℕ) * (10 : ℚ) ^ k := by
  have hpos : 0 < (b.weights k).1 := Nat.mul_pos (Nat.pow_pos (by decide)) (Nat.pow_pos (by decide))
  rw [← centre_mul_quarter, ← steps_le_quarters_iff, ← not_le, ← steps_le_quarters_iff, not_le]
  refine ⟨Nat.div_mul_le_self _ _, ?_⟩
  show _ < (b.centre * (b.weights k).2 / (b.weights k).1 + 1) * (b.weights k).1
  rw [Nat.mul_comm _ (b.weights k).1]
  exact Nat.lt_mul_div_succ _ hpos

/-- A grid point less than a step away is one of the two that are tried. -/
theorem eq_below_or_of_near {c : ℕ} (h : |c * (10 : ℚ) ^ k - b.toRat| < 10 ^ k) :
    c = b.below k ∨ c = b.below k + 1 := by
  have hstep : (0 : ℚ) < 10 ^ k := by positivity
  obtain ⟨hbelow, habove⟩ := b.below_bounds k
  obtain ⟨hleft, hright⟩ := abs_lt.mp h
  have hlow : (b.below k : ℚ) < c + 1 := by
    refine lt_of_mul_lt_mul_right ?_ hstep.le
    linarith
  have hhigh : (c : ℚ) < (b.below k + 1 : ℕ) + 1 := by
    refine lt_of_mul_lt_mul_right ?_ hstep.le
    linarith
  have hlow' : b.below k < c + 1 := by exact_mod_cast hlow
  have hhigh' : c < b.below k + 1 + 1 := by exact_mod_cast hhigh
  omega

theorem onGrid?_eq_none (h : ∀ d : ℕ, ¬ b.Reaches (d * 10 ^ k)) : b.onGrid? tie k = none := by
  have hfalse (d : ℕ) : b.holds k d = false :=
    Bool.eq_false_iff.mpr fun hd => h d ((b.holds_iff k d).mp hd)
  unfold onGrid?
  dsimp only
  rw [hfalse, hfalse]

theorem onGrid?_eq_some {c : ℕ} (h : ∀ d : ℕ, b.Reaches (d * 10 ^ k) ↔ d = c)
    (hnext : c = b.below k ∨ c = b.below k + 1) : b.onGrid? tie k = some c := by
  have htrue : b.holds k c = true := (b.holds_iff k c).mpr ((h c).mpr rfl)
  have hfalse {d : ℕ} (hd : d ≠ c) : b.holds k d = false :=
    Bool.eq_false_iff.mpr fun hholds => hd ((h d).mp ((b.holds_iff k d).mp hholds))
  unfold onGrid?
  dsimp only
  obtain hc | hc := hnext
  · rw [← hc, htrue, hfalse (by omega)]
  · rw [← hc, htrue, hfalse (by omega)]

/-! ### All grids -/

/-- The search goes through the coarser grids and stops at the first hit. -/
theorem search_eq {s : Scaled} (hnone : ∀ k, s.exponent < k → b.onGrid? tie k = none)
    (hsome : b.onGrid? tie s.exponent = some s.coefficient) {fuel : ℕ} (hle : s.exponent ≤ k)
    (hfuel : k < s.exponent + fuel) : b.search tie fuel k = s := by
  induction fuel generalizing k with
  | zero => omega
  | succ fuel ih =>
    rcases Int.lt_or_eq_of_le hle with hlt | rfl
    · rw [search, hnone k hlt]
      exact ih (by omega) (by push_cast at hfuel; omega)
    · rw [search, hsome]

/-- Of the decimals on grids that are coarse enough only a given one reaches a binary number. -/
theorem Reaches.eq_of_coarse {s : Scaled} (hreach : b.Reaches s.toRat) (hgap : (2 : ℚ) ^ b.exponent < 10 ^ s.exponent)
    {d j : ℕ} (h : b.Reaches (d * 10 ^ (s.exponent + j))) : d * 10 ^ j = s.coefficient := by
  have hstep : (0 : ℚ) < 10 ^ s.exponent := by positivity
  have hdistance := h.abs_sub_le hreach
  have hunits : (d : ℚ) * 10 ^ (s.exponent + j) - s.toRat =
      ((d * 10 ^ j : ℕ) - (s.coefficient : ℚ)) * 10 ^ s.exponent := by
    rw [Scaled.toRat, zpow_add₀ (by norm_num), zpow_natCast]
    push_cast
    ring
  rw [hunits, abs_mul, abs_of_pos hstep] at hdistance
  have hlt : |((d * 10 ^ j : ℕ) : ℚ) - s.coefficient| < 1 := by
    refine lt_of_mul_lt_mul_right ?_ hstep.le
    linarith
  have hint : |((d * 10 ^ j : ℕ) : ℤ) - s.coefficient| < 1 := by exact_mod_cast hlt
  rw [Int.abs_lt_one_iff] at hint
  omega

/-- **The shortest decimal** is the one without a trailing zero that reaches the number, if its grid is coarser than the
numbers that do are apart. -/
theorem shortest_eq {s : Scaled} (hreach : b.Reaches s.toRat) (hten : ¬ 10 ∣ s.coefficient)
    (hgap : (2 : ℚ) ^ b.exponent < 10 ^ s.exponent) (hcoarse : s.exponent ≤ b.coarsest)
    (hfuel : b.coarsest < s.exponent + 20) : b.shortest tie = s := by
  refine search_eq (fun k hk => onGrid?_eq_none fun d hd => ?_) (onGrid?_eq_some (fun d => ?_) ?_) hcoarse hfuel
  · obtain ⟨j, rfl⟩ : ∃ j : ℕ, k = s.exponent + (j + 1 : ℕ) := ⟨(k - s.exponent - 1).toNat, by omega⟩
    have heq := hreach.eq_of_coarse hgap hd
    exact hten ⟨d * 10 ^ j, by rw [← heq, pow_succ]; ring⟩
  · constructor
    · intro hd
      have heq := hreach.eq_of_coarse hgap (d := d) (j := 0) (by simpa using hd)
      simpa using heq
    · rintro rfl
      exact hreach
  · refine eq_below_or_of_near (lt_of_le_of_lt hreach.near ?_)
    have hquarter := b.four_mul_quarter
    have hpos := b.quarter_pos
    linarith

/-! ### Numbers that round to a mantissa -/

variable {mantissa : ℕ} {exponent : ℤ}

theorem reaches_of_isNearest (hexponent : HasExponent q exponent) (hnear : IsNearest (q / 2 ^ exponent) mantissa)
    (hpos : 0 < mantissa) (hnormal : leastExponent < exponent) : Reaches ⟨mantissa, exponent⟩ q := by
  let b : Binary := ⟨mantissa, exponent⟩
  have hunit : (0 : ℚ) < 2 ^ exponent := by positivity
  have hvalue : q = 4 * (q / 2 ^ exponent) * b.quarter := by
    rw [mul_right_comm, b.four_mul_quarter, mul_div_cancel₀ _ hunit.ne']
  have hbounds := hnear.bounds
  have hhigh : (b.high : ℚ) = 4 * mantissa + 2 := by
    rw [high, centre]
    push_cast
    rfl
  show b.Reaches q
  rw [hvalue, reaches_mul_quarter, hhigh]
  by_cases hleast : mantissa = leastNormal
  · -- below the least mantissa doubles lie closer, but the number is not below it
    have heven : b.mantissa % 2 = 0 := congrArg (· % 2) hleast
    have hlow : b.low = 4 * leastNormal - 1 := low_of_narrow hleast hnormal
    have hmantissa : (mantissa : ℚ) = 2 ^ 52 := by
      rw [hleast, leastNormal]
      norm_num
    rw [if_pos heven, hlow, leastNormal]
    push_cast
    constructor <;> linarith [hexponent.low]
  · have hlow : b.low = 4 * mantissa - 2 := low_of_ne hleast
    have hcast : (b.low : ℚ) = 4 * mantissa - 2 := by
      rw [hlow, Nat.cast_sub (by omega)]
      push_cast
      rfl
    rw [hcast]
    split
    · constructor <;> linarith
    · next hodd =>
      -- a tie would have gone to an even mantissa
      have hne : |(mantissa : ℚ) - q / 2 ^ exponent| ≠ 1 / 2 := fun htie => hodd (hnear.even htie)
      have hlt := abs_lt.mp (lt_of_le_of_ne hnear.le_half hne)
      constructor <;> linarith [hlt.1, hlt.2]

/-- Rounded up to a power of two, a number lies below the least mantissa of the next exponent. -/
theorem reaches_of_carry (hnear : IsNearest (q / 2 ^ exponent) (2 ^ 53))
    (hnormal : leastExponent < exponent + 1) : Reaches ⟨2 ^ 52, exponent + 1⟩ q := by
  let b : Binary := ⟨2 ^ 52, exponent + 1⟩
  have hunit : (0 : ℚ) < 2 ^ exponent := by positivity
  have hvalue : q = 2 * (q / 2 ^ exponent) * b.quarter := by
    have hfour : 4 * b.quarter = 2 ^ (exponent + 1) := b.four_mul_quarter
    rw [zpow_add_one₀ two_ne_zero] at hfour
    have htwo : 2 * b.quarter = 2 ^ exponent := by linarith
    rw [mul_right_comm, htwo, mul_div_cancel₀ _ hunit.ne']
  have hbounds := hnear.bounds
  have hlow : b.low = 4 * leastNormal - 1 := low_of_narrow rfl hnormal
  have hhigh : b.high = 4 * leastNormal + 2 := rfl
  have heven : b.mantissa % 2 = 0 := by
    show 2 ^ 52 % 2 = 0
    decide
  show b.Reaches q
  rw [hvalue, reaches_mul_quarter, if_pos heven, hlow, hhigh, leastNormal]
  push_cast
  constructor <;> linarith

end Binary

/-! ### Doubles -/

namespace RoundsTo

open Float.Model.UnpackedFloat (Sign)

variable {q : ℚ} {sign : Sign} {mantissa : ℕ} {exponent : ℤ} {hpos : 0 < mantissa}

/-- A number is at most a bit longer than the double that it rounds to. -/
theorem exponent_bounds (h : RoundsTo q sign (.finite sign mantissa exponent hpos)) :
    (2 : ℚ) ^ (exponent + 51) ≤ q ∧ q < 2 ^ (exponent + 53) := by
  have hsplit (e : ℤ) (k : ℕ) : (2 : ℚ) ^ (e + k) = 2 ^ e * 2 ^ k := by rw [zpow_add₀ two_ne_zero, zpow_natCast]
  cases h with
  | plain hexponent hnear hlt hpos =>
    have hunit : (0 : ℚ) < 2 ^ exponent := by positivity
    have hlow := (le_div_iff₀ hunit).mp hexponent.low
    have hhigh := (div_lt_iff₀ hunit).mp hexponent.high
    have hfirst := hsplit exponent 51
    have hlast := hsplit exponent 53
    norm_num at hfirst hlast hlow hhigh
    rw [hfirst, hlast]
    constructor <;> linarith
  | @carried exponent hexponent hnear =>
    have hunit : (0 : ℚ) < 2 ^ exponent := by positivity
    have hlow := (le_div_iff₀ hunit).mp hexponent.low
    have hhigh := (div_lt_iff₀ hunit).mp hexponent.high
    have hfirst := hsplit exponent 52
    have hlast := hsplit exponent 54
    norm_num at hfirst hlast hlow hhigh
    rw [show exponent + 1 + 51 = exponent + 52 by ring, show exponent + 1 + 53 = exponent + 54 by ring, hfirst, hlast]
    constructor <;> linarith

theorem le_exponent (h : RoundsTo q sign (.finite sign mantissa exponent hpos)) (hle : 10 ^ (-3 : ℤ) ≤ q) :
    -63 ≤ exponent := by
  have hlast := h.exponent_bounds.2
  by_contra hsmall
  have hpow : (2 : ℚ) ^ (exponent + 53) ≤ 2 ^ (-11 : ℤ) := zpow_le_zpow_right₀ one_le_two (by omega)
  have htiny : (2 : ℚ) ^ (-11 : ℤ) < 10 ^ (-3 : ℤ) := by norm_num
  linarith

theorem exponent_le (h : RoundsTo q sign (.finite sign mantissa exponent hpos)) (hlt : q < 10 ^ 12) :
    exponent ≤ -12 := by
  have hfirst := h.exponent_bounds.1
  by_contra hlarge
  have hpow : (2 : ℚ) ^ (40 : ℤ) ≤ 2 ^ (exponent + 51) := zpow_le_zpow_right₀ one_le_two (by omega)
  have hhuge : (10 : ℚ) ^ 12 < 2 ^ (40 : ℤ) := by norm_num
  linarith

theorem log2_eq (h : RoundsTo q sign (.finite sign mantissa exponent hpos)) : mantissa.log2 = 52 := by
  cases h with
  | plain hexponent hnear hlt hpos =>
    have hbounds := hnear.bounds
    have hlow := hexponent.low
    have hle : (2 : ℚ) ^ 52 < mantissa + 1 := by linarith
    have hle' : 2 ^ 52 < mantissa + 1 := by exact_mod_cast hle
    exact (Nat.log2_eq_iff (by omega)).mpr ⟨by omega, hlt⟩
  | carried hexponent hnear => exact Nat.log2_two_pow

/-- **A number reaches the double that it rounds to.** -/
theorem reaches (h : RoundsTo q sign (.finite sign mantissa exponent hpos)) (hnormal : Binary.leastExponent < exponent) :
    Binary.Reaches ⟨mantissa, exponent⟩ q := by
  cases h with
  | plain hexponent hnear hlt hpos => exact Binary.reaches_of_isNearest hexponent hnear hpos hnormal
  | carried _ hnear => exact Binary.reaches_of_carry hnear hnormal

/-- The coarsest grid that is searched is above the first bit, where numbers are neither tiny nor huge. -/
theorem two_zpow_le_coarsest {bits : ℤ} (hlow : -10 ≤ bits) (hhigh : bits ≤ 50) :
    (2 : ℚ) ^ bits ≤ 10 ^ (bits * 30103 / 100000 + 2) := by
  have hall : ∀ i : Fin 61, 10 ^ 2 * 2 ^ i.val ≤ 2 ^ 10 * 10 ^ (((i.val : ℤ) - 10) * 30103 / 100000 + 4).toNat := by
    decide
  obtain ⟨i, rfl⟩ : ∃ i : ℕ, bits = i - 10 := ⟨(bits + 10).toNat, by omega⟩
  have hle := hall ⟨i, by omega⟩
  dsimp only at hle
  generalize hgrid : ((i : ℤ) - 10) * 30103 / 100000 = grid at hle ⊢
  obtain ⟨j, hj⟩ : ∃ j : ℕ, grid + 4 = j := ⟨(grid + 4).toNat, by omega⟩
  have hexponent : grid + 2 = (j : ℤ) - 2 := by omega
  rw [hj, Int.toNat_natCast] at hle
  rw [hexponent, zpow_sub₀ two_ne_zero, zpow_sub₀ (by norm_num), zpow_natCast, zpow_natCast,
    div_le_div_iff₀ (by positivity) (by positivity)]
  have hcast : ((10 ^ 2 * 2 ^ i : ℕ) : ℚ) ≤ (2 ^ 10 * 10 ^ j : ℕ) := by exact_mod_cast hle
  push_cast at hcast
  norm_num at hcast ⊢
  linarith

/-- **A decimal of at most fifteen digits is the shortest text of the double that it rounds to**, from a thousandth on. -/
theorem shortest_eq {s : Scaled} (h : RoundsTo s.toRat sign (.finite sign mantissa exponent hpos))
    (hten : ¬ 10 ∣ s.coefficient) (hthousandth : -3 ≤ s.exponent) (hlt : s.toRat < 10 ^ 12) (tie : Tie) :
    Binary.shortest tie ⟨mantissa, exponent⟩ = s := by
  have hlast := h.exponent_bounds.2
  have hcoefficient : (1 : ℚ) ≤ s.coefficient := by
    have hne : s.coefficient ≠ 0 := fun hzero => hten (hzero ▸ dvd_zero 10)
    exact_mod_cast Nat.pos_of_ne_zero hne
  have hstep : (10 : ℚ) ^ s.exponent ≤ s.toRat := le_mul_of_one_le_left (by positivity) hcoefficient
  have hleast : (10 : ℚ) ^ (-3 : ℤ) ≤ 10 ^ s.exponent := zpow_le_zpow_right₀ (by norm_num) hthousandth
  have hlower := h.le_exponent (hleast.trans hstep)
  have hupper := h.exponent_le hlt
  have hgap : (2 : ℚ) ^ exponent < 10 ^ s.exponent := by
    have hpow : (2 : ℚ) ^ exponent ≤ 2 ^ (-12 : ℤ) := zpow_le_zpow_right₀ one_le_two hupper
    have htiny : (2 : ℚ) ^ (-12 : ℤ) < 10 ^ (-3 : ℤ) := by norm_num
    linarith
  have hcoarsest : (⟨mantissa, exponent⟩ : Binary).coarsest = (exponent + 53) * 30103 / 100000 + 1 := by
    rw [Binary.coarsest, h.log2_eq]
    congr 3
    push_cast
    ring
  refine Binary.shortest_eq (h.reaches (by unfold Binary.leastExponent; omega)) hten hgap ?_ ?_
  · -- otherwise the decimal would be above the bits of the double
    by_contra hcoarse
    have hbits : (2 : ℚ) ^ (exponent + 53) ≤ 10 ^ ((exponent + 53) * 30103 / 100000 + 2) :=
      two_zpow_le_coarsest (by omega) (by omega)
    have hgrid : (10 : ℚ) ^ ((exponent + 53) * 30103 / 100000 + 2) ≤ 10 ^ s.exponent :=
      zpow_le_zpow_right₀ (by norm_num) (by omega)
    linarith
  · rw [hcoarsest]
    omega

end RoundsTo

end LogCorrelation.Decimal
