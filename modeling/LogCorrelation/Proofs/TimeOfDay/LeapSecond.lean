import LogCorrelation.Proofs.Decimal.Normal
import LogCorrelation.Proofs.TimeOfDay.Order
import LogCorrelation.Proofs.TimeOfDay.Reading

/-!
# Proofs.TimeOfDay.LeapSecond — where order and elapsed time part

Times are ordered by second first, while elapsed time is taken from the count of microseconds.  Within a leap second
the microseconds run on to two million.  So its count runs into the second that follows, but its place in the order
stays before it, and of two such times the earlier one may have the greater count: it overtakes the later one.

* `followsOrder_iff`: order and elapsed time agree on two times if and only if neither overtakes the other.
* `not_overtakes_of_parse_eq_ok`: a time that was read overtakes none.
-/

namespace LogCorrelation.TimeOfDay

variable {a b : TimeOfDay}

/-- A time whose microseconds reach into the next second at least as far as those of a time in it. -/
structure Overtakes (a b : TimeOfDay) : Prop where
  second : a.second + 1 = b.second
  micro : 1000000 + b.micro ≤ a.micro

/-- The earlier of two times has the smaller count unless it overtakes the later one. -/
theorem overtakes_iff : a.Overtakes b ↔ a < b ∧ b.micros ≤ a.micros := by
  have hmicro := a.micro_lt
  rw [lt_iff, micros, micros]
  constructor
  · rintro ⟨hsecond, hmicro⟩
    omega
  · rintro ⟨hlt, hle⟩
    exact ⟨by omega, by omega⟩

/-- Only in a leap second are there microseconds enough. -/
theorem Overtakes.isLeap (h : a.Overtakes b) : a.second % 60 = 59 ∧ 1000000 ≤ a.micro := by
  have hmicro := a.micro_lt
  have hle := h.micro
  omega

theorem not_overtakes_of_parse_eq_ok {text : String} (h : parse text = .ok a) (b : TimeOfDay) : ¬ a.Overtakes b := by
  intro hovertakes
  have hleap := hovertakes.isLeap.2
  have hread := micro_lt_of_parse_eq_ok h
  omega

/-- Every time has fields that it can be built from. -/
theorem exists_ofFields?_eq_some (a : TimeOfDay) :
    ∃ hour minute second micro, ofFields? hour minute second micro = some a := by
  have hsecond := a.second_lt
  have hmicro := a.micro_lt
  refine ⟨a.second / 3600, a.second / 60 % 60, a.second % 60, a.micro, ?_⟩
  rw [ofFields?, dif_pos (by omega)]
  exact congrArg some (eq_of_fields (by dsimp only; omega) rfl)

/-! ### The sign of elapsed time -/

/-- Milliseconds compare with zero as the microseconds do that they are made of. -/
theorem comparesAs_elapsed (a b : TimeOfDay) :
    ComparesAs ((b.micros : Int) - a.micros) (a.elapsed b).toModel.unpack := by
  have hsecond := a.second_lt
  have hsecond' := b.second_lt
  have hmicro := a.micro_lt
  have hmicro' := b.micro_lt
  have hday : ((b.micros : Int) - a.micros).natAbs < 2 ^ 53 := by
    unfold micros
    omega
  unfold elapsed
  generalize (b.micros : Int) - a.micros = d at hday
  by_cases hd : d = 0
  · subst hd
    exact ⟨rfl, rfl⟩
  · have hthousand : Normal .positive (-43) (-43) (1000.0 : Float).toModel.unpack := by
      rw [unpack_thousand]
      exact ⟨rfl, by decide, by decide, by decide⟩
    have hquotient := normal_div (normal_ofInt hd hday) hthousand (by decide)
    have hsign : signOf d / .positive = signOf d := by cases signOf d <;> rfl
    rw [hsign] at hquotient
    exact (normal_unpack_pack hquotient (by decide) (by decide)).comparesAs hd

theorem elapsed_lt_zero_iff : a.elapsed b < 0.0 ↔ b.micros < a.micros := by
  rw [(compare_zero_iff (comparesAs_elapsed a b)).1]
  omega

theorem zero_lt_elapsed_iff : 0.0 < a.elapsed b ↔ a.micros < b.micros := by
  rw [(compare_zero_iff (comparesAs_elapsed a b)).2.1]
  omega

theorem elapsed_beq_zero_iff : (a.elapsed b == 0.0) = true ↔ a.micros = b.micros := by
  rw [(compare_zero_iff (comparesAs_elapsed a b)).2.2]
  omega

/-! ### Agreement -/

/-- Two times whose order is that of their counts, and of the time elapsed between them. -/
structure FollowsOrder (a b : TimeOfDay) : Prop where
  order : a.order b = compare a.micros b.micros
  negative : a.elapsed b < 0.0 ↔ b < a
  positive : 0.0 < a.elapsed b ↔ a < b
  zero : (a.elapsed b == 0.0) = true ↔ a = b

theorem micros_lt_micros_iff_of_not_overtakes (hab : ¬ a.Overtakes b) (hba : ¬ b.Overtakes a) :
    a.micros < b.micros ↔ a < b := by
  rw [overtakes_iff] at hab hba
  constructor
  · intro hcount
    rcases lt_trichotomy a b with hlt | rfl | hgt
    · exact hlt
    · exact absurd hcount (Nat.lt_irrefl _)
    · exact absurd ⟨hgt, Nat.le_of_lt hcount⟩ hba
  · intro hlt
    exact Nat.lt_of_not_le fun hle => hab ⟨hlt, hle⟩

/-- **Order and elapsed time agree** on two times if and only if neither overtakes the other. -/
theorem followsOrder_iff : FollowsOrder a b ↔ ¬ a.Overtakes b ∧ ¬ b.Overtakes a := by
  constructor
  · intro h
    refine ⟨fun hovertakes => ?_, fun hovertakes => ?_⟩
    · obtain ⟨hlt, hle⟩ := overtakes_iff.mp hovertakes
      exact absurd (zero_lt_elapsed_iff.mp (h.positive.mpr hlt)) (Nat.not_lt.mpr hle)
    · obtain ⟨hlt, hle⟩ := overtakes_iff.mp hovertakes
      exact absurd (elapsed_lt_zero_iff.mp (h.negative.mpr hlt)) (Nat.not_lt.mpr hle)
  · rintro ⟨hab, hba⟩
    have hlt := micros_lt_micros_iff_of_not_overtakes hab hba
    have hgt := micros_lt_micros_iff_of_not_overtakes hba hab
    have heq : a.micros = b.micros ↔ a = b := by
      rw [eq_iff_le_not_lt, eq_iff_le_not_lt, ← not_lt, ← not_lt, hlt, hgt]
    refine ⟨?_, elapsed_lt_zero_iff.trans hgt, zero_lt_elapsed_iff.trans hlt, elapsed_beq_zero_iff.trans heq⟩
    simp only [order, ← hlt, ← heq]
    rfl

/-- Of two times in order the one after the other is not overtaken exactly if the time elapsed is positive, or zero
between equal times. -/
theorem not_overtakes_iff_of_le (h : a ≤ b) :
    ¬ a.Overtakes b ↔ ¬ a.elapsed b < 0.0 ∧ ((a.elapsed b == 0.0) = true → a = b) := by
  rw [overtakes_iff, elapsed_lt_zero_iff, elapsed_beq_zero_iff]
  constructor
  · intro hnot
    rcases lt_or_eq_of_le h with hlt | rfl
    · have hcount : a.micros < b.micros := Nat.lt_of_not_le fun hle => hnot ⟨hlt, hle⟩
      exact ⟨Nat.not_lt.mpr (Nat.le_of_lt hcount), fun heq => absurd heq (Nat.ne_of_lt hcount)⟩
    · exact ⟨Nat.lt_irrefl _, fun _ => rfl⟩
  · rintro ⟨hle, hne⟩ ⟨hlt, hcount⟩
    have heq : a.micros = b.micros := Nat.le_antisymm (Nat.not_lt.mp hle) hcount
    exact absurd (hne heq) (ne_of_lt hlt)

end LogCorrelation.TimeOfDay
