/-!
# TimeOfDay — times of day to the microsecond

A time is a whole second of the day and the microseconds past it.  The last second of a minute may be followed by
a leap second; it has no second number of its own, so its microseconds run on from one to two million.

* `ofFields?` builds a time from its four fields and refuses every field that is out of range.
* Times are ordered by second first and microseconds next, so a leap second stays before the minute that follows.
* `micros` counts microseconds since midnight, and `elapsed` is the difference of two such counts in milliseconds.
-/

namespace LogCorrelation

/-- A time of day. -/
structure TimeOfDay where
  /-- Whole seconds since midnight. -/
  second : Nat
  /-- Microseconds past the second. -/
  micro : Nat
  second_lt : second < 86400
  micro_lt : micro < 1000000 ∨ second % 60 = 59 ∧ micro < 2000000
deriving DecidableEq

namespace TimeOfDay

/-! ### Fields -/

/-- The time with these fields, if each of them is in range. -/
def ofFields? (hour minute second micro : Nat) : Option TimeOfDay :=
  if h : hour < 24 ∧ minute < 60 ∧ second < 60 ∧ (micro < 1000000 ∨ second = 59 ∧ micro < 2000000) then
    some ⟨hour * 3600 + minute * 60 + second, micro, by omega, by omega⟩
  else
    none

/-- The hour of the day. -/
def hour (t : TimeOfDay) : Nat := t.second / 3600

/-- The minute within the hour. -/
def minute (t : TimeOfDay) : Nat := t.second / 60 % 60

/-- The second within the minute as it is shown: 60 in a leap second. -/
def shownSecond (t : TimeOfDay) : Nat := t.second % 60 + t.micro / 1000000

/-- The microseconds past the shown second. -/
def shownMicro (t : TimeOfDay) : Nat := t.micro % 1000000

/-! ### Order -/

instance : LT TimeOfDay where
  lt a b := a.second < b.second ∨ a.second = b.second ∧ a.micro < b.micro

instance : LE TimeOfDay where
  le a b := ¬ b < a

theorem lt_iff {a b : TimeOfDay} :
    a < b ↔ a.second < b.second ∨ a.second = b.second ∧ a.micro < b.micro := Iff.rfl

instance (a b : TimeOfDay) : Decidable (a < b) :=
  inferInstanceAs (Decidable (a.second < b.second ∨ a.second = b.second ∧ a.micro < b.micro))

instance (a b : TimeOfDay) : Decidable (a ≤ b) := inferInstanceAs (Decidable (¬ b < a))

theorem eq_of_fields {a b : TimeOfDay} (hs : a.second = b.second) (hm : a.micro = b.micro) : a = b := by
  cases a; cases b; simp_all

theorem lt_irrefl (a : TimeOfDay) : ¬ a < a := by
  rw [lt_iff]
  omega

theorem le_iff {a b : TimeOfDay} :
    a ≤ b ↔ a.second < b.second ∨ a.second = b.second ∧ a.micro ≤ b.micro := by
  show ¬ b < a ↔ _
  rw [lt_iff]
  omega

theorem le_trans {a b c : TimeOfDay} (h : a ≤ b) (h' : b ≤ c) : a ≤ c := by
  rw [le_iff] at h h' ⊢
  omega

theorem le_total (a b : TimeOfDay) : a ≤ b ∨ b ≤ a := by
  rw [le_iff, le_iff]
  omega

theorem le_antisymm {a b : TimeOfDay} (h : a ≤ b) (h' : b ≤ a) : a = b := by
  rw [le_iff] at h h'
  exact eq_of_fields (by omega) (by omega)

/-- How `a` stands to `b`: earlier, equal or later. -/
def order (a b : TimeOfDay) : Ordering :=
  if a < b then .lt else if a = b then .eq else .gt

/-! ### Elapsed time -/

/-- Microseconds since midnight. -/
def micros (t : TimeOfDay) : Nat := t.second * 1000000 + t.micro

/-- Outside leap seconds the count of microseconds follows the order of times. -/
theorem micros_lt_micros_iff {a b : TimeOfDay} (ha : a.micro < 1000000) (hb : b.micro < 1000000) :
    a.micros < b.micros ↔ a < b := by
  rw [lt_iff, micros, micros]
  omega

/-- Milliseconds from `start` to `stop`, negative if `start` is the later one. -/
def elapsed (start stop : TimeOfDay) : Float := Float.ofInt ((stop.micros : Int) - start.micros) / 1000.0

end TimeOfDay

end LogCorrelation
