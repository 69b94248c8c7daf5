import LogCorrelation.TimeOfDay.Basic
import Mathlib.Order.Defs.LinearOrder

/-!
# Proofs.TimeOfDay.Order — times of day in their order

Times are linearly ordered, leap seconds included, so the library's lemmas on orders hold of them.
-/

namespace LogCorrelation.TimeOfDay

instance : LinearOrder TimeOfDay where
  le_refl := lt_irrefl
  le_trans _ _ _ := le_trans
  le_antisymm _ _ := le_antisymm
  le_total := le_total
  lt_iff_le_not_ge a b := by
    rw [lt_iff, le_iff, le_iff]
    omega
  toDecidableEq := inferInstance
  toDecidableLE := inferInstance
  toDecidableLT := inferInstance

/-- No time in an ordered list is after its last. -/
theorem le_of_mem_getLast? {l : List TimeOfDay} (h : l.Pairwise (· ≤ ·)) {a b : TimeOfDay} (ha : a ∈ l)
    (hb : b ∈ l.getLast?) : a ≤ b := by
  obtain ⟨front, rfl⟩ := List.getLast?_eq_some_iff.mp hb
  rcases List.mem_append.mp ha with ha | ha
  · exact (List.pairwise_append.mp h).2.2 a ha b (by simp)
  · exact le_of_eq (List.mem_singleton.mp ha)

end LogCorrelation.TimeOfDay
