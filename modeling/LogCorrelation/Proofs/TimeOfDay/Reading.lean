import LogCorrelation.TimeOfDay.Text
import Mathlib.Tactic.IntervalCases

/-!
# Proofs.TimeOfDay.Reading — what reading a text gives

* `text_of_parse_eq_error`: a refusal carries the text that was read, unchanged.
* `micro_lt_of_parse_eq_ok`: a time read from a text is never inside a leap second.
-/

namespace LogCorrelation.TimeOfDay

/-! ### Columns and fields -/

theorem misfit?_eq_none_iff {cs : List Column} {bs : List UInt8} :
    misfit? cs bs = none ↔ ∀ p ∈ cs.zip bs, p.1.accepts p.2 = true := by
  induction cs generalizing bs with
  | nil => simp [misfit?]
  | cons c cs ih =>
    cases bs with
    | nil => simp [misfit?]
    | cons b bs =>
      rw [misfit?, List.zip_cons_cons, List.forall_mem_cons, ← ih]
      by_cases h : c.accepts b = true <;> simp [h]

/-- The bytes of a field whose columns ask for digits are digits. -/
theorem digits_of_misfit?_eq_none {bs : List UInt8} (h : misfit? layout bs = none) {start count : Nat}
    (hd : ∀ i < count, layout[start + i]? = some .digit) :
    ∀ b ∈ (bs.drop start).take count, Column.digit.accepts b = true := by
  intro b hb
  obtain ⟨i, hi⟩ := List.mem_iff_getElem?.mp hb
  have hlt : i < count := by
    by_contra hge
    exact absurd hi (by simp [hge])
  rw [List.getElem?_take_of_lt hlt, List.getElem?_drop] at hi
  have hp : (layout.zip bs)[start + i]? = some (.digit, b) :=
    List.getElem?_zip_eq_some.mpr ⟨hd i hlt, hi⟩
  exact misfit?_eq_none_iff.mp h _ (List.mem_of_getElem? hp)

theorem foldl_digits_lt {ds : List UInt8} (h : ∀ b ∈ ds, Column.digit.accepts b = true) (n : Nat) :
    ds.foldl (fun n b => 10 * n + (b.toNat - 48)) n < (n + 1) * 10 ^ ds.length := by
  induction ds generalizing n with
  | nil => simp
  | cons b ds ih =>
    obtain ⟨hb, hds⟩ := List.forall_mem_cons.mp h
    have hb9 : b.toNat - 48 ≤ 9 := by
      simp only [Column.accepts, Bool.and_eq_true, decide_eq_true_eq, UInt8.le_iff_toNat_le] at hb
      exact Nat.sub_le_of_le_add hb.2
    calc (b :: ds).foldl (fun n b => 10 * n + (b.toNat - 48)) n
        < (10 * n + (b.toNat - 48) + 1) * 10 ^ ds.length := ih hds _
      _ ≤ (10 * (n + 1)) * 10 ^ ds.length := Nat.mul_le_mul_right _ (by omega)
      _ = (n + 1) * 10 ^ (b :: ds).length := by rw [List.length_cons, Nat.pow_succ]; ac_rfl

/-- A field of `count` digits is below `10 ^ count`. -/
theorem field_lt {bs : List UInt8} (h : misfit? layout bs = none) {start count : Nat}
    (hd : ∀ i < count, layout[start + i]? = some .digit) : field bs start count < 10 ^ count := by
  have hlt := foldl_digits_lt (digits_of_misfit?_eq_none h hd) 0
  have hle : ((bs.drop start).take count).length ≤ count := List.length_take_le _ _
  calc field bs start count
      < (0 + 1) * 10 ^ ((bs.drop start).take count).length := hlt
    _ ≤ 10 ^ count := by rw [Nat.zero_add, Nat.one_mul]; exact Nat.pow_le_pow_right (by omega) hle

/-! ### Reading -/

/-- A text is read as a time if and only if it passes every check. -/
theorem parse_eq_ok_iff {text : String} {t : TimeOfDay} :
    parse text = .ok t ↔
      text.toUTF8.data.toList.length = layout.length ∧ misfit? layout text.toUTF8.data.toList = none ∧
        field text.toUTF8.data.toList 6 2 ≤ 59 ∧
        ofFields? (field text.toUTF8.data.toList 0 2) (field text.toUTF8.data.toList 3 2)
          (field text.toUTF8.data.toList 6 2) (field text.toUTF8.data.toList 9 6) = some t := by
  unfold parse
  generalize text.toUTF8.data.toList = bytes
  dsimp only
  by_cases hlen : bytes.length = layout.length
  · rw [if_neg (not_not_intro hlen)]
    cases hm : misfit? layout bytes with
    | some i => simp
    | none =>
      by_cases hs : 59 < field bytes 6 2
      · simp [hs]
      · cases ho : ofFields? (field bytes 0 2) (field bytes 3 2) (field bytes 6 2) (field bytes 9 6) <;>
          simp [hlen, hs, Nat.le_of_not_lt hs]
  · rw [if_pos hlen]
    simp [hlen]

/-- A refusal carries the text that was read. -/
theorem text_of_parse_eq_error {text : String} {m : Malformed} (h : parse text = .error m) : m.text = text := by
  unfold parse at h
  dsimp only at h
  split at h
  · exact Except.error.inj h ▸ rfl
  · split at h
    · exact Except.error.inj h ▸ rfl
    · split at h
      · exact Except.error.inj h ▸ rfl
      · split at h
        · exact absurd h (by simp)
        · exact Except.error.inj h ▸ rfl

/-- **A time read from a text** has less than a million microseconds, so it is in no leap second. -/
theorem micro_lt_of_parse_eq_ok {text : String} {t : TimeOfDay} (h : parse text = .ok t) : t.micro < 1000000 := by
  obtain ⟨-, hm, -, ho⟩ := parse_eq_ok_iff.mp h
  have hf : field text.toUTF8.data.toList 9 6 < 10 ^ 6 := field_lt hm fun i hi => by interval_cases i <;> rfl
  unfold ofFields? at ho
  split at ho
  · obtain rfl := Option.some.inj ho
    exact hf
  · exact absurd ho (by simp)

end LogCorrelation.TimeOfDay
