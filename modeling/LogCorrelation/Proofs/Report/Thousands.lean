import LogCorrelation.Proofs.Decimal.Characters
import LogCorrelation.Report.Chart
import Mathlib.Data.List.Basic
import Mathlib.Logic.Function.Defs

/-!
# Proofs.Report.Thousands — a number with its digits in groups of three

The digits are walked over from the first one on, while commas are counted from the last one.  From any place but the
first, what is written begins with what is left of a group: as many digits as are left modulo three.

* `exists_groups`: what the walk writes from a place on.
* `inThousands_grouped`: what it writes altogether.
* `inThousands_iff`: the only text of this kind.
-/

namespace LogCorrelation.Report

open Decimal (digits)

/-- Groups of three, of which the first may be shorter, but not empty. -/
def AreThrees : List (List Char) → Prop
  | [] => False
  | first :: rest => 1 ≤ first.length ∧ first.length ≤ 3 ∧ ∀ group ∈ rest, group.length = 3

/-- A number in decimal, with commas between groups of three digits that are counted from the end. -/
structure InThousands (n : ℕ) (text : String) : Prop where
  withoutCommas : text.toList.filter (· ≠ ',') = (toString n).toList
  isDigit : ∀ group ∈ text.toList.splitOn ',', ∀ c ∈ group, c.isDigit = true
  areThrees : AreThrees (text.toList.splitOn ',')

/-! ### Groups between commas -/

theorem filter_eq_flatten_splitOn (cs : List Char) : cs.filter (· ≠ ',') = (cs.splitOn ',').flatten := by
  induction cs with
  | nil => rfl
  | cons c cs ih =>
    obtain ⟨first, rest, hsplit⟩ := List.exists_cons_of_ne_nil (List.splitOn_ne_nil ',' cs)
    rw [hsplit] at ih
    rw [List.splitOn_cons_eq_if_modifyHead, hsplit]
    by_cases hc : c = ','
    · rw [List.filter_cons_of_neg (by simpa using hc), ih, if_pos (beq_iff_eq.mpr hc)]
      rfl
    · rw [List.filter_cons_of_pos (by simpa using hc), ih, if_neg (mt beq_iff_eq.mp hc)]
      rfl

theorem count_add_one_eq_length_splitOn (cs : List Char) : cs.count ',' + 1 = (cs.splitOn ',').length := by
  induction cs with
  | nil => rfl
  | cons c cs ih =>
    rw [List.splitOn_cons_eq_if_modifyHead]
    by_cases hc : c = ','
    · simp [hc, ih]
    · simp [hc, ih]

/-- A comma at either end leaves an empty group there. -/
theorem nil_mem_splitOn (front rest : List Char) (h : front = [] ∨ rest = []) :
    [] ∈ (front ++ ',' :: rest).splitOn ',' := by
  rw [List.splitOn_append_cons_self, List.mem_append]
  obtain rfl | rfl := h
  · exact .inl (List.mem_singleton_self [])
  · exact .inr (List.mem_singleton_self [])

namespace AreThrees

variable {groups : List (List Char)}

theorem ne_nil (h : AreThrees groups) : groups ≠ [] := by
  rintro rfl
  exact h

theorem nil_not_mem (h : AreThrees groups) : [] ∉ groups := by
  cases groups with
  | nil => exact List.not_mem_nil
  | cons first rest =>
    obtain ⟨hpos, -, hrest⟩ := h
    intro hmem
    obtain rfl | hmem := List.mem_cons.mp hmem
    · exact absurd hpos (by decide)
    · exact absurd (hrest [] hmem) (by decide)

theorem map_length {first : List Char} {rest : List (List Char)} (h : AreThrees (first :: rest)) :
    (first :: rest).map List.length = first.length :: List.replicate rest.length 3 := by
  rw [List.map_cons, List.map_eq_replicate_iff.mpr h.2.2]

theorem length_flatten {first : List Char} {rest : List (List Char)} (h : AreThrees (first :: rest)) :
    (first :: rest).flatten.length = first.length + 3 * rest.length := by
  rw [List.length_flatten, h.map_length, List.sum_cons, List.sum_replicate_nat, Nat.mul_comm]

/-- Digits fall into groups of three in one way only: how many digits there are tells how long the first group is. -/
theorem eq_of_flatten_eq {groups' : List (List Char)} (h : AreThrees groups) (h' : AreThrees groups')
    (hflatten : groups.flatten = groups'.flatten) : groups = groups' := by
  obtain ⟨first, rest, rfl⟩ := List.exists_cons_of_ne_nil h.ne_nil
  obtain ⟨first', rest', rfl⟩ := List.exists_cons_of_ne_nil h'.ne_nil
  have hlength : first.length + 3 * rest.length = first'.length + 3 * rest'.length := by
    rw [← h.length_flatten, hflatten, h'.length_flatten]
  have hmap : (first :: rest).map List.length = (first' :: rest').map List.length := by
    have hbounds : 1 ≤ first.length ∧ first.length ≤ 3 := ⟨h.1, h.2.1⟩
    have hbounds' : 1 ≤ first'.length ∧ first'.length ≤ 3 := ⟨h'.1, h'.2.1⟩
    have hfirst : first.length = first'.length := by omega
    have hrest : rest.length = rest'.length := by omega
    rw [h.map_length, h'.map_length, hfirst, hrest]
  exact List.eq_iff_flatten_eq.mpr ⟨hflatten, hmap⟩

end AreThrees

namespace InThousands

variable {n : ℕ} {text : String} (h : InThousands n text)

include h

theorem flatten_splitOn : (text.toList.splitOn ',').flatten = (toString n).toList := by
  rw [← filter_eq_flatten_splitOn, h.withoutCommas]

theorem count_comma : text.toList.count ',' = ((toString n).length - 1) / 3 := by
  have hcount := count_add_one_eq_length_splitOn text.toList
  have hflatten := h.flatten_splitOn
  have hthrees := h.areThrees
  obtain ⟨first, rest, hsplit⟩ := List.exists_cons_of_ne_nil hthrees.ne_nil
  rw [hsplit] at hcount hflatten hthrees
  have hlength : (toString n).length = first.length + 3 * rest.length := by
    rw [← String.length_toList, ← hflatten, hthrees.length_flatten]
  obtain ⟨hpos, hle, -⟩ := hthrees
  rw [List.length_cons] at hcount
  omega

theorem head?_ne_comma : text.toList.head? ≠ some ',' := by
  intro hhead
  obtain ⟨rest, hrest⟩ := List.head?_eq_some_iff.mp hhead
  apply h.areThrees.nil_not_mem
  rw [hrest]
  exact nil_mem_splitOn [] rest (.inl rfl)

theorem getLast?_ne_comma : text.toList.getLast? ≠ some ',' := by
  intro hlast
  obtain ⟨front, hfront⟩ := List.getLast?_eq_some_iff.mp hlast
  apply h.areThrees.nil_not_mem
  rw [hfront]
  exact nil_mem_splitOn front [] (.inr rfl)

/-- The groups of a text tell the text, and the digits of a number tell its groups. -/
theorem unique {text' : String} (h' : InThousands n text') : text = text' := by
  have hgroups : text.toList.splitOn ',' = text'.toList.splitOn ',' :=
    h.areThrees.eq_of_flatten_eq h'.areThrees (h.flatten_splitOn.trans h'.flatten_splitOn.symm)
  rw [← String.toList_inj]
  calc text.toList = [','].intercalate (text.toList.splitOn ',') := (List.intercalate_splitOn ',').symm
    _ = [','].intercalate (text'.toList.splitOn ',') := by rw [hgroups]
    _ = text'.toList := List.intercalate_splitOn ','

/-- The digits of a text tell the number. -/
theorem number_unique {m : ℕ} (hm : InThousands m text) : m = n := by
  have hsame : (toString m).toList = (toString n).toList := by rw [← hm.withoutCommas, h.withoutCommas]
  have hdigits : digits m = digits n := by rw [← Decimal.toList_toString, hsame, Decimal.toList_toString]
  rw [← Decimal.value_digits m, hdigits, Decimal.value_digits]

end InThousands

/-! ### Walking over the digits -/

/-- What the walk writes from a place on that is not the first: groups of three behind what is left of a group, which is
empty where a group begins. -/
theorem exists_groups {ds : List Char} {count index : ℕ} (hindex : 0 < index) (hcount : count = index + ds.length) :
    ∃ first rest, (ds.zipIdx index).flatMap (groupedDigit count) = [','].intercalate (first :: rest) ∧
      (first :: rest).flatten = ds ∧ first.length = ds.length % 3 ∧ ∀ group ∈ rest, group.length = 3 := by
  induction ds generalizing index with
  | nil => exact ⟨[], [], by simp, rfl, rfl, List.forall_mem_nil _⟩
  | cons d ds ih =>
    rw [List.length_cons] at hcount
    obtain ⟨first, rest, htext, hflatten, hfirst, hrest⟩ := ih (Nat.succ_pos index) (by omega)
    have hleft : count - index = ds.length + 1 := by omega
    rw [List.zipIdx_cons, List.flatMap_cons, htext, groupedDigit, hleft]
    by_cases hthree : (ds.length + 1) % 3 = 0
    · -- a group begins at this digit, and what is left of the one before is empty
      refine ⟨[], (d :: first) :: rest, ?_, ?_, ?_, ?_⟩
      · rw [if_pos ⟨hindex, hthree⟩, List.intercalate_cons_cons, List.intercalate_cons_cons_left]
        rfl
      · rw [List.flatten_cons, List.flatten_cons, List.nil_append, List.cons_append, ← List.flatten_cons, hflatten]
      · rw [List.length_nil, List.length_cons, hthree]
      · refine List.forall_mem_cons.mpr ⟨?_, hrest⟩
        rw [List.length_cons]
        omega
    · refine ⟨d :: first, rest, ?_, ?_, ?_, hrest⟩
      · rw [if_neg fun h => hthree h.2, List.intercalate_cons_cons_left]
        rfl
      · rw [List.flatten_cons, List.cons_append, ← List.flatten_cons, hflatten]
      · rw [List.length_cons, List.length_cons]
        omega

/-- The first digit begins the first group, whatever the number of digits. -/
theorem exists_areThrees {ds : List Char} (hne : ds ≠ []) :
    ∃ groups, groupDigits ds = [','].intercalate groups ∧ groups.flatten = ds ∧ AreThrees groups := by
  obtain ⟨d, ds, rfl⟩ := List.exists_cons_of_ne_nil hne
  obtain ⟨first, rest, htext, hflatten, hfirst, hrest⟩ :=
    exists_groups Nat.one_pos (Nat.add_comm ds.length 1)
  refine ⟨(d :: first) :: rest, ?_, ?_, ?_, ?_, hrest⟩
  · rw [groupDigits, List.length_cons, List.zipIdx_cons, List.flatMap_cons, htext, List.intercalate_cons_cons_left,
      groupedDigit, if_neg fun h => absurd h.1 (by decide)]
    rfl
  · rw [List.flatten_cons, List.cons_append, ← List.flatten_cons, hflatten]
  · exact Nat.succ_pos _
  · rw [List.length_cons]
    omega

/-- **A number is written in groups of three digits**, counted from the end. -/
theorem inThousands_grouped (n : ℕ) : InThousands n (grouped n) := by
  obtain ⟨groups, htext, hflatten, hthrees⟩ := exists_areThrees (Decimal.digits_ne_nil n)
  have hdigit : ∀ group ∈ groups, ∀ c ∈ group, c.isDigit = true := by
    intro group hgroup c hc
    exact Decimal.isDigit_of_mem_digits (hflatten ▸ List.mem_flatten.mpr ⟨group, hgroup, hc⟩)
  have hcomma : ∀ group ∈ groups, ',' ∉ group :=
    fun group hgroup hmem => absurd (hdigit group hgroup ',' hmem) (by decide)
  have hsplit : (grouped n).toList.splitOn ',' = groups := by
    rw [grouped, String.toList_ofList, htext, List.splitOn_intercalate ',' hcomma hthrees.ne_nil]
  refine ⟨?_, ?_, ?_⟩
  · rw [filter_eq_flatten_splitOn, hsplit, hflatten, Decimal.toList_toString]
  · rwa [hsplit]
  · rwa [hsplit]

theorem grouped_injective : Function.Injective grouped := fun m n h =>
  (inThousands_grouped n).number_unique (h ▸ inThousands_grouped m)

/-- **No other text** has the digits of the number in such groups. -/
theorem inThousands_iff {n : ℕ} {text : String} : InThousands n text ↔ text = grouped n := by
  constructor
  · exact fun h => h.unique (inThousands_grouped n)
  · rintro rfl
    exact inThousands_grouped n

/-- **A number with its thousands set apart.**  Without its commas the text is the number in decimal; between them stand
groups of three digits behind a first one of one to three, so that no comma stands at either end and there is one for
every three digits behind the first; and different numbers have different texts. -/
theorem grouped_in_thousands :
    (∀ n, InThousands n (grouped n) ∧ (grouped n).toList.head? ≠ some ',' ∧ (grouped n).toList.getLast? ≠ some ',' ∧
      (grouped n).toList.count ',' = ((toString n).length - 1) / 3) ∧ Function.Injective grouped := by
  refine ⟨fun n => ?_, grouped_injective⟩
  have h := inThousands_grouped n
  exact ⟨h, h.head?_ne_comma, h.getLast?_ne_comma, h.count_comma⟩

/-- The greatest number of sixty-four bits. -/
example : grouped 18446744073709551615 = "18,446,744,073,709,551,615" := by decide +kernel

end LogCorrelation.Report
