import LogCorrelation.Batch.Alternation

/-!
# Proofs.Batch.Classes — the two classes of batches, index by index

The batch at index `i` of the whole is the batch `i / 2` of its class.

* `Alternation.getElem?_classOf_ofData`: its count and its latency are those at index `i`.
* `Alternation.length_classOf_ofData`: which class has a count for the interval behind the last command.
* `split_conserves`: a split loses, doubles and moves nothing, and counts and latencies split apart stay aligned.
* `getElem?_pairUp_of_left`, `countP_pairUp_right`, `countP_pairUp_left`: lists of unequal length side by side.
-/

namespace LogCorrelation.Batch

/-! ### Lists of unequal length -/

section PairUp

variable {α β : Type}

theorem getElem?_pairUp_of_left {as : List α} {bs : List β} {k : Nat} {a : α} (h : as[k]? = some a) :
    (pairUp as bs)[k]? = some (some a, bs[k]?) := by
  fun_induction pairUp as bs generalizing k with
  | case1 => simp at h
  | case2 a' as ih =>
    cases k with
    | zero => simpa using h
    | succ k => simpa using ih (by simpa using h)
  | case3 b bs ih => simp at h
  | case4 a' as b bs ih =>
    cases k with
    | zero => simpa using h
    | succ k => simpa using ih (by simpa using h)

/-- Nothing stands on the right where the first list is the longer one. -/
theorem countP_pairUp_right (as : List α) (bs : List β) :
    (pairUp as bs).countP (fun row => row.2.isNone) = as.length - bs.length := by
  fun_induction pairUp as bs with
  | case1 => rfl
  | case2 a as ih => simp [ih]
  | case3 b bs ih => simp [ih]
  | case4 a as b bs ih => simp [ih]

/-- Nothing stands on the left where the second list is the longer one. -/
theorem countP_pairUp_left (as : List α) (bs : List β) :
    (pairUp as bs).countP (fun row => row.1.isNone) = bs.length - as.length := by
  fun_induction pairUp as bs with
  | case1 => rfl
  | case2 a as ih => simp [ih]
  | case3 b bs ih => simp [ih]
  | case4 a as b bs ih => simp [ih]

end PairUp

/-! ### The class of an index -/

/-- The part of a split that an index belongs to holds the element at half the index. -/
theorem getElem?_split_half {α : Type} (values : List α) (i : Nat) :
    (if i % 2 = 0 then (split values).1 else (split values).2)[i / 2]? = values[i]? := by
  rcases Nat.mod_two_eq_zero_or_one i with h | h
  · rw [if_pos h, (getElem?_split values (i / 2)).1]
    congr 1
    omega
  · rw [if_neg (by omega), (getElem?_split values (i / 2)).2]
    congr 1
    omega

namespace Alternation

theorem getElem?_toList_mod_two (a : Alternation) (i : Nat) : a.toList[i % 2]? = some (a.classOf i) := by
  unfold classOf
  rcases Nat.mod_two_eq_zero_or_one i with h | h <;> rw [h] <;> rfl

variable (evenLabel oddLabel : String) (counts : List Nat) (latencies : List (Option Float)) (i : Nat)

theorem label_classOf_ofData :
    ((ofData evenLabel oddLabel counts latencies).classOf i).label = if i % 2 = 0 then evenLabel else oddLabel := by
  unfold classOf
  split <;> rfl

theorem counts_classOf_ofData :
    ((ofData evenLabel oddLabel counts latencies).classOf i).counts =
      if i % 2 = 0 then (split counts).1 else (split counts).2 := by
  unfold classOf
  split <;> rfl

theorem latencies_classOf_ofData :
    ((ofData evenLabel oddLabel counts latencies).classOf i).latencies =
      if i % 2 = 0 then (split latencies).1 else (split latencies).2 := by
  unfold classOf
  split <;> rfl

/-- The class of an index has its count and its latency at half the index. -/
theorem getElem?_classOf_ofData :
    ((ofData evenLabel oddLabel counts latencies).classOf i).counts[i / 2]? = counts[i]? ∧
      ((ofData evenLabel oddLabel counts latencies).classOf i).latencies[i / 2]? = latencies[i]? := by
  rw [counts_classOf_ofData, latencies_classOf_ofData]
  exact ⟨getElem?_split_half counts i, getElem?_split_half latencies i⟩

/-- The counts of a class are as many as its latencies, or one more in the class of the last interval. -/
theorem length_classOf_ofData {counts : List Nat} {latencies : List (Option Float)}
    (h : counts.length = latencies.length + 1) :
    ((ofData evenLabel oddLabel counts latencies).classOf i).counts.length =
      ((ofData evenLabel oddLabel counts latencies).classOf i).latencies.length +
        if i % 2 = latencies.length % 2 then 1 else 0 := by
  have hcounts := length_split counts
  have hlatencies := length_split latencies
  rw [counts_classOf_ofData, latencies_classOf_ofData]
  split <;> split <;> omega

theorem mem_toList_iff {a : Alternation} {c : CommandClass} : c ∈ a.toList ↔ ∃ i, c = a.classOf i := by
  constructor
  · intro h
    obtain rfl | rfl : c = a.even ∨ c = a.odd := by simpa [toList] using h
    · exact ⟨0, rfl⟩
    · exact ⟨1, rfl⟩
  · rintro ⟨i, rfl⟩
    exact List.mem_of_getElem? (a.getElem?_toList_mod_two i)

end Alternation

/-! ### Nothing is lost -/

/-- Two lists hold the elements of a third at its even and at its odd indices, all of them and nothing else. -/
structure Separates {α : Type} (values even odd : List α) : Prop where
  even_eq : ∀ k, even[k]? = values[2 * k]?
  odd_eq : ∀ k, odd[k]? = values[2 * k + 1]?
  length_even : even.length = (values.length + 1) / 2
  length_odd : odd.length = values.length / 2
  interleave_eq : interleave even odd = values

theorem separates_split {α : Type} (values : List α) : Separates values (split values).1 (split values).2 where
  even_eq k := (getElem?_split values k).1
  odd_eq k := (getElem?_split values k).2
  length_even := (length_split values).1
  length_odd := (length_split values).2
  interleave_eq := interleave_split values

/-- Exactly two lists of which the first is as long as the second or one longer come back from their interleaving. -/
theorem split_interleave_iff {α : Type} {even odd : List α} :
    split (interleave even odd) = (even, odd) ↔ odd.length ≤ even.length ∧ even.length ≤ odd.length + 1 := by
  constructor
  · intro h
    obtain ⟨heven, hodd⟩ := length_split (interleave even odd)
    simp only [h] at heven hodd
    omega
  · rintro ⟨hle, hle'⟩
    exact split_interleave hle hle'

/-- In both classes the batches are counted by the counts; behind `n` commands the class of parity `n` has one count
without a latency, and the other class has none. -/
structure Aligned (a : Alternation) (n : Nat) : Prop where
  length_eq : ∀ c ∈ a.toList, c.length = c.counts.length
  longer : (a.classOf n).counts.length = (a.classOf n).latencies.length + 1
  equal : (a.classOf (n + 1)).counts.length = (a.classOf (n + 1)).latencies.length

theorem aligned_ofData (evenLabel oddLabel : String) {counts : List Nat} {latencies : List (Option Float)}
    (h : counts.length = latencies.length + 1) :
    Aligned (.ofData evenLabel oddLabel counts latencies) latencies.length := by
  have hclass (i : Nat) := Alternation.length_classOf_ofData evenLabel oddLabel i h
  refine ⟨fun c hc => ?_, ?_, ?_⟩
  · obtain ⟨i, rfl⟩ := Alternation.mem_toList_iff.mp hc
    exact Nat.max_eq_left (hclass i ▸ Nat.le_add_right _ _)
  · rw [hclass, if_pos rfl]
  · rw [hclass, if_neg (by omega), Nat.add_zero]

/-- **A split by parity loses, doubles and moves nothing.**  Its parts hold the elements at even and at odd indices and
interleave to the whole; two lists come back from their interleaving exactly if their lengths can be those of the parts.
The counts of `n` commands, one more than the latencies, stay aligned with them though both are split on their own. -/
theorem split_conserves :
    (∀ (α : Type) (values : List α), Separates values (split values).1 (split values).2) ∧
      (∀ (α : Type) (even odd : List α),
        split (interleave even odd) = (even, odd) ↔ odd.length ≤ even.length ∧ even.length ≤ odd.length + 1) ∧
      ∀ evenLabel oddLabel (counts : List Nat) (latencies : List (Option Float)),
        counts.length = latencies.length + 1 →
          Aligned (.ofData evenLabel oddLabel counts latencies) latencies.length :=
  ⟨fun _ => separates_split, fun _ _ _ => split_interleave_iff,
    fun evenLabel oddLabel _ _ => aligned_ofData evenLabel oddLabel⟩

/-- Behind three commands the second class has the count without a latency. -/
theorem split_conserves_of_three_commands :
    let counts : List Nat := [1, 2, 0, 1]
    let latencies : List (Option Float) := [none, some 1000.0, some 2000.0]
    let a := Alternation.ofData "PUT" "GET" counts latencies
    counts.length = latencies.length + 1 ∧ Aligned a 3 ∧ a.odd.counts = [2, 1] ∧ a.odd.latencies = [some 1000.0] := by
  intro counts latencies a
  have hlength : counts.length = latencies.length + 1 := rfl
  exact ⟨hlength, split_conserves.2.2 "PUT" "GET" counts latencies hlength, rfl, rfl⟩

end LogCorrelation.Batch
