/-!
# Batch.Parity — elements at even and at odd indices

`split` separates a list by the parity of the index, and `interleave` puts two such lists together again.
-/

namespace LogCorrelation.Batch

variable {α : Type}

/-- The elements at even indices and those at odd indices. -/
def split : List α → List α × List α
  | [] => ([], [])
  | a :: rest =>
    let (even, odd) := split rest
    (a :: odd, even)

/-- Elements of two lists in turn, beginning with the first list; what is left of one follows. -/
def interleave : List α → List α → List α
  | [], odd => odd
  | a :: even, odd => a :: interleave odd even
termination_by even odd => even.length + odd.length

@[simp] theorem split_nil : split ([] : List α) = ([], []) := rfl

@[simp] theorem split_cons (a : α) (rest : List α) :
    split (a :: rest) = (a :: (split rest).2, (split rest).1) := rfl

/-- Nothing is lost, doubled or moved by a split. -/
theorem interleave_split (values : List α) : interleave (split values).1 (split values).2 = values := by
  induction values with
  | nil => simp [interleave]
  | cons a rest ih => simp [interleave, ih]

theorem length_split (values : List α) :
    (split values).1.length = (values.length + 1) / 2 ∧ (split values).2.length = values.length / 2 := by
  induction values with
  | nil => simp
  | cons a rest ih => simp [ih]; omega

/-- The index in a part is half the index in the whole. -/
theorem getElem?_split (values : List α) (k : Nat) :
    (split values).1[k]? = values[2 * k]? ∧ (split values).2[k]? = values[2 * k + 1]? := by
  induction values generalizing k with
  | nil => simp
  | cons a rest ih =>
    cases k with
    | zero => simpa using (ih 0).1
    | succ k =>
      refine ⟨?_, ?_⟩
      · rw [split_cons, List.getElem?_cons_succ, (ih k).2]
        rfl
      · rw [split_cons, (ih (k + 1)).1]
        rfl

/-- Two lists of which the first is as long as the second or one longer come back from their interleaving. -/
theorem split_interleave : ∀ {even odd : List α}, odd.length ≤ even.length → even.length ≤ odd.length + 1 →
    split (interleave even odd) = (even, odd)
  | [], [], _, _ => by simp [interleave]
  | [], _ :: _, h, _ => by simp at h
  | a :: even, odd, h, h' => by
    rw [interleave, split_cons, split_interleave (by simp at h'; omega) (by simp at h; omega)]
termination_by even odd => even.length + odd.length

end LogCorrelation.Batch
