import LogCorrelation.Batch.Parity

/-!
# Batch.Alternation — two alternating classes of batches

Batches of commands alternate between two kinds, told apart by the parity of their index.  `Alternation.ofData` gives
each kind its counts and its latencies in order.
-/

namespace LogCorrelation.Batch

/-- The batches of one kind. -/
structure CommandClass where
  label : String
  counts : List Nat
  latencies : List (Option Float)

/-- The number of batches: the longer of the two sequences counts. -/
def CommandClass.length (c : CommandClass) : Nat := max c.counts.length c.latencies.length

/-- Two lists element by element; where one has ended there is nothing. -/
def pairUp {α β : Type} : List α → List β → List (Option α × Option β)
  | [], [] => []
  | a :: as, [] => (some a, none) :: pairUp as []
  | [], b :: bs => (none, some b) :: pairUp [] bs
  | a :: as, b :: bs => (some a, some b) :: pairUp as bs

theorem length_pairUp {α β : Type} (as : List α) (bs : List β) :
    (pairUp as bs).length = max as.length bs.length := by
  fun_induction pairUp as bs with
  | case1 => rfl
  | case2 a as ih => rw [List.length_cons, ih, List.length_cons, List.length_nil, Nat.max_zero, Nat.max_zero]
  | case3 b bs ih => rw [List.length_cons, ih, List.length_cons, List.length_nil, Nat.zero_max, Nat.zero_max]
  | case4 a as b bs ih => rw [List.length_cons, ih, List.length_cons, List.length_cons, Nat.succ_max_succ]

/-- The counts and latencies batch by batch. -/
def CommandClass.rows (c : CommandClass) : List (Option Nat × Option (Option Float)) :=
  pairUp c.counts c.latencies

/-- The batches of both kinds. -/
structure Alternation where
  even : CommandClass
  odd : CommandClass

namespace Alternation

/-- Separates counts and latencies by the parity of their index. -/
def ofData (evenLabel oddLabel : String) (counts : List Nat) (latencies : List (Option Float)) : Alternation where
  even := ⟨evenLabel, (split counts).1, (split latencies).1⟩
  odd := ⟨oddLabel, (split counts).2, (split latencies).2⟩

/-- Both classes, the even one first. -/
def toList (a : Alternation) : List CommandClass := [a.even, a.odd]

/-- The class of the batch at an index of the whole. -/
def classOf (a : Alternation) (index : Nat) : CommandClass := if index % 2 = 0 then a.even else a.odd

end Alternation

end LogCorrelation.Batch
