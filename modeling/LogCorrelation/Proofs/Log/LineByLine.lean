import LogCorrelation.Proofs.Log.Chunks
import Mathlib.Data.List.TakeWhile

/-!
# Proofs.Log.LineByLine — one line after the other

`Source.reads` tells all answers of a source at once.  Here a source is read one line at a time: `readLine` takes what
the source hands out up to the end of a line and leaves the rest, and past its last delivery a source has ended as often
as it is asked.  Both are the same: behind a number of lines, the answers still to come are those of the rest
(`reads_rest`), and each answer is the next of them (`read_eq`).
-/

namespace LogCorrelation.Log

/-! ### Reading one line -/

/-- The answer where a source says that it has ended: a line that has begun ends there too. -/
def heldAtEnd (held : List UInt8) : LineRead := if held.isEmpty then .ended else .line held

/-- Reads on to the end of a line that begins with the bytes in `held`: the answer, and what is left of the source. -/
def readLineFrom (held : List UInt8) : Source → LineRead × Source
  | [] => (heldAtEnd held, [])
  | .bytes bs :: rest =>
    match bs.dropWhile (· != lineFeed) with
    | [] => readLineFrom (held ++ bs) rest
    | _ :: after => (.line (held ++ bs.takeWhile (· != lineFeed)), .bytes after :: rest)
  | .endOfFile :: rest => (heldAtEnd held, rest)
  | .fault text :: rest => (.fault text, rest)
  | .interrupted :: rest => readLineFrom held rest

namespace Source

/-- Reads a line: the answer, and what is left of the source. -/
def readLine (source : Source) : LineRead × Source := readLineFrom [] source

/-- What is left of a source behind a number of lines. -/
def rest (source : Source) : Nat → Source
  | 0 => source
  | n + 1 => (source.rest n).readLine.2

/-- The answer of a source behind a number of lines. -/
def read (source : Source) (n : Nat) : LineRead := (source.rest n).readLine.1

end Source

/-! ### Cutting at the first line feed -/

theorem Cut.append_of_not_mem (c : Cut) {bs : List UInt8} (h : lineFeed ∉ bs) :
    c.append bs = { c with held := bs.reverse ++ c.held } := by
  induction bs generalizing c with
  | nil => rfl
  | cons b bs ih =>
    obtain ⟨hb, hbs⟩ := not_or.mp (mt List.mem_cons.mpr h)
    rw [append_cons, push_of_ne c (Ne.symm hb), ih _ hbs]
    simp

/-- The lines that are complete already stay behind those that are not. -/
theorem Cut.append_lines (ls : List (List UInt8)) (held bs : List UInt8) :
    Cut.append ⟨ls, held⟩ bs = ⟨(Cut.append { held } bs).lines ++ ls, (Cut.append { held } bs).held⟩ := by
  induction bs generalizing ls held with
  | nil => rfl
  | cons b bs ih =>
    rw [append_cons, append_cons]
    by_cases hb : b = lineFeed
    · subst hb
      rw [push_lineFeed, push_lineFeed, ih, ih [_]]
      simp
    · rw [push_of_ne _ hb, push_of_ne _ hb, ih]

/-- Bytes without a line feed, or with one behind the first of them. -/
theorem cut_at_lineFeed (bs : List UInt8) :
    (bs.dropWhile (· != lineFeed) = [] ∧ lineFeed ∉ bs) ∨
      ∃ front after, bs = front ++ lineFeed :: after ∧ lineFeed ∉ front ∧
        bs.takeWhile (· != lineFeed) = front ∧ bs.dropWhile (· != lineFeed) = lineFeed :: after := by
  have hfront : lineFeed ∉ bs.takeWhile (· != lineFeed) := by
    intro h
    simpa using List.mem_takeWhile_imp h
  have hwhole := (List.takeWhile_append_dropWhile (p := (· != lineFeed)) (l := bs)).symm
  cases hdrop : bs.dropWhile (· != lineFeed) with
  | nil =>
    rw [hdrop, List.append_nil] at hwhole
    exact .inl ⟨rfl, hwhole ▸ hfront⟩
  | cons b after =>
    have hb : b = lineFeed := by
      have hnot := List.head?_dropWhile_not (· != lineFeed) bs
      rw [hdrop] at hnot
      simpa using hnot
    subst hb
    rw [hdrop] at hwhole
    exact .inr ⟨_, after, hwhole, hfront, rfl, rfl⟩

section ReadsFrom

variable (held : List UInt8) {bs : List UInt8} (source : Source)

theorem readsFrom_bytes_of_not_mem (h : lineFeed ∉ bs) :
    readsFrom held (.bytes bs :: source) = readsFrom (bs.reverse ++ held) source := by
  rw [readsFrom, Cut.append_of_not_mem _ h]
  rfl

theorem readsFrom_bytes_lineFeed {front : List UInt8} (after : List UInt8) (h : lineFeed ∉ front) :
    readsFrom held (.bytes (front ++ lineFeed :: after) :: source) =
      .line (held.reverse ++ front) :: Source.reads (.bytes after :: source) := by
  have hcut : Cut.append { held } (front ++ lineFeed :: after) =
      ⟨(Cut.append {} after).lines ++ [held.reverse ++ front], (Cut.append {} after).held⟩ := by
    rw [Cut.append_append, Cut.append_of_not_mem _ h, Cut.append_cons, Cut.push_lineFeed, Cut.append_lines,
      List.reverse_append, List.reverse_reverse]
  rw [readsFrom, hcut, Source.reads, readsFrom]
  simp

end ReadsFrom

/-! ### Both readings agree -/

theorem readLineFrom_eq (held : List UInt8) (source : Source) :
    (readLineFrom held source).1 = (readsFrom held.reverse source).headD .ended ∧
      (readLineFrom held source).2.reads = (readsFrom held.reverse source).tail := by
  induction source generalizing held with
  | nil => cases held <;> simp [readLineFrom, heldAtEnd, readsFrom, Source.reads]
  | cons d source ih =>
    cases d with
    | bytes bs =>
      obtain ⟨hdrop, hnot⟩ | ⟨front, after, rfl, hnot, htake, hdrop⟩ := cut_at_lineFeed bs
      · rw [readLineFrom, hdrop, readsFrom_bytes_of_not_mem _ _ hnot, ← List.reverse_append]
        exact ih (held ++ bs)
      · rw [readLineFrom, hdrop, htake, readsFrom_bytes_lineFeed _ _ _ hnot, List.reverse_reverse]
        exact ⟨rfl, rfl⟩
    | endOfFile => cases held <;> exact ⟨by simp [readLineFrom, heldAtEnd, readsFrom], rfl⟩
    | fault text => exact ⟨rfl, rfl⟩
    | interrupted => exact ih held

namespace Source

/-- **What is left behind a number of lines** gives the answers that are still to come. -/
theorem reads_rest (source : Source) (n : Nat) : (source.rest n).reads = source.reads.drop n := by
  induction n with
  | zero => rfl
  | succ n ih =>
    have hrest : (source.rest (n + 1)).reads = (source.rest n).reads.tail := (readLineFrom_eq [] _).2
    rw [hrest, ih, List.tail_drop]

/-- The answer behind a number of lines is the next one, or that the source has ended if there is none. -/
theorem read_eq (source : Source) (n : Nat) : source.read n = source.reads[n]?.getD .ended := by
  have hread : source.read n = (source.rest n).reads.headD .ended := (readLineFrom_eq [] _).1
  rw [hread, reads_rest, List.headD_eq_head?_getD, List.head?_drop]

end Source

end LogCorrelation.Log
