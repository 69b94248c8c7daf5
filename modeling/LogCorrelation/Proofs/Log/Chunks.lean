import LogCorrelation.Log.Lines

/-!
# Proofs.Log.Chunks — the division of a log into chunks does not show

However the bytes of a log are divided when they are handed out, and wherever an interruption falls, reading line by
line gives the lines of all the bytes together (`reads_eq_lines`).  What is carried from chunk to chunk is the part of
a line in front of the border; it never holds a line feed, which is the invariant of the induction.
-/

namespace LogCorrelation.Log

theorem Cut.append_cons (c : Cut) (b : UInt8) (bs : List UInt8) : c.append (b :: bs) = (c.push b).append bs := rfl

theorem Cut.push_lineFeed (c : Cut) : c.push lineFeed = ⟨c.held.reverse :: c.lines, []⟩ := if_pos rfl

theorem Cut.push_of_ne (c : Cut) {b : UInt8} (h : b ≠ lineFeed) : c.push b = { c with held := b :: c.held } := if_neg h

/-- No line feed is in the line that is not complete. -/
theorem Cut.lineFeed_not_mem_held {c : Cut} (h : lineFeed ∉ c.held) (bs : List UInt8) :
    lineFeed ∉ (c.append bs).held := by
  induction bs generalizing c with
  | nil => exact h
  | cons b bs ih =>
    rw [append_cons]
    refine ih ?_
    unfold push
    split
    · simp
    · next hb => simpa [Ne.symm hb] using h

/-- The lines of a cut and those of the bytes still to come, the line that is not complete in front of them. -/
theorem Cut.lines_append {c : Cut} (h : lineFeed ∉ c.held) (bs rest : List UInt8) :
    (c.append bs).lines.reverse ++ Log.lines ((c.append bs).held.reverse ++ rest) =
      c.lines.reverse ++ Log.lines (c.held.reverse ++ (bs ++ rest)) := by
  induction bs generalizing c with
  | nil => rfl
  | cons b bs ih =>
    rw [append_cons]
    by_cases hb : b = lineFeed
    · subst hb
      have hheld : lineFeed ∉ c.held.reverse := by simpa using h
      rw [push_lineFeed, ih (by simp), List.cons_append, lines_append_lineFeed _ hheld]
      simp
    · rw [push_of_ne c hb, ih (by simpa [Ne.symm hb] using h)]
      simp

theorem readsFrom_eq_lines {source : Source} (hdata : ∀ d ∈ source, d.isData = true) {held : List UInt8}
    (h : lineFeed ∉ held) : readsFrom held source = (lines (held.reverse ++ source.data)).map .line := by
  induction source generalizing held with
  | nil =>
    cases held with
    | nil => rfl
    | cons b held =>
      have hline : lines (b :: held).reverse = [(b :: held).reverse] :=
        lines_of_not_mem (by rwa [List.mem_reverse]) (by simp)
      show [LineRead.line (b :: held).reverse] = _
      rw [show Source.data [] = [] from rfl, List.append_nil, hline]
      rfl
  | cons d source ih =>
    obtain ⟨hd, hsource⟩ := List.forall_mem_cons.mp hdata
    cases d with
    | bytes bs =>
      have hlines := Cut.lines_append (c := { held }) h bs (Source.data source)
      rw [readsFrom, ih hsource (Cut.lineFeed_not_mem_held h bs), ← List.map_append, hlines]
      rfl
    | interrupted => exact ih hsource h
    | endOfFile => exact absurd hd (by decide)
    | fault text => exact absurd hd (by simp [Delivery.isData])

/-- **Chunks do not show**: a source that hands out bytes without a fault is read as the lines of all its bytes. -/
theorem reads_eq_lines {source : Source} (hdata : ∀ d ∈ source, d.isData = true) :
    source.reads = (lines source.data).map .line :=
  readsFrom_eq_lines hdata (by simp)

end LogCorrelation.Log
