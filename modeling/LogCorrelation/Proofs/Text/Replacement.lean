import Mathlib.Data.List.Basic

/-!
# Proofs.Text.Replacement — a character replaced throughout a text

`String.replace` walks over a text by search steps: a match, or a stretch without one.  On the characters of the text it
comes to one pass, whatever stretches the search takes.

* `not_mem_of_unmatched`: a stretch without a match does not hold the character.
* `toList_replace`: the characters of a text after a replacement.
-/

namespace LogCorrelation.Text

open String.Slice.Pattern (SearchStep ToForwardSearcher)
open String.Slice.Pattern.Model (IsValidSearchFrom LawfulToForwardSearcherModel MatchesAt)

/-- Replaces a character by a text wherever it stands. -/
def replaceEach (c : Char) (replacement : String) (cs : List Char) : List Char :=
  cs.flatMap fun d => if d = c then replacement.toList else [d]

section ReplaceEach

variable {c : Char} {replacement : String}

theorem replaceEach_append (cs ds : List Char) :
    replaceEach c replacement (cs ++ ds) = replaceEach c replacement cs ++ replaceEach c replacement ds :=
  List.flatMap_append

theorem replaceEach_cons_self (cs : List Char) :
    replaceEach c replacement (c :: cs) = replacement.toList ++ replaceEach c replacement cs := by
  rw [replaceEach, List.flatMap_cons, if_pos rfl, replaceEach]

theorem replaceEach_cons_of_ne {d : Char} (h : d ≠ c) (cs : List Char) :
    replaceEach c replacement (d :: cs) = d :: replaceEach c replacement cs := by
  rw [replaceEach, List.flatMap_cons, if_neg h, replaceEach, List.singleton_append]

theorem replaceEach_of_not_mem {cs : List Char} (h : c ∉ cs) : replaceEach c replacement cs = cs := by
  induction cs with
  | nil => rfl
  | cons d ds ih =>
    obtain ⟨hd, hds⟩ := not_or.mp (mt List.mem_cons.mpr h)
    rw [replaceEach_cons_of_ne (Ne.symm hd), ih hds]

end ReplaceEach

/-! ### The steps of a search -/

variable {s : String.Slice} {c : Char}

/-- The text written so far with what a search step adds to it. -/
def replaceStep (s : String.Slice) (replacement : String) : String → SearchStep s → String
  | sofar, .matched .. => sofar ++ replacement.toSlice
  | sofar, .rejected start stop => sofar ++ s.slice! start stop

/-- A stretch without a match does not hold the character. -/
theorem not_mem_of_unmatched {start stop : s.Pos} {before between after : String}
    (hstart : start.Splits before (between ++ after)) (hstop : stop.Splits (before ++ between) after)
    (hnone : ∀ pos, start ≤ pos → pos < stop → ¬MatchesAt c pos) : c ∉ between.toList := by
  intro hmem
  -- the character would match where it stands
  obtain ⟨front, back, hcut⟩ := List.append_of_mem hmem
  obtain rfl : between = String.ofList front ++ (String.singleton c ++ String.ofList back) := by
    rw [← String.toList_inj, hcut]
    simp
  rw [String.append_assoc, String.append_assoc] at hstart
  have hpos := hstart.splits_rotateRight
  have hne : String.singleton c ++ String.ofList back ≠ "" := by
    rw [ne_eq, ← String.toList_inj]
    simp
  refine hnone hstart.rotateRight ?_ ?_ ?_
  · exact (hstart.le_iff_exists_eq_append hpos).mpr ⟨_, rfl, rfl⟩
  · exact (hpos.lt_iff_exists_eq_append hstop).mpr ⟨_, hne, String.append_assoc.symm, String.append_assoc.symm⟩
  · exact String.Slice.Pattern.Model.Char.matchesAt_iff_splits.mpr ⟨_, _, hpos⟩

/-- What is written from a place on is the text from there on, with the character replaced. -/
theorem toList_foldl_replaceStep {pos : s.Pos} {steps : List (SearchStep s)} (h : IsValidSearchFrom c pos steps)
    {before after : String} (hpos : pos.Splits before after) (sofar replacement : String) :
    (steps.foldl (replaceStep s replacement) sofar).toList =
      sofar.toList ++ replaceEach c replacement after.toList := by
  induction h generalizing before after sofar with
  | endPos =>
    obtain ⟨-, rfl⟩ := String.Slice.splits_endPos_iff.mp hpos
    rw [List.foldl_nil, String.toList_empty, replaceEach, List.flatMap_nil, List.append_nil]
  | matched hmatch _ ih =>
    obtain ⟨hne, rfl, rfl⟩ := String.Slice.Pattern.Model.Char.isLongestMatchAt_iff.mp hmatch
    obtain ⟨rest, rfl⟩ := hpos.exists_eq_singleton_append hne
    rw [List.foldl_cons, ih hpos.next, replaceStep, String.appendSlice_eq, String.copy_toSlice, String.toList_append,
      String.toList_append, String.toList_singleton, List.singleton_append, replaceEach_cons_self, List.append_assoc]
  | @mismatched _ start stop hlt hnone _ ih =>
    have hstop := stop.splits
    obtain ⟨between, hbefore, rfl⟩ := (hpos.le_iff_exists_eq_append hstop).mp (Std.le_of_lt hlt)
    rw [hbefore] at hstop
    have hcopy : (s.slice! start stop).copy = between := by
      obtain ⟨hle, hcopy⟩ := String.Slice.copy_slice_eq_iff_splits.mpr ⟨_, _, hpos, hstop⟩
      rw [← String.Slice.slice_eq_slice! (h := hle), hcopy]
    have hkept : replaceEach c replacement between.toList = between.toList :=
      replaceEach_of_not_mem (not_mem_of_unmatched hpos hstop hnone)
    rw [List.foldl_cons, ih hstop, replaceStep, String.appendSlice_eq, hcopy, String.toList_append,
      String.toList_append, replaceEach_append, hkept, List.append_assoc]

/-- **Replacing a character throughout a text** replaces each of its occurrences, in one pass. -/
theorem toList_replace (s : String) (c : Char) (replacement : String) :
    (s.replace c replacement).toList = replaceEach c replacement s.toList := by
  have hsteps : s.replace c replacement =
      (ToForwardSearcher.toSearcher c s.toSlice).toList.foldl (replaceStep s.toSlice replacement) "" := by
    rw [Std.Iter.foldl_toList]
    unfold String.replace String.Slice.replace
    congr
  have hvalid : IsValidSearchFrom c s.toSlice.startPos (ToForwardSearcher.toSearcher c s.toSlice).toList :=
    LawfulToForwardSearcherModel.isValidSearchFrom_toList s.toSlice
  rw [hsteps, toList_foldl_replaceStep hvalid (String.Slice.splits_startPos _), String.toList_empty, List.nil_append,
    String.copy_toSlice]

end LogCorrelation.Text
