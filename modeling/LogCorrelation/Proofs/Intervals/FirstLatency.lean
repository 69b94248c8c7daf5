import LogCorrelation.Intervals.FirstLatency
import LogCorrelation.Proofs.Except
import LogCorrelation.Proofs.Intervals.FirstFault

/-!
# Proofs.Intervals.FirstLatency — when the first latency can be filled in

Filling in needs no latencies at all, or three of which only the first may be unknown.  In the latencies of a run every
one after the first is known, so there the number of commands decides alone.

* `fillFirst_eq_ok_iff`: the latencies that can be filled in, and the result.
* `fillFirst_eq_error_iff`: which fault is reported where they cannot, if several stand in the way.
* `exists_fillFirst_gaps_iff`: when those of a run can.
* `fillFirst_decides`: all of this by the index of a latency, for any latencies and for those of a run.
-/

namespace LogCorrelation.Intervals

/-! ### Any latencies -/

theorem known_eq_ok_iff {index : Nat} {ls : List (Option Float)} {xs : List Float} :
    known index ls = .ok xs ↔ ls = xs.map some := by
  induction ls generalizing index xs with
  | nil => cases xs <;> simp [known]
  | cons l ls ih =>
    cases l with
    | none => cases xs <;> simp [known]
    | some x =>
      rw [known, Except.map_eq_ok_iff, eq_comm (a := some x :: ls), List.map_eq_cons_iff]
      constructor
      · rintro ⟨ys, hys, rfl⟩
        exact ⟨x, ys, rfl, rfl, (ih.mp hys).symm⟩
      · rintro ⟨y, ys, rfl, hy, hys⟩
        exact ⟨ys, ih.mpr hys.symm, by rw [Option.some.inj hy]⟩

/-- **The first latency can be filled in** if there are no latencies, or at least three that are known from the second
on; the result has the third in place of the first. -/
theorem fillFirst_eq_ok_iff {ls : List (Option Float)} {xs : List Float} :
    fillFirst ls = .ok xs ↔
      ls = [] ∧ xs = [] ∨
        ∃ first second third rest,
          ls = first :: some second :: some third :: rest.map some ∧ xs = third :: second :: third :: rest := by
  constructor
  · intro h
    match ls, h with
    | [], h => exact .inl ⟨rfl, (Except.ok.inj h).symm⟩
    | [_], h => exact absurd h (by simp [fillFirst])
    | [_, _], h => exact absurd h (by simp [fillFirst])
    | _ :: _ :: none :: _, h => exact absurd h (by simp [fillFirst])
    | first :: l :: some third :: ls, h =>
      obtain ⟨ys, hknown, rfl⟩ := Except.map_eq_ok_iff.mp h
      obtain ⟨second, ys, rfl, rfl, hys⟩ := List.map_eq_cons_iff.mp (known_eq_ok_iff.mp hknown).symm
      obtain ⟨third', rest, rfl, hthird, rfl⟩ := List.map_eq_cons_iff.mp hys
      obtain rfl : third' = third := Option.some.inj hthird
      exact .inr ⟨first, second, third', rest, rfl, rfl⟩
  · rintro (⟨rfl, rfl⟩ | ⟨first, second, third, rest, rfl, rfl⟩)
    · rfl
    · have hknown : known 1 (some second :: some third :: rest.map some) = .ok (second :: third :: rest) :=
        known_eq_ok_iff.mpr rfl
      rw [fillFirst, hknown]
      rfl

theorem length_of_fillFirst_eq_ok {ls : List (Option Float)} {xs : List Float} (h : fillFirst ls = .ok xs) :
    xs.length = ls.length := by
  rcases fillFirst_eq_ok_iff.mp h with ⟨rfl, rfl⟩ | ⟨first, second, third, rest, rfl, rfl⟩
  · rfl
  · simp

/-! ### Which fault is reported -/

/-- Latencies are taken over up to the first that is unknown. -/
theorem known_eq_error_iff {index : Nat} {ls : List (Option Float)} {fault : FirstLatencyFault} :
    known index ls = .error fault ↔
      ∃ k, ls[k]? = some none ∧ (∀ j < k, ls[j]? ≠ some none) ∧ fault = .missing (index + k) := by
  induction ls generalizing index with
  | nil => simp [known]
  | cons l ls ih =>
    cases l with
    | none =>
      constructor
      · intro h
        exact ⟨0, rfl, fun j hj => absurd hj (Nat.not_lt_zero j), (Except.error.inj h).symm⟩
      · rintro ⟨k, -, hbefore, rfl⟩
        cases k with
        | zero => rfl
        | succ k => exact absurd rfl (hbefore 0 (Nat.succ_pos k))
    | some x =>
      rw [known, Except.map_eq_error_iff, ih]
      constructor
      · rintro ⟨k, hk, hbefore, rfl⟩
        refine ⟨k + 1, hk, fun j hj => ?_, by rw [Nat.add_assoc, Nat.add_comm 1 k]⟩
        cases j with
        | zero => simp
        | succ j => exact hbefore j (Nat.lt_of_succ_lt_succ hj)
      · rintro ⟨k, hk, hbefore, rfl⟩
        cases k with
        | zero => simp at hk
        | succ k =>
          exact ⟨k, hk, fun j hj => hbefore (j + 1) (Nat.succ_lt_succ hj), by rw [Nat.add_assoc, Nat.add_comm 1 k]⟩

/-- The fault that keeps the first latency from being filled in.  The number of latencies comes first, the one at
index 2 next, and of the others the first that is unknown. -/
def Prevents (ls : List (Option Float)) : FirstLatencyFault → Prop
  | .tooFew n => n = ls.length ∧ (n = 1 ∨ n = 2)
  | .missing i =>
    3 ≤ ls.length ∧ ls[i]? = some none ∧
      (i = 2 ∨ ls[2]? ≠ some none ∧ 1 ≤ i ∧ ∀ j, 1 ≤ j → j < i → ls[j]? ≠ some none)

theorem prevents_of_known {first l : Option Float} {third : Float} {rest : List (Option Float)}
    {fault : FirstLatencyFault} :
    Prevents (first :: l :: some third :: rest) fault ↔
      ∃ k, (l :: some third :: rest)[k]? = some none ∧ (∀ j < k, (l :: some third :: rest)[j]? ≠ some none) ∧
        fault = .missing (1 + k) := by
  constructor
  · intro h
    cases fault with
    | tooFew n =>
      obtain ⟨rfl, hfew⟩ := h
      simp at hfew
    | missing i =>
      obtain ⟨-, hi, rfl | ⟨-, hpos, hbefore⟩⟩ := h
      · simp at hi
      · obtain ⟨k, rfl⟩ := Nat.exists_eq_add_of_le hpos
        rw [Nat.add_comm] at hi
        refine ⟨k, hi, fun j hj => ?_, rfl⟩
        exact hbefore (j + 1) (Nat.le_add_left 1 j) (by omega)
  · rintro ⟨k, hk, hbefore, rfl⟩
    rw [Nat.add_comm]
    refine ⟨by simp, hk, .inr ⟨by simp, Nat.le_add_left 1 k, fun j hpos hj => ?_⟩⟩
    obtain ⟨j, rfl⟩ := Nat.exists_eq_add_of_le' hpos
    exact hbefore j (Nat.lt_of_succ_lt_succ hj)

/-- **The fault that is reported** is the one that stands in the way. -/
theorem fillFirst_eq_error_iff {ls : List (Option Float)} {fault : FirstLatencyFault} :
    fillFirst ls = .error fault ↔ Prevents ls fault := by
  match ls with
  | [] | [_] | [_, _] =>
    cases fault with
    | tooFew n =>
      simp only [fillFirst, Prevents, reduceCtorEq, Except.error.injEq, FirstLatencyFault.tooFew.injEq, List.length_nil,
        List.length_cons, false_iff]
      omega
    | missing i => simp [fillFirst, Prevents]
  | _ :: _ :: none :: _ =>
    cases fault with
    | tooFew n =>
      simp only [fillFirst, Prevents, reduceCtorEq, Except.error.injEq, List.length_cons, false_iff]
      omega
    | missing i =>
      simp only [fillFirst, Prevents, Except.error.injEq, FirstLatencyFault.missing.injEq]
      constructor
      · rintro rfl
        exact ⟨by simp, rfl, .inl rfl⟩
      · rintro ⟨-, -, rfl | ⟨hknown, -⟩⟩
        · rfl
        · exact absurd rfl hknown
  | first :: l :: some third :: rest =>
    rw [fillFirst, Except.map_eq_error_iff, known_eq_error_iff, prevents_of_known]

/-! ### By the index of a latency -/

/-- There are no latencies, or at least three, which are all known from the second on. -/
def Fillable (ls : List (Option Float)) : Prop := ls = [] ∨ 3 ≤ ls.length ∧ ∀ i : Nat, 1 ≤ i → ls[i]? ≠ some none

/-- Latencies with the first filled in: the one at index 2 stands in its place, every other stays where it is, and
nothing changes if this is done again. -/
structure FilledFrom (ls : List (Option Float)) (xs : List Float) : Prop where
  length_eq : xs.length = ls.length
  first_eq : xs[0]?.map some = ls[2]?
  rest_eq : ∀ i, 1 ≤ i → xs[i]?.map some = ls[i]?
  again : fillFirst (xs.map some) = .ok xs

theorem exists_eq_map_some_iff {ls : List (Option Float)} :
    (∃ xs : List Float, ls = xs.map some) ↔ ∀ i : Nat, ls[i]? ≠ some none := by
  constructor
  · rintro ⟨xs, rfl⟩ i
    rw [List.getElem?_map]
    cases xs[i]? <;> simp
  · intro h
    induction ls with
    | nil => exact ⟨[], rfl⟩
    | cons l ls ih =>
      obtain ⟨xs, rfl⟩ := ih fun i => h (i + 1)
      cases l with
      | none => exact absurd rfl (h 0)
      | some x => exact ⟨x :: xs, rfl⟩

theorem exists_fillFirst_iff {ls : List (Option Float)} : (∃ xs, fillFirst ls = .ok xs) ↔ Fillable ls := by
  constructor
  · rintro ⟨xs, hxs⟩
    rcases fillFirst_eq_ok_iff.mp hxs with ⟨rfl, -⟩ | ⟨first, second, third, rest, rfl, -⟩
    · exact .inl rfl
    · refine .inr ⟨by simp, fun i hi => ?_⟩
      obtain ⟨i, rfl⟩ := Nat.exists_eq_add_of_le' hi
      exact exists_eq_map_some_iff.mp ⟨second :: third :: rest, rfl⟩ i
  · rintro (rfl | ⟨hlength, hknown⟩)
    · exact ⟨[], rfl⟩
    · obtain ⟨first, tail, rfl⟩ := List.exists_cons_of_length_pos (Nat.zero_lt_of_lt hlength)
      obtain ⟨xs, rfl⟩ := exists_eq_map_some_iff.mpr fun i => hknown (i + 1) (Nat.le_add_left 1 i)
      match xs, hlength with
      | second :: third :: rest, _ =>
        exact ⟨_, fillFirst_eq_ok_iff.mpr (.inr ⟨first, second, third, rest, rfl, rfl⟩)⟩

theorem filledFrom_of_fillFirst {ls : List (Option Float)} {xs : List Float} (h : fillFirst ls = .ok xs) :
    FilledFrom ls xs := by
  rcases fillFirst_eq_ok_iff.mp h with ⟨rfl, rfl⟩ | ⟨first, second, third, rest, rfl, rfl⟩
  · exact ⟨rfl, rfl, fun i _ => rfl, rfl⟩
  · refine ⟨by simp, rfl, fun i hi => ?_, ?_⟩
    · obtain ⟨i, rfl⟩ := Nat.exists_eq_add_of_le' hi
      exact (List.getElem?_map (l := second :: third :: rest)).symm
    · -- the value filled in is known, and index 2 has not changed
      exact fillFirst_eq_ok_iff.mpr (.inr ⟨some third, second, third, rest, rfl, rfl⟩)

/-! ### The latencies of a run -/

/-- Behind a command every latency is known. -/
theorem exists_gaps_eq_map (c : TimeOfDay) (cs : List TimeOfDay) :
    ∃ xs : List Float, gaps (some c) cs = xs.map some := by
  induction cs generalizing c with
  | nil => exact ⟨[], rfl⟩
  | cons d cs ih =>
    obtain ⟨xs, hxs⟩ := ih d
    exact ⟨c.elapsed d :: xs, by rw [gaps, hxs]; rfl⟩

/-- The first latency of a run can be filled in unless there are one or two commands. -/
theorem exists_fillFirst_gaps_iff {commands : List TimeOfDay} :
    (∃ xs, fillFirst (gaps none commands) = .ok xs) ↔ commands.length ≠ 1 ∧ commands.length ≠ 2 := by
  match commands with
  | [] => exact iff_of_true ⟨[], rfl⟩ ⟨by simp, by simp⟩
  | [_] => exact iff_of_false (by simp [gaps, fillFirst]) (by simp)
  | [_, _] => exact iff_of_false (by simp [gaps, fillFirst]) (by simp)
  | a :: b :: c :: cs =>
    obtain ⟨rest, hrest⟩ := exists_gaps_eq_map c cs
    refine iff_of_true ⟨b.elapsed c :: a.elapsed b :: b.elapsed c :: rest, fillFirst_eq_ok_iff.mpr (.inr ?_)⟩ (by simp)
    exact ⟨none, a.elapsed b, b.elapsed c, rest, by rw [← hrest]; rfl, rfl⟩

/-- Behind the first latency of a run none is unknown. -/
theorem getElem?_succ_gaps_ne (commands : List TimeOfDay) (i : Nat) : (gaps none commands)[i + 1]? ≠ some none := by
  cases commands with
  | nil => simp [gaps]
  | cons c cs => exact exists_eq_map_some_iff.mp (exists_gaps_eq_map c cs) i

theorem not_prevents_missing_gaps (commands : List TimeOfDay) (i : Nat) : ¬ Prevents (gaps none commands) (.missing i) := by
  rintro ⟨-, hi, rfl | ⟨-, hpos, -⟩⟩
  · exact getElem?_succ_gaps_ne commands 1 hi
  · obtain ⟨i, rfl⟩ := Nat.exists_eq_add_of_le' hpos
    exact getElem?_succ_gaps_ne commands i hi

/-- **Filling in the first latency, exactly.**  Of any latencies, it succeeds if and only if there are none, or at least
three that are known from the second on, and then replaces the first and changes no other.  Where it fails, the fault is
the number of latencies, or index 2, or else the first unknown index behind the first.  The latencies of a run are never
refused for an unknown one. -/
theorem fillFirst_decides (p : Intervals) :
    ((∃ xs, fillFirst p.latencies = .ok xs) ↔ Fillable p.latencies) ∧
      (∀ xs, fillFirst p.latencies = .ok xs → FilledFrom p.latencies xs) ∧
      (∀ fault, fillFirst p.latencies = .error fault ↔ Prevents p.latencies fault) ∧
      (∀ n, (FirstLatencyFault.tooFew n).message =
        s!"cannot correct first latency: need at least 3 command timestamps, got {n}") ∧
      ∀ (ε : Type) (commands io : Feed ε), (measure commands io).outcome = .ok p →
        ∀ i, fillFirst p.latencies ≠ .error (.missing i) := by
  refine ⟨exists_fillFirst_iff, fun xs => filledFrom_of_fillFirst, fun fault => fillFirst_eq_error_iff, fun n => rfl, ?_⟩
  intro ε commands io hp i hmissing
  rw [eq_ofTimes_of_measure hp, latencies_ofTimes] at hmissing
  exact not_prevents_missing_gaps _ i (fillFirst_eq_error_iff.mp hmissing)

/-- Four commands: the first latency becomes that of index 2.  Without the latencies at indices 1 and 2 the fault names
index 2, which is looked at first. -/
theorem fillFirst_decides_of_four_commands :
    let commands : List TimeOfDay :=
      [⟨1, 0, by decide, by decide⟩, ⟨2, 0, by decide, by decide⟩, ⟨4, 0, by decide, by decide⟩,
        ⟨7, 0, by decide, by decide⟩]
    let p : Intervals := .ofTimes commands []
    let gappy : Intervals := ⟨[0, 0, 0, 0, 0], [none, none, none, some 3000.0]⟩
    ((measure (.ofTimes commands) (.ofTimes []) : Run String Intervals).outcome = .ok p ∧
        ∃ xs, fillFirst p.latencies = .ok xs ∧ FilledFrom p.latencies xs ∧
          ∀ i, fillFirst p.latencies ≠ .error (.missing i)) ∧
      fillFirst gappy.latencies = .error (.missing 2) ∧ Prevents gappy.latencies (.missing 2) := by
  intro commands p gappy
  have hp : (measure (.ofTimes commands) (.ofTimes []) : Run String Intervals).outcome = .ok p := rfl
  obtain ⟨xs, hxs⟩ : ∃ xs, fillFirst p.latencies = .ok xs := ⟨_, rfl⟩
  obtain ⟨-, hfilled, -, -, hrun⟩ := fillFirst_decides p
  have hgappy : fillFirst gappy.latencies = .error (.missing 2) := rfl
  have hprevents := ((fillFirst_decides gappy).2.2.1 _).mp hgappy
  exact ⟨⟨hp, xs, hxs, hfilled xs hxs, hrun String _ _ hp⟩, hgappy, hprevents⟩

end LogCorrelation.Intervals
