import LogCorrelation.Proofs.Intervals.FirstFault
import LogCorrelation.Proofs.TimeOfDay.LeapSecond

/-!
# Proofs.Intervals.LatencySign — the signs of latencies

The commands of a run are taken in their order, and the latencies are elapsed times.  So a latency is negative, or zero
between different commands, exactly where a command overtakes the next one.

* `latenciesFollow_iff`: when no latency of a run is so.
* `elapsed_follows_order_iff`: when order and elapsed time agree, on two times and along a run.
-/

namespace LogCorrelation.Intervals

variable {ε : Type} {commands io : Feed ε} {p : Intervals}

/-- Latencies that are never negative, and zero between equal commands only. -/
def LatenciesFollow (commands : List TimeOfDay) (latencies : List (Option Float)) : Prop :=
  ∀ (i : Nat) (c d : TimeOfDay) (x : Float), commands[i]? = some c → commands[i + 1]? = some d →
    latencies[i + 1]? = some (some x) → ¬ x < 0.0 ∧ ((x == 0.0) = true → c = d)

/-- No command overtakes the next one. -/
def NoneOvertaken (commands : List TimeOfDay) : Prop :=
  ∀ (i : Nat) (c d : TimeOfDay), commands[i]? = some c → commands[i + 1]? = some d → ¬ c.Overtakes d

/-- **The latencies of ordered commands follow them** exactly if no command overtakes the next one. -/
theorem latenciesFollow_iff (hp : (measure commands io).outcome = .ok p)
    (hordered : commands.times.Pairwise (· ≤ ·)) :
    LatenciesFollow commands.times p.latencies ↔ NoneOvertaken commands.times := by
  rw [eq_ofTimes_of_measure hp, latencies_ofTimes]
  constructor
  · intro hfollow i c d hc hd
    have hle := pairwise_getElem?_succ hordered hc hd
    exact (TimeOfDay.not_overtakes_iff_of_le hle).mpr (hfollow i c d _ hc hd (getElem?_gaps hc hd none))
  · intro hnone i c d x hc hd hx
    obtain rfl : c.elapsed d = x := by simpa [getElem?_gaps hc hd none] using hx
    have hle := pairwise_getElem?_succ hordered hc hd
    exact (TimeOfDay.not_overtakes_iff_of_le hle).mp (hnone i c d hc hd)

theorem noneOvertaken_of_read {commands : List TimeOfDay} (h : ∀ c ∈ commands, ∃ text, TimeOfDay.parse text = .ok c) :
    NoneOvertaken commands := by
  intro i c d hc _
  obtain ⟨text, hread⟩ := h c (List.mem_of_getElem? hc)
  exact TimeOfDay.not_overtakes_of_parse_eq_ok hread d

/-- **Order and elapsed time agree unless a leap second overtakes.**  Every time can be built from its fields.  On two
times order, count and elapsed time agree exactly if neither overtakes the other, which no time does that was read.  So
the latencies of ordered commands are never negative, and zero between equal commands only, exactly if no command
overtakes the next one. -/
theorem elapsed_follows_order_iff (hp : (measure commands io).outcome = .ok p)
    (hordered : commands.times.Pairwise (· ≤ ·)) :
    (∀ a b : TimeOfDay,
      (∃ hour minute second micro, TimeOfDay.ofFields? hour minute second micro = some a) ∧
        (a.FollowsOrder b ↔ ¬ a.Overtakes b ∧ ¬ b.Overtakes a) ∧
        ∀ text, TimeOfDay.parse text = .ok a → ¬ a.Overtakes b) ∧
      (LatenciesFollow commands.times p.latencies ↔ NoneOvertaken commands.times) ∧
      ((∀ c ∈ commands.times, ∃ text, TimeOfDay.parse text = .ok c) →
        LatenciesFollow commands.times p.latencies) := by
  have hlatencies := latenciesFollow_iff hp hordered
  refine ⟨fun a b => ⟨a.exists_ofFields?_eq_some, TimeOfDay.followsOrder_iff, fun text hread => ?_⟩, hlatencies, ?_⟩
  · exact TimeOfDay.not_overtakes_of_parse_eq_ok hread b
  · exact fun hread => hlatencies.mpr (noneOvertaken_of_read hread)

/-- Half a leap second, and the minute that follows. -/
theorem elapsed_follows_order_across_minute :
    let commands : List TimeOfDay := [⟨59, 1500000, by decide, by decide⟩, ⟨60, 600000, by decide, by decide⟩]
    ∃ p, (measure (.ofTimes commands) (.ofTimes []) : Run String Intervals).outcome = .ok p ∧
      LatenciesFollow commands p.latencies ∧ commands[0].FollowsOrder commands[1] := by
  intro commands
  have hp : (measure (.ofTimes commands) (.ofTimes []) : Run String Intervals).outcome = .ok (.ofTimes commands []) :=
    rfl
  have hordered : commands.Pairwise (· ≤ ·) := by decide
  have hfirst : ¬ commands[0].Overtakes commands[1] := fun h => absurd h.micro (by decide)
  have hsecond : ¬ commands[1].Overtakes commands[0] := fun h => absurd h.second (by decide)
  obtain ⟨hagree, hlatencies, -⟩ := elapsed_follows_order_iff hp hordered
  refine ⟨_, hp, hlatencies.mpr ?_, (hagree _ _).2.1.mpr ⟨hfirst, hsecond⟩⟩
  intro i c d hc hd
  cases i with
  | zero =>
    obtain rfl := Option.some.inj hc
    obtain rfl := Option.some.inj hd
    exact hfirst
  | succ i => exact absurd hd (by simp [commands])

/-- **A leap second overtakes the minute that follows it.**  Both times can be built, the first is the earlier one, and
yet it has the greater count, so that the time elapsed to the second, which is a latency of the run, is negative. -/
theorem leap_second_overtakes_minute :
    let a : TimeOfDay := ⟨59, 1500000, by decide, by decide⟩
    let b : TimeOfDay := ⟨60, 0, by decide, by decide⟩
    TimeOfDay.ofFields? 0 0 59 1500000 = some a ∧ TimeOfDay.ofFields? 0 1 0 0 = some b ∧ a < b ∧ b.micros < a.micros ∧
      0.0 < b.elapsed a ∧
      ∃ x, x < 0.0 ∧ (measure (.ofTimes [a, b]) (.ofTimes []) : Run String Intervals).outcome =
        .ok ⟨[0, 0, 0], [none, some x]⟩ := by
  intro a b
  have hcount : b.micros < a.micros := by decide
  refine ⟨rfl, rfl, by decide, hcount, TimeOfDay.zero_lt_elapsed_iff.mpr hcount, a.elapsed b, ?_, rfl⟩
  exact TimeOfDay.elapsed_lt_zero_iff.mpr hcount

end LogCorrelation.Intervals
