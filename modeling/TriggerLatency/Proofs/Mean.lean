import TriggerLatency.Proofs.Double.Sum
import TriggerLatency.Proofs.Extremes

/-!
# The mean of a summary

The mean of a summary is a running sum over a count, and every operation is rounded. In exact
arithmetic it would be between the extremes. Here it need not be: the mean of three latencies of a
tenth is above a tenth (`mean_above_equal_latencies`), and a sum that gets out of range makes the
mean infinite.

While the sum is in range, the mean is between the extremes up to the drift of its roundings
(`mean_within_drift`). There are none to count for up to two latencies, and none if the sum is
exact; then the mean is between the extremes themselves.
-/

namespace TriggerLatency

open Double

namespace Accumulator

/-- A new accumulator that has recorded some latencies. -/
def after (latencies : List Float) : Accumulator := latencies.foldl record empty

/-- The sum is taken in the order of the latencies. -/
theorem sum_foldl (a : Accumulator) (latencies : List Float) :
    (latencies.foldl record a).sum = latencies.foldl (· + ·) a.sum := by
  induction latencies generalizing a with
  | nil => rfl
  | cons x xs ih =>
    rw [List.foldl_cons, List.foldl_cons, ih]
    rfl

section

variable {latencies : List Float}

/-- At least one latency makes a summary. -/
theorem finish_after (hne : latencies ≠ []) :
    (after latencies).finish = some ⟨latencies.length,
      (after latencies).sum / Float.ofNat latencies.length, (after latencies).min,
      (after latencies).max⟩ := by
  have hcount : (after latencies).count = latencies.length := by
    unfold after
    rw [count_foldl]
    exact Nat.zero_add _
  have hpos := List.length_pos_iff.mpr hne
  unfold finish
  rw [hcount, if_neg (by omega)]

/-- The exact sum of the latencies is between their number times the extremes. -/
theorem exact_within (hfin : ∀ y ∈ latencies, y.isFinite = true) :
    latencies.length * grains (after latencies).min ≤ (latencies.map grains).sum
    ∧ (latencies.map grains).sum ≤ latencies.length * grains (after latencies).max := by
  have hbetween := mem_between hfin
  constructor
  · have hlow := List.card_nsmul_le_sum (latencies.map grains) (grains (after latencies).min) (by
      intro g hg
      obtain ⟨y, hy, rfl⟩ := List.mem_map.mp hg
      exact (hbetween y hy).1)
    rwa [List.length_map, nsmul_eq_mul] at hlow
  · have hhigh := List.sum_le_card_nsmul (latencies.map grains) (grains (after latencies).max) (by
      intro g hg
      obtain ⟨y, hy, rfl⟩ := List.mem_map.mp hg
      exact (hbetween y hy).2)
    rwa [List.length_map, nsmul_eq_mul] at hhigh

/-- The sum of positive latencies is out of range, or within its drift between the extremes. -/
theorem sum_within (hne : latencies ≠ []) (hpos : ∀ y ∈ latencies, y.isFinite = true ∧ 0 < y) :
    ∃ lo hi, HasGrains (after latencies).min lo ∧ HasGrains (after latencies).max hi
      ∧ ((after latencies).sum = infinity ∨ ∃ t, HasGrains (after latencies).sum t
        ∧ SumWithin lo hi latencies.length (latencies.length - 2) t) := by
  have hfin : ∀ y ∈ latencies, y.isFinite = true := fun y hy => (hpos y hy).1
  have hcovers := covers hne hfin
  have hmin : HasGrains (after latencies).min _ :=
    .of_zero_lt (hpos _ hcovers.min_mem).1 (hpos _ hcovers.min_mem).2
  have hmax : HasGrains (after latencies).max _ :=
    .of_zero_lt (hpos _ hcovers.max_mem).1 (hpos _ hcovers.max_mem).2
  refine ⟨_, _, hmin, hmax, ?_⟩
  have hsum : (after latencies).sum = latencies.foldl (· + ·) 0 := sum_foldl empty latencies
  rw [hsum]
  refine runningSum_within hmin hmax hne ?_
  intro y hy
  obtain ⟨hlow, hhigh⟩ := mem_between hfin y hy
  exact ⟨_, .of_zero_lt (hpos y hy).1 (hpos y hy).2, Int.toNat_le_toNat hlow,
    Int.toNat_le_toNat hhigh⟩

end

end Accumulator

open Accumulator

/-- Finite latencies above zero have a summary. Its mean is infinite if their sum gets out of range.
Otherwise it is between the doubles nearest to what the extremes may drift to: one rounding of the
sum for each latency but the first two, and one of the count if it has more bits than a double. For
up to two latencies, or if neither the sum nor the count is rounded, the mean is between the
extremes. -/
theorem mean_within_drift {latencies : List Float} (hne : latencies ≠ [])
    (hpos : ∀ y ∈ latencies, y.isFinite = true ∧ 0 < y) (hcount : latencies.length < 2 ^ 64) :
    ∃ s, (after latencies).finish = some s ∧ s.min ≤ s.max
      ∧ ((after latencies).sum.isFinite = false → s.mean = infinity)
      ∧ ((after latencies).sum.isFinite = true →
        s.mean.isFinite = true
        ∧ nearestTo (grains s.min / drift (latencies.length - 2 + countRoundings latencies.length))
          ≤ grains s.mean
        ∧ grains s.mean ≤ nearestTo
          (grains s.max * drift (latencies.length - 2 + countRoundings latencies.length))
        ∧ (latencies.length ≤ 2 ∨ latencies.length ≤ 2 ^ 53
              ∧ grains (after latencies).sum = (latencies.map grains).sum →
            s.min ≤ s.mean ∧ s.mean ≤ s.max)) := by
  have hn : 0 < latencies.length := List.length_pos_iff.mpr hne
  have hfin : ∀ y ∈ latencies, y.isFinite = true := fun y hy => (hpos y hy).1
  obtain ⟨lo, hi, hmin, hmax, hsum⟩ := sum_within hne hpos
  refine ⟨_, finish_after hne, ?_, ?_, ?_⟩
  · exact (le_iff_grains (isNaN_of_isFinite hmin.isFinite)
      (isNaN_of_isFinite hmax.isFinite)).mpr (covers hne hfin).min_le_max
  · intro hout
    rcases hsum with hinf | ⟨t, ht, -⟩
    · show (after latencies).sum / Float.ofNat latencies.length = infinity
      rw [hinf]
      exact (hasGrains_ofNat_nearest hn hcount).infinity_div
    · rw [ht.isFinite] at hout
      exact absurd hout Bool.noConfusion
  · intro hrange
    rcases hsum with hinf | ⟨t, ht, hdrift⟩
    · rw [hinf] at hrange
      exact absurd hrange (by decide +kernel)
    · obtain ⟨hmean, hlow, hhigh⟩ := mean_within ht hdrift hn hcount
      dsimp only
      rw [hmin.grains_eq, hmax.grains_eq, Int.cast_natCast, Int.cast_natCast]
      refine ⟨hmean, hlow, hhigh, ?_⟩
      intro hkept
      -- a sum without drift, because it is short or because it is exact
      rcases hkept with hfew | ⟨hbits, hexact⟩
      · have hnone : latencies.length - 2 = 0 := by omega
        rw [hnone] at hdrift
        exact mean_between ht hmin hmax hdrift hn (by omega)
      · obtain ⟨hleast, hgreatest⟩ := exact_within hfin
        rw [← hexact, ht.grains_eq] at hleast hgreatest
        rw [hmin.grains_eq] at hleast
        rw [hmax.grains_eq] at hgreatest
        refine mean_between ht hmin hmax (SumWithin.zero_iff.mpr ⟨?_, ?_⟩) hn hbits
        · exact_mod_cast hleast
        · exact_mod_cast hgreatest

/-- Of three latencies one addition counts for the drift. -/
theorem mean_within_drift_of_three_tenths :
    ∃ s, (after [0.1, 0.1, 0.1]).finish = some s
      ∧ nearestTo (grains s.min / drift 1) ≤ grains s.mean
      ∧ grains s.mean ≤ nearestTo (grains s.max * drift 1) := by
  have hrange : (after [0.1, 0.1, 0.1]).sum.isFinite = true := by decide +kernel
  obtain ⟨s, hs, -, -, hmean⟩ := @mean_within_drift [0.1, 0.1, 0.1] (List.cons_ne_nil _ _)
    (by decide +kernel) (by decide)
  obtain ⟨-, hlow, hhigh, -⟩ := hmean hrange
  exact ⟨s, hs, hlow, hhigh⟩

example : ((after [1.7e308, 1.7e308]).finish.map (·.mean)) = some infinity := by decide +kernel

/-- That one rounding is enough to lift the mean of three tenths above a tenth. -/
theorem mean_above_equal_latencies :
    (∀ y ∈ [0.1, 0.1, 0.1], y.isFinite = true ∧ 0 < y)
    ∧ ∃ s, (after [0.1, 0.1, 0.1]).finish = some s ∧ ¬ (s.min ≤ s.mean ∧ s.mean ≤ s.max) := by
  have hfinish : (after [0.1, 0.1, 0.1]).finish
      = some ⟨3, 0.10000000000000002, 0.1, 0.1⟩ := by decide +kernel
  refine ⟨by decide +kernel, _, hfinish, ?_⟩
  intro hbetween
  exact absurd hbetween.2 (by decide +kernel)

end TriggerLatency
