import TriggerLatency.Proofs.Mean

/-!
# Extremes of what was recorded

The least and the greatest of a summary are recorded values, and bounds of all of them, in whatever
order they come (`extremes_attained`). The ends of the finite range, from which an accumulator
starts, are finite values as well; but the first finite value displaces both, so an end of the range
is an extreme only if it has been recorded.

What is not a number is counted and does not reach the extremes, so they are those of the finite
values alone (`Accumulator.extremes_after_filter`).
-/

namespace TriggerLatency

open Double

variable {x y : Float} {latencies others : List Float}

/-! ## Not-a-number -/

theorem lesser_of_isNaN (x : Float) (hy : y.isNaN = true) : lesser x y = x := by
  unfold lesser
  rw [hy]
  rfl

theorem greater_of_isNaN (x : Float) (hy : y.isNaN = true) : greater x y = x := by
  unfold greater
  rw [hy]
  rfl

theorem isFinite_of_isNaN (hx : x.isNaN = true) : x.isFinite = false := by
  cases hfin : x.isFinite with
  | false => rfl
  | true => exact nomatch hx.symm.trans (isNaN_of_isFinite hfin)

namespace Accumulator

/-- The extremes depend on the finite values alone. -/
theorem extremes_foldl_filter {a b : Accumulator} (hmin : a.min = b.min) (hmax : a.max = b.max)
    (hvalues : ∀ y ∈ latencies, y.isFinite = true ∨ y.isNaN = true) :
    (latencies.foldl record a).min = ((latencies.filter Float.isFinite).foldl record b).min
    ∧ (latencies.foldl record a).max = ((latencies.filter Float.isFinite).foldl record b).max := by
  induction latencies generalizing a b with
  | nil => exact ⟨hmin, hmax⟩
  | cons x xs ih =>
    obtain ⟨hx, hxs⟩ := List.forall_mem_cons.mp hvalues
    rw [List.foldl_cons]
    rcases hx with hfin | hnan
    · rw [List.filter_cons_of_pos hfin, List.foldl_cons]
      exact ih (congrArg (lesser · x) hmin) (congrArg (greater · x) hmax) hxs
    · rw [List.filter_cons_of_neg (by simp [isFinite_of_isNaN hnan])]
      exact ih ((lesser_of_isNaN _ hnan).trans hmin) ((greater_of_isNaN _ hnan).trans hmax) hxs

theorem extremes_after_filter (hvalues : ∀ y ∈ latencies, y.isFinite = true ∨ y.isNaN = true) :
    (after latencies).min = (after (latencies.filter Float.isFinite)).min
    ∧ (after latencies).max = (after (latencies.filter Float.isFinite)).max :=
  extremes_foldl_filter rfl rfl hvalues

end Accumulator

/-! ## Extremes of finite values -/

/-- A finite value of a list, and no other one is below it. -/
structure IsLeastFinite (x : Float) (latencies : List Float) : Prop where
  mem : x ∈ latencies
  isFinite : x.isFinite = true
  le : ∀ y ∈ latencies, y.isFinite = true → x ≤ y

/-- A finite value of a list, and no other one is above it. -/
structure IsGreatestFinite (x : Float) (latencies : List Float) : Prop where
  mem : x ∈ latencies
  isFinite : x.isFinite = true
  ge : ∀ y ∈ latencies, y.isFinite = true → y ≤ x

/-- Two finite values that are not above each other are equal, as numbers. -/
theorem beq_of_le_of_le (hx : x.isFinite = true) (hy : y.isFinite = true) (hxy : x ≤ y)
    (hyx : y ≤ x) : (x == y) = true := by
  have hx := isNaN_of_isFinite hx
  have hy := isNaN_of_isFinite hy
  rw [le_iff_grains hx hy] at hxy
  rw [le_iff_grains hy hx] at hyx
  exact (beq_iff_grains hx hy).mpr (le_antisymm hxy hyx)

theorem IsLeastFinite.beq (h : IsLeastFinite x latencies) (h' : IsLeastFinite y others)
    (hsame : (others.filter Float.isFinite).Perm (latencies.filter Float.isFinite)) :
    (y == x) = true := by
  have hx := hsame.mem_iff.mpr (List.mem_filter.mpr ⟨h.mem, h.isFinite⟩)
  have hy := hsame.mem_iff.mp (List.mem_filter.mpr ⟨h'.mem, h'.isFinite⟩)
  exact beq_of_le_of_le h'.isFinite h.isFinite (h'.le x (List.mem_of_mem_filter hx) h.isFinite)
    (h.le y (List.mem_of_mem_filter hy) h'.isFinite)

theorem IsGreatestFinite.beq (h : IsGreatestFinite x latencies) (h' : IsGreatestFinite y others)
    (hsame : (others.filter Float.isFinite).Perm (latencies.filter Float.isFinite)) :
    (y == x) = true := by
  have hx := hsame.mem_iff.mpr (List.mem_filter.mpr ⟨h.mem, h.isFinite⟩)
  have hy := hsame.mem_iff.mp (List.mem_filter.mpr ⟨h'.mem, h'.isFinite⟩)
  exact beq_of_le_of_le h'.isFinite h.isFinite (h.ge y (List.mem_of_mem_filter hy) h'.isFinite)
    (h'.ge x (List.mem_of_mem_filter hx) h.isFinite)

namespace Accumulator

/-- The extremes are extreme among the finite values, if there is one. -/
theorem extremes_after (hvalues : ∀ y ∈ latencies, y.isFinite = true ∨ y.isNaN = true)
    (hsome : ∃ y ∈ latencies, y.isFinite = true) :
    IsLeastFinite (after latencies).min latencies
    ∧ IsGreatestFinite (after latencies).max latencies := by
  obtain ⟨hmin, hmax⟩ := extremes_after_filter hvalues
  obtain ⟨y, hy, hyfin⟩ := hsome
  have hfin : ∀ z ∈ latencies.filter Float.isFinite, z.isFinite = true := fun z hz =>
    List.of_mem_filter hz
  have hcovers : Covers (after (latencies.filter Float.isFinite)) _ :=
    covers (List.ne_nil_of_mem (List.mem_filter.mpr ⟨hy, hyfin⟩)) hfin
  have hleast := List.mem_filter.mp hcovers.min_mem
  have hgreatest := List.mem_filter.mp hcovers.max_mem
  have hbetween := mem_between hfin
  rw [hmin, hmax]
  refine ⟨⟨hleast.1, hleast.2, fun z hz hzfin => ?_⟩,
    ⟨hgreatest.1, hgreatest.2, fun z hz hzfin => ?_⟩⟩
  · exact (le_iff_grains (isNaN_of_isFinite hleast.2) (isNaN_of_isFinite hzfin)).mpr
      (hbetween z (List.mem_filter.mpr ⟨hz, hzfin⟩)).1
  · exact (le_iff_grains (isNaN_of_isFinite hzfin) (isNaN_of_isFinite hgreatest.2)).mpr
      (hbetween z (List.mem_filter.mpr ⟨hz, hzfin⟩)).2

end Accumulator

open Accumulator

/-- Among finite values, at least one, and not-a-number any number of times, every record is
counted, the least of the summary is a finite one of them that no other is below, and the greatest
one that no other is above. So neither depends on the order of the finite values, nor on where and
how often not-a-number stands between them. -/
theorem extremes_attained (hvalues : ∀ y ∈ latencies, y.isFinite = true ∨ y.isNaN = true)
    (hsome : ∃ y ∈ latencies, y.isFinite = true) :
    ∃ s, (after latencies).finish = some s
      ∧ s.count = latencies.length
      ∧ IsLeastFinite s.min latencies
      ∧ IsGreatestFinite s.max latencies
      ∧ ∀ others : List Float, (∀ y ∈ others, y.isFinite = true ∨ y.isNaN = true) →
        (others.filter Float.isFinite).Perm (latencies.filter Float.isFinite) →
        ∃ s', (after others).finish = some s'
          ∧ s'.count = others.length ∧ (s'.min == s.min) = true ∧ (s'.max == s.max) = true := by
  obtain ⟨hleast, hgreatest⟩ := extremes_after hvalues hsome
  refine ⟨_, finish_after (List.ne_nil_of_mem hleast.mem), rfl, hleast, hgreatest, ?_⟩
  intro others hothers hsame
  have hmem := hsame.mem_iff.mpr (List.mem_filter.mpr ⟨hleast.mem, hleast.isFinite⟩)
  obtain ⟨hleast', hgreatest'⟩ :=
    extremes_after hothers ⟨_, (List.mem_filter.mp hmem)⟩
  exact ⟨_, finish_after (List.ne_nil_of_mem hleast'.mem), rfl, hleast.beq hleast' hsame,
    hgreatest.beq hgreatest' hsame⟩

/-- Finite values behind, between and in front of not-a-number, one of them an end of the finite
range. -/
theorem extremes_attained_among_nans :
    let latencies : List Float := [0 / 0, 0.75, 0 / 0, -greatestFinite, 0.25, 0 / 0]
    (∀ y ∈ latencies, y.isFinite = true ∨ y.isNaN = true)
    ∧ (∃ y ∈ latencies, y.isFinite = true)
    ∧ ∃ s, (after latencies).finish = some s
      ∧ s.count = latencies.length
      ∧ IsLeastFinite s.min latencies
      ∧ IsGreatestFinite s.max latencies
      ∧ ∀ others : List Float, (∀ y ∈ others, y.isFinite = true ∨ y.isNaN = true) →
        (others.filter Float.isFinite).Perm (latencies.filter Float.isFinite) →
        ∃ s', (after others).finish = some s'
          ∧ s'.count = others.length ∧ (s'.min == s.min) = true ∧ (s'.max == s.max) = true := by
  intro latencies
  have hvalues : ∀ y ∈ latencies, y.isFinite = true ∨ y.isNaN = true := by decide +kernel
  have hsome : ∃ y ∈ latencies, y.isFinite = true :=
    ⟨0.75, by simp [latencies], by decide +kernel⟩
  exact ⟨hvalues, hsome, extremes_attained hvalues hsome⟩

end TriggerLatency
