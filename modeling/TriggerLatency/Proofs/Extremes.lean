import TriggerLatency.Summary
import TriggerLatency.Proofs.Double.Grain
import Mathlib.Data.List.Induction

/-!
# The extremes of a summary

The least and the greatest latency start from the ends of the finite range. The first
finite latency displaces both, and from then on they are latencies of the list, the
least no greater than the greatest (`Accumulator.covers`). No latency is outside of them
(`Accumulator.mem_between`).
-/

namespace TriggerLatency

open Double

variable {x y : Float}

/-- The finite floats lie between the ends of the finite range. -/
theorem grains_mem_finiteRange (hx : x.isFinite = true) :
    grains (-greatestFinite) ≤ grains x ∧ grains x ≤ grains greatestFinite := by
  have hgreatest : grains greatestFinite = ((2 ^ 53 - 1) * 2 ^ 2045 : Nat) := by decide +kernel
  have hleast : grains (-greatestFinite) = -((2 ^ 53 - 1) * 2 ^ 2045 : Nat) := by decide +kernel
  rw [hgreatest, hleast]
  exact grainsOf_mem_finiteRange (canonical_toModel x) hx

theorem lesser_eq_of_le (hx : x.isFinite = true) (hy : y.isFinite = true)
    (h : grains y ≤ grains x) : lesser x y = y := by
  have hnan := isNaN_of_isFinite hy
  have hlt : ¬ x < y := by
    rw [lt_iff_grains (isNaN_of_isFinite hx) hnan]
    omega
  unfold lesser
  rw [hnan, if_neg (by simp [hlt])]

theorem lesser_eq_of_lt (hx : x.isFinite = true) (hy : y.isFinite = true)
    (h : grains x < grains y) : lesser x y = x := by
  have hlt : x < y := (lt_iff_grains (isNaN_of_isFinite hx) (isNaN_of_isFinite hy)).mpr h
  unfold lesser
  rw [if_pos (by simp [hlt])]

theorem greater_eq_of_le (hx : x.isFinite = true) (hy : y.isFinite = true)
    (h : grains x ≤ grains y) : greater x y = y := by
  have hnan := isNaN_of_isFinite hy
  have hlt : ¬ y < x := by
    rw [lt_iff_grains hnan (isNaN_of_isFinite hx)]
    omega
  unfold greater
  rw [hnan, if_neg (by simp [hlt])]

theorem greater_eq_of_lt (hx : x.isFinite = true) (hy : y.isFinite = true)
    (h : grains y < grains x) : greater x y = x := by
  have hlt : y < x := (lt_iff_grains (isNaN_of_isFinite hy) (isNaN_of_isFinite hx)).mpr h
  unfold greater
  rw [if_pos (by simp [hlt])]

/-- The lesser of two finite floats is one of them, and neither is below it. -/
theorem lesser_spec (hx : x.isFinite = true) (hy : y.isFinite = true) :
    (lesser x y).isFinite = true ∧ grains (lesser x y) ≤ grains x
    ∧ grains (lesser x y) ≤ grains y := by
  rcases lt_or_ge (grains x) (grains y) with hlt | hge
  · rw [lesser_eq_of_lt hx hy hlt]
    exact ⟨hx, le_refl _, hlt.le⟩
  · rw [lesser_eq_of_le hx hy hge]
    exact ⟨hy, hge, le_refl _⟩

/-- The greater of two finite floats is one of them, and neither is above it. -/
theorem greater_spec (hx : x.isFinite = true) (hy : y.isFinite = true) :
    (greater x y).isFinite = true ∧ grains x ≤ grains (greater x y)
    ∧ grains y ≤ grains (greater x y) := by
  rcases lt_or_ge (grains y) (grains x) with hlt | hge
  · rw [greater_eq_of_lt hx hy hlt]
    exact ⟨hx, le_refl _, hlt.le⟩
  · rw [greater_eq_of_le hx hy hge]
    exact ⟨hy, hge, le_refl _⟩

namespace Accumulator

/-- Every latency is counted. -/
theorem count_foldl (a : Accumulator) (latencies : List Float) :
    (latencies.foldl record a).count = a.count + latencies.length := by
  induction latencies generalizing a with
  | nil => rfl
  | cons x xs ih =>
    rw [List.foldl_cons, ih, List.length_cons]
    show a.count + 1 + xs.length = _
    omega

/-- The extremes of the accumulator are two of the recorded latencies, in their order. -/
structure Covers (a : Accumulator) (latencies : List Float) : Prop where
  min_mem : a.min ∈ latencies
  max_mem : a.max ∈ latencies
  min_le_max : grains a.min ≤ grains a.max

/-- The first latency becomes both extremes. -/
theorem covers_first (hx : x.isFinite = true) : Covers (empty.record x) [x] := by
  obtain ⟨hlow, hhigh⟩ := grains_mem_finiteRange hx
  have hmin : (empty.record x).min = x := lesser_eq_of_le (by decide +kernel) hx hhigh
  have hmax : (empty.record x).max = x := greater_eq_of_le (by decide +kernel) hx hlow
  refine ⟨?_, ?_, ?_⟩
  · rw [hmin]
    exact List.mem_singleton_self x
  · rw [hmax]
    exact List.mem_singleton_self x
  · rw [hmin, hmax]

/-- A further latency may take the place of an extreme. -/
theorem Covers.record {a : Accumulator} {latencies : List Float} (h : Covers a latencies)
    (hfin : ∀ y ∈ latencies, y.isFinite = true) (hx : x.isFinite = true) :
    Covers (a.record x) (latencies ++ [x]) := by
  have hle := h.min_le_max
  have hmin := hfin a.min h.min_mem
  have hmax := hfin a.max h.max_mem
  have hold : ∀ y ∈ latencies, y ∈ latencies ++ [x] := fun y hy => List.mem_append_left [x] hy
  have hnew : x ∈ latencies ++ [x] := by simp
  refine ⟨?_, ?_, ?_⟩
  all_goals unfold Accumulator.record
  all_goals dsimp only
  · rcases lt_or_ge (grains a.min) (grains x) with hlt | hge
    · rw [lesser_eq_of_lt hmin hx hlt]
      exact hold _ h.min_mem
    · rw [lesser_eq_of_le hmin hx hge]
      exact hnew
  · rcases lt_or_ge (grains x) (grains a.max) with hlt | hge
    · rw [greater_eq_of_lt hmax hx hlt]
      exact hold _ h.max_mem
    · rw [greater_eq_of_le hmax hx hge]
      exact hnew
  · -- the new least is at most the old one and the new greatest at least the old one
    rcases lt_or_ge (grains a.min) (grains x) with hlow | hlow <;>
      rcases lt_or_ge (grains x) (grains a.max) with hhigh | hhigh
    · rw [lesser_eq_of_lt hmin hx hlow, greater_eq_of_lt hmax hx hhigh]
      exact hle
    · rw [lesser_eq_of_lt hmin hx hlow, greater_eq_of_le hmax hx hhigh]
      omega
    · rw [lesser_eq_of_le hmin hx hlow, greater_eq_of_lt hmax hx hhigh]
      omega
    · rw [lesser_eq_of_le hmin hx hlow, greater_eq_of_le hmax hx hhigh]

/-- At least one finite latency is covered. -/
theorem covers {latencies : List Float} (hne : latencies ≠ [])
    (hfin : ∀ y ∈ latencies, y.isFinite = true) :
    Covers (latencies.foldl Accumulator.record empty) latencies := by
  induction latencies using List.reverseRecOn with
  | nil => exact absurd rfl hne
  | append_singleton seen x ih =>
    have hx := hfin x (by simp)
    have hseen : ∀ y ∈ seen, y.isFinite = true := fun y hy => hfin y (List.mem_append_left [x] hy)
    rw [List.foldl_append, List.foldl_cons, List.foldl_nil]
    by_cases hempty : seen = []
    · subst hempty
      exact covers_first hx
    · exact (ih hempty hseen).record hseen hx

/-- The extremes only move apart, and every latency that is recorded is between them. -/
theorem foldl_record_spread {a : Accumulator} {latencies : List Float}
    (hmin : a.min.isFinite = true) (hmax : a.max.isFinite = true)
    (hfin : ∀ y ∈ latencies, y.isFinite = true) :
    grains (latencies.foldl Accumulator.record a).min ≤ grains a.min
    ∧ grains a.max ≤ grains (latencies.foldl Accumulator.record a).max
    ∧ ∀ y ∈ latencies, grains (latencies.foldl Accumulator.record a).min ≤ grains y
      ∧ grains y ≤ grains (latencies.foldl Accumulator.record a).max := by
  induction latencies generalizing a with
  | nil => exact ⟨le_refl _, le_refl _, fun y hy => absurd hy List.not_mem_nil⟩
  | cons x xs ih =>
    have hx := hfin x (List.mem_cons_self ..)
    obtain ⟨hlesser, hlow, hlow'⟩ := lesser_spec hmin hx
    obtain ⟨hgreater, hhigh, hhigh'⟩ := greater_spec hmax hx
    rw [List.foldl_cons]
    obtain ⟨hle, hge, hbetween⟩ := ih (a := a.record x) hlesser hgreater
      fun y hy => hfin y (List.mem_cons_of_mem x hy)
    refine ⟨hle.trans hlow, hhigh.trans hge, ?_⟩
    intro y hy
    rcases List.mem_cons.mp hy with rfl | hrest
    · exact ⟨hle.trans hlow', hhigh'.trans hge⟩
    · exact hbetween y hrest

/-- Every finite latency is between the extremes. -/
theorem mem_between {latencies : List Float} (hfin : ∀ y ∈ latencies, y.isFinite = true) :
    ∀ y ∈ latencies, grains (latencies.foldl Accumulator.record empty).min ≤ grains y
      ∧ grains y ≤ grains (latencies.foldl Accumulator.record empty).max :=
  (foldl_record_spread (a := empty) (by decide +kernel) (by decide +kernel) hfin).2.2

end Accumulator

namespace Summary

/-- A summary counts the latencies it is made from. -/
theorem count_of_ofLatencies {latencies : List Float} {s : Summary}
    (h : ofLatencies latencies = some s) : s.count = latencies.length := by
  unfold ofLatencies Accumulator.finish at h
  by_cases hcount : (latencies.foldl Accumulator.record Accumulator.empty).count = 0
  · rw [if_pos hcount] at h
    exact nomatch h
  · rw [if_neg hcount] at h
    obtain rfl := Option.some.inj h
    show (latencies.foldl Accumulator.record Accumulator.empty).count = _
    rw [Accumulator.count_foldl]
    exact Nat.zero_add _

end Summary

end TriggerLatency
