import TriggerLatency.Proofs.Trigger.RisingEdge
import Mathlib.Data.Set.Card

/-!
# Runs of high samples

A line rises where a maximal run of high samples begins, and every such run begins where the line
rises, a run at the very start excepted if nothing is taken to stand before it
(`exists_highRun_iff`). A run is told by its beginning (`HighRun.stop_unique`), so the edges of a
line are as many as its runs (`encard_highRuns`). The policy decides on the first position alone
(`risingEdges_assumeLow`).
-/

namespace TriggerLatency

/-- The positions from `first` up to, but not including, `stop` are a maximal run of high levels:
all of them are high, and the positions next to them are not, where there are any. -/
structure HighRun (levels : List Level) (first stop : Nat) : Prop where
  nonempty : first < stop
  high : ∀ p, first ≤ p → p < stop → levels[p]? = some .high
  notHighBefore : ∀ p, p + 1 = first → levels[p]? ≠ some .high
  notHighBehind : levels[stop]? ≠ some .high

section

variable {policy : EdgePolicy} {levels : List Level} {first stop : Nat}

/-- What is not high, within the line, is low. -/
theorem level_eq_low {p : Nat} (hp : p < levels.length) (h : levels[p]? ≠ some .high) :
    levels[p]? = some .low := by
  rw [List.getElem?_eq_getElem hp] at h ⊢
  cases hlevel : levels[p] with
  | low => rfl
  | high => exact absurd (congrArg some hlevel) h

/-- What the policy decides: whether a line rises at the first position. -/
theorem rises_iff_assumeLow {p : Nat} :
    Rises policy levels p ↔ Rises .assumeLow levels p ∧ (p = 0 → policy = .assumeLow) := by
  cases p with
  | zero => exact ⟨fun h => ⟨⟨rfl, h.2⟩, fun _ => h.1⟩, fun h => ⟨h.2 rfl, h.1.2⟩⟩
  | succ p => exact ⟨fun h => ⟨h, fun hzero => nomatch hzero⟩, And.left⟩

theorem HighRun.rises (h : HighRun levels first stop) : Rises .assumeLow levels first := by
  have hhigh := h.high first (Nat.le_refl first) h.nonempty
  cases first with
  | zero => exact ⟨rfl, hhigh⟩
  | succ p =>
    have hp : p < levels.length := Nat.lt_of_succ_lt (List.getElem?_eq_some_iff.mp hhigh).1
    exact ⟨level_eq_low hp (h.notHighBefore p rfl), hhigh⟩

/-- From where a line rises it stays high up to some position. -/
theorem exists_highRun_of_rises (h : Rises .assumeLow levels first) :
    ∃ stop, HighRun levels first stop := by
  have hend : ∃ q, first < q ∧ levels[q]? ≠ some .high :=
    ⟨levels.length, lt_length_of_rises h, by simp⟩
  have hhigh : levels[first]? = some .high := by
    cases first with
    | zero => exact h.2
    | succ p => exact h.2
  refine ⟨Nat.find hend, (Nat.find_spec hend).1, ?_, ?_, (Nat.find_spec hend).2⟩
  · -- before the first position that is not high, all are
    intro p hfirst hp
    rcases Nat.eq_or_lt_of_le hfirst with rfl | hlt
    · exact hhigh
    · by_contra hnot
      exact Nat.find_min hend hp ⟨hlt, hnot⟩
  · rintro p rfl hp
    have hlow : levels[p]? = some .low := h.1
    rw [hlow] at hp
    exact nomatch hp

/-- The runs begin where the line rises. -/
theorem exists_highRun_iff :
    (∃ stop, HighRun levels first stop) ↔ Rises .assumeLow levels first :=
  ⟨fun ⟨_, h⟩ => h.rises, exists_highRun_of_rises⟩

/-- Where a run begins decides where it ends. -/
theorem HighRun.stop_unique {stop' : Nat} (h : HighRun levels first stop)
    (h' : HighRun levels first stop') : stop = stop' := by
  rcases Nat.lt_trichotomy stop stop' with hlt | heq | hlt
  · exact absurd (h'.high stop h.nonempty.le hlt) h.notHighBehind
  · exact heq
  · exact absurd (h.high stop' h'.nonempty.le hlt) h'.notHighBehind

/-- The runs that count under a policy: all of them, without one at the very start if nothing is
taken to stand before it. -/
def highRuns (policy : EdgePolicy) (levels : List Level) : Set (Nat × Nat) :=
  {run | HighRun levels run.1 run.2 ∧ (policy = .seedFromFirstSample → run.1 ≠ 0)}

theorem image_fst_highRuns :
    Prod.fst '' highRuns policy levels = {p | p ∈ risingPositions policy levels} := by
  have hpolicy (p : Nat) :
      (policy = .seedFromFirstSample → p ≠ 0) ↔ (p = 0 → policy = .assumeLow) := by
    cases policy <;> simp
  ext p
  rw [Set.mem_ofPred_eq, mem_risingPositions_iff, rises_iff_assumeLow, ← exists_highRun_iff]
  constructor
  · rintro ⟨⟨_, stop⟩, ⟨hrun, hstart⟩, rfl⟩
    exact ⟨⟨stop, hrun⟩, (hpolicy _).mp hstart⟩
  · rintro ⟨⟨stop, hrun⟩, hstart⟩
    exact ⟨(p, stop), ⟨hrun, (hpolicy p).mpr hstart⟩, rfl⟩

/-- There are as many runs as positions at which the line rises. -/
theorem encard_highRuns :
    (highRuns policy levels).encard = (risingPositions policy levels).length := by
  have hinj : Set.InjOn Prod.fst (highRuns policy levels) := by
    rintro ⟨first, stop⟩ hrun ⟨_, stop'⟩ hrun' rfl
    exact Prod.ext rfl (hrun.1.stop_unique hrun'.1)
  have hpositions : {p | p ∈ risingPositions policy levels}
      = ((risingPositions policy levels).toFinset : Set Nat) := by
    ext p
    simp
  rw [← hinj.encard_image, image_fst_highRuns, hpositions, Set.encard_coe_eq_coe_finsetCard,
    List.toFinset_card_of_nodup nodup_risingPositions]

end

variable (channel : Channel)

theorem length_risingEdges (policy : EdgePolicy) (samples : List Sample) :
    (risingEdges channel policy samples).length
      = (risingPositions policy (samples.map (·.level))).length := by
  have hlength := congrArg List.length (risingEdges_eq channel policy samples)
  rwa [List.length_map, List.length_map] at hlength

/-- Each edge is that of the sample at its position. -/
theorem forall₂_risingEdges (policy : EdgePolicy) (samples : List Sample) :
    List.Forall₂ (fun p e => ∃ s, samples[p]? = some s ∧ e = ⟨s.timestamp, channel⟩)
      (risingPositions policy (samples.map (·.level))) (risingEdges channel policy samples) := by
  have hedges : List.Forall₂ (· = ·)
      ((risingPositions policy (samples.map (·.level))).map fun p =>
        samples[p]?.map fun s => Event.mk s.timestamp channel)
      ((risingEdges channel policy samples).map some) := by
    rw [List.forall₂_eq_eq_eq]
    exact (risingEdges_eq channel policy samples).symm
  rw [List.forall₂_map_left_iff, List.forall₂_map_right_iff] at hedges
  refine hedges.imp ?_
  intro p e h
  obtain ⟨s, hs, he⟩ := Option.map_eq_some_iff.mp h
  exact ⟨s, hs, he.symm⟩

/-- A line that is taken to be low before the first sample has one edge more if this one is high. -/
theorem risingEdges_assumeLow (samples : List Sample) :
    risingEdges channel .assumeLow samples
      = ((samples.head?.filter fun s => s.level = .high).map fun s =>
          Event.mk s.timestamp channel).toList
        ++ risingEdges channel .seedFromFirstSample samples := by
  induction samples using List.reverseRecOn with
  | nil => rfl
  | append_singleton seen s ih =>
    rw [risingEdges_append, risingEdges_append]
    cases seen with
    | nil =>
      -- the first sample is an edge under one policy only
      have hnone (policy : EdgePolicy) : risingEdges channel policy [] = [] := rfl
      by_cases hlevel : s.level = .high
      · simp [Rises, hnone, Option.filter, hlevel]
      · simp [Rises, hnone, Option.filter, hlevel]
    | cons first seen =>
      -- the policies agree on the position of any other sample
      have hsame : Rises .assumeLow (((first :: seen) ++ [s]).map (·.level)) (first :: seen).length
          ↔ Rises .seedFromFirstSample (((first :: seen) ++ [s]).map (·.level))
            (first :: seen).length :=
        Iff.rfl
      rw [ih, List.append_assoc, if_congr hsame rfl rfl]
      rfl

/-- The edges of a channel are those of the high samples with a low one before them, or nothing
before them if the policy takes that for low: in order, each once. They are as many as the maximal
runs of high samples, without a run at the very start unless the policy counts it; and the policies
differ in the edge of the first sample alone. -/
theorem risingEdges_exact (policy : EdgePolicy) (samples : List Sample) :
    (∃ positions : List Nat, positions.Pairwise (· < ·)
      ∧ (∀ i, i ∈ positions ↔ (samples.map (·.level))[i]? = some .high
        ∧ (0 < i ∧ (samples.map (·.level))[i - 1]? = some .low ∨ i = 0 ∧ policy = .assumeLow))
      ∧ List.Forall₂ (fun i e => ∃ s, samples[i]? = some s ∧ e = ⟨s.timestamp, channel⟩) positions
        (risingEdges channel policy samples))
    ∧ ((risingEdges channel policy samples).length : ℕ∞)
      = {run : Nat × Nat | HighRun (samples.map (·.level)) run.1 run.2
          ∧ (policy = .seedFromFirstSample → run.1 ≠ 0)}.encard
    ∧ risingEdges channel .assumeLow samples
      = ((samples.head?.filter fun s => s.level = .high).map fun s =>
          Event.mk s.timestamp channel).toList
        ++ risingEdges channel .seedFromFirstSample samples := by
  refine ⟨⟨risingPositions policy (samples.map (·.level)), pairwise_risingPositions, ?_,
    forall₂_risingEdges channel policy samples⟩, ?_, risingEdges_assumeLow channel samples⟩
  · intro i
    rw [mem_risingPositions_iff]
    cases i with
    | zero => simp [Rises, and_comm]
    | succ p => simp [Rises, and_comm]
  · rw [length_risingEdges]
    exact encard_highRuns.symm

end TriggerLatency
