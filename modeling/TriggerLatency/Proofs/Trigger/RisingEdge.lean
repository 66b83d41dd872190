import TriggerLatency.Trigger.Edge
import Mathlib.Data.List.Induction
import Mathlib.Data.List.Nodup

/-!
# Where a line rises

The streaming detector carries the level of the last sample. Over a whole list of
samples it finds the positions at which the line `Rises`, each of them once and in
order (`risingEdges_eq`).
-/

namespace TriggerLatency

/-- A line rises at a position: it is high there, and low at the position before. Before the first
position it is low if the policy says so. -/
def Rises (policy : EdgePolicy) (levels : List Level) : Nat → Prop
  | 0 => policy = .assumeLow ∧ levels[0]? = some .high
  | p + 1 => levels[p]? = some .low ∧ levels[p + 1]? = some .high

instance (policy : EdgePolicy) (levels : List Level) : DecidablePred (Rises policy levels)
  | 0 => inferInstanceAs (Decidable (_ ∧ _))
  | _ + 1 => inferInstanceAs (Decidable (_ ∧ _))

/-- The positions at which a line rises, in order. -/
def risingPositions (policy : EdgePolicy) (levels : List Level) : List Nat :=
  (List.range levels.length).filter fun p => Rises policy levels p

section

variable {policy : EdgePolicy} {levels : List Level}

theorem lt_length_of_rises {p : Nat} (h : Rises policy levels p) : p < levels.length := by
  cases p with
  | zero => exact (List.getElem?_eq_some_iff.mp h.2).1
  | succ p => exact (List.getElem?_eq_some_iff.mp h.2).1

theorem mem_risingPositions_iff {p : Nat} :
    p ∈ risingPositions policy levels ↔ Rises policy levels p := by
  rw [risingPositions, List.mem_filter, List.mem_range, decide_eq_true_iff]
  exact ⟨And.right, fun h => ⟨lt_length_of_rises h, h⟩⟩

theorem pairwise_risingPositions : (risingPositions policy levels).Pairwise (· < ·) :=
  List.pairwise_lt_range.filter _

theorem nodup_risingPositions : (risingPositions policy levels).Nodup :=
  List.Nodup.filter _ List.nodup_range

/-- Whether a line rises at a position does not depend on the levels behind it. -/
theorem rises_append_iff {p : Nat} (hp : p < levels.length) (l : Level) :
    Rises policy (levels ++ [l]) p ↔ Rises policy levels p := by
  cases p with
  | zero => simp only [Rises, List.getElem?_append_left hp]
  | succ p =>
    have hp' : p < levels.length := Nat.lt_of_succ_lt hp
    simp only [Rises, List.getElem?_append_left hp, List.getElem?_append_left hp']

/-- One more level: the earlier positions stay, and the new one may be added. -/
theorem risingPositions_append (l : Level) :
    risingPositions policy (levels ++ [l]) = risingPositions policy levels
      ++ if Rises policy (levels ++ [l]) levels.length then [levels.length] else [] := by
  have hsame : (List.range levels.length).filter (fun p => Rises policy (levels ++ [l]) p)
      = risingPositions policy levels := by
    refine List.filter_congr ?_
    intro p hp
    rw [decide_eq_decide, rises_append_iff (List.mem_range.mp hp)]
  rw [risingPositions, List.length_append, List.length_singleton, List.range_succ,
    List.filter_append, hsame, List.filter_singleton]
  split_ifs <;> simp_all

end

namespace Detector

variable {channel : Channel} {policy : EdgePolicy}

/-- What a detector that has read some samples knows of the level before the next one. -/
theorem previous_eq (samples : List Sample) :
    (Transducer.run process (new channel policy) samples).2.previous
      = (samples.getLast?.map (·.level)).or policy.levelBefore := by
  induction samples using List.reverseRecOn with
  | nil => rfl
  | append_singleton seen s _ =>
    rw [Transducer.run_append, Transducer.run_cons, Transducer.run_nil]
    dsimp only
    rw [process]
    split_ifs <;> simp

/-- A detector keeps its channel. -/
theorem channel_eq (samples : List Sample) :
    (Transducer.run process (new channel policy) samples).2.channel = channel := by
  induction samples using List.reverseRecOn with
  | nil => rfl
  | append_singleton seen s ih =>
    rw [Transducer.run_append, Transducer.run_cons, Transducer.run_nil]
    dsimp only
    rw [process]
    split_ifs <;> exact ih

end Detector

/-- A line rises at the next sample exactly if the detector makes an event of it. -/
theorem rises_next_iff {policy : EdgePolicy} (seen : List Sample) (s : Sample) :
    Rises policy ((seen ++ [s]).map (·.level)) seen.length
      ↔ (seen.getLast?.map (·.level)).or policy.levelBefore = some .low ∧ s.level = .high := by
  induction seen using List.reverseRecOn with
  | nil =>
    cases policy <;> simp [Rises, EdgePolicy.levelBefore]
  | append_singleton seen r _ =>
    simp [Rises]

/-- One more sample: the earlier edges stay, and a new one may be added. -/
theorem risingEdges_append (channel : Channel) (policy : EdgePolicy) (seen : List Sample)
    (s : Sample) :
    risingEdges channel policy (seen ++ [s]) = risingEdges channel policy seen
      ++ if Rises policy ((seen ++ [s]).map (·.level)) seen.length then [⟨s.timestamp, channel⟩]
        else [] := by
  unfold risingEdges Detector.processBuffer
  rw [Transducer.run_append, Transducer.run_cons, Transducer.run_nil]
  dsimp only
  -- the detector knows the level of the last sample, or what the policy puts before the first
  rw [List.filterMap_append, Detector.process, Detector.previous_eq, Detector.channel_eq]
  by_cases hrises : Rises policy ((seen ++ [s]).map (·.level)) seen.length
  · rw [if_pos hrises, if_pos ((rises_next_iff seen s).mp hrises)]
    rfl
  · rw [if_neg hrises, if_neg (fun h => hrises ((rises_next_iff seen s).mpr h))]
    rfl

/-- The edges of a list of samples are the positions where the line rises, in order. -/
theorem risingEdges_eq (channel : Channel) (policy : EdgePolicy) (samples : List Sample) :
    (risingEdges channel policy samples).map some
      = (risingPositions policy (samples.map (·.level))).map fun p =>
          samples[p]?.map fun s => Event.mk s.timestamp channel := by
  induction samples using List.reverseRecOn with
  | nil => rfl
  | append_singleton seen s ih =>
    -- the earlier positions are those of earlier samples
    have hseen : (risingPositions policy (seen.map (·.level))).map
          (fun p => (seen ++ [s])[p]?.map fun s => Event.mk s.timestamp channel)
        = (risingPositions policy (seen.map (·.level))).map
          (fun p => seen[p]?.map fun s => Event.mk s.timestamp channel) := by
      refine List.map_congr_left ?_
      intro p hp
      have hlt := lt_length_of_rises (mem_risingPositions_iff.mp hp)
      rw [List.getElem?_append_left (by simpa using hlt)]
    rw [risingEdges_append, List.map_append, ih, List.map_append, List.map_singleton,
      risingPositions_append, List.map_append, hseen, List.length_map]
    congr 1
    split_ifs <;> simp

/-- The edge at some index is that of the sample at the position of that index. -/
theorem exists_position {channel : Channel} {policy : EdgePolicy} {samples : List Sample} {i : Nat}
    {e : Event} (h : (risingEdges channel policy samples)[i]? = some e) :
    ∃ p s, (risingPositions policy (samples.map (·.level)))[i]? = some p ∧ samples[p]? = some s
      ∧ s.timestamp = e.timestamp := by
  have hmap := congrArg (·[i]?) (risingEdges_eq channel policy samples)
  simp only [List.getElem?_map, h, Option.map_some] at hmap
  obtain ⟨p, hp, hsample⟩ := Option.map_eq_some_iff.mp hmap.symm
  obtain ⟨s, hs, rfl⟩ := Option.map_eq_some_iff.mp hsample
  exact ⟨p, s, hp, hs, rfl⟩

end TriggerLatency
