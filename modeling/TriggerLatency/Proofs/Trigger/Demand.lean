import TriggerLatency.Proofs.Trigger.RisingEdge
import Mathlib.Logic.Function.Iterate

/-!
# Edges on demand

An `EdgeStream` pulls samples only as far as edges are asked for. Between calls it stands
`behind` some of its samples, with the detector that has read them. A call of `next` passes over
the samples at which the line does not rise (`next_of_quiet`), and so takes it behind the first
position ahead at which it does, or behind all samples if there is none (`next_eq`).

What carries the induction over the calls is that the positions ahead are those of the edges that
have not been given yet (`afterCalls_eq`). So call by call the stream gives the edges of
`risingEdges`, and pulls nothing behind the sample that made the edge
(`call_refines_risingEdges`).
-/

namespace TriggerLatency

/-! ## The positions ahead -/

/-- The positions from `m` on at which a line rises, in order. -/
def risesAhead (policy : EdgePolicy) (levels : List Level) (m : Nat) : List Nat :=
  (risingPositions policy levels).filter fun p => m ≤ p

section

variable {policy : EdgePolicy} {levels : List Level}

theorem mem_risesAhead_iff {m p : Nat} :
    p ∈ risesAhead policy levels m ↔ Rises policy levels p ∧ m ≤ p := by
  rw [risesAhead, List.mem_filter, mem_risingPositions_iff, decide_eq_true_iff]

theorem risesAhead_zero : risesAhead policy levels 0 = risingPositions policy levels :=
  List.filter_eq_self.mpr fun p _ => decide_eq_true (Nat.zero_le p)

/-- The first position ahead is the next one at which the line rises; the others stay ahead. -/
theorem risesAhead_cons {m p : Nat} {ps : List Nat} (h : risesAhead policy levels m = p :: ps) :
    Rises policy levels p ∧ m ≤ p ∧ (∀ q, m ≤ q → q < p → ¬ Rises policy levels q)
    ∧ risesAhead policy levels (p + 1) = ps := by
  have hsorted : (p :: ps).Pairwise (· < ·) := h ▸ pairwise_risingPositions.filter _
  have hfirst := (List.pairwise_cons.mp hsorted).1
  obtain ⟨hp, hmp⟩ := mem_risesAhead_iff.mp (h ▸ List.mem_cons_self ..)
  refine ⟨hp, hmp, ?_, ?_⟩
  · intro q hmq hqp hq
    have hmem : q ∈ p :: ps := h ▸ mem_risesAhead_iff.mpr ⟨hq, hmq⟩
    rcases List.mem_cons.mp hmem with rfl | hlater
    · exact absurd hqp (Nat.lt_irrefl q)
    · exact absurd (hfirst q hlater) (Nat.lt_asymm hqp)
  · -- of the positions from `m` on, those behind `p` are the others
    have hbehind : risesAhead policy levels (p + 1)
        = (risesAhead policy levels m).filter fun q => p + 1 ≤ q := by
      unfold risesAhead
      rw [List.filter_filter]
      refine List.filter_congr ?_
      intro q _
      rw [← Bool.decide_and, decide_eq_decide]
      omega
    rw [hbehind, h, List.filter_cons_of_neg (by simp)]
    refine List.filter_eq_self.mpr ?_
    intro q hq
    exact decide_eq_true (hfirst q hq)

/-- Whether a line rises at a position can be told from the levels up to there. -/
theorem rises_take_iff {p n : Nat} (h : p < n) :
    Rises policy (levels.take n) p ↔ Rises policy levels p := by
  cases p with
  | zero => rw [Rises, Rises, List.getElem?_take_of_lt h]
  | succ p => rw [Rises, Rises, List.getElem?_take_of_lt h, List.getElem?_take_of_lt (by omega)]

end

namespace EdgeStream

/-- The stream after some calls of `next`. -/
def afterCalls (s : EdgeStream) (k : Nat) : EdgeStream := (fun s => s.next.2)^[k] s

/-- A call of `next`, numbered from zero: its answer, and the stream that it leaves. -/
def call (s : EdgeStream) (k : Nat) : Option Event × EdgeStream := (s.afterCalls k).next

section

variable {channel : Channel} {policy : EdgePolicy} {samples : List Sample}

/-- The stream that has pulled the first `m` samples. -/
def behind (channel : Channel) (policy : EdgePolicy) (samples : List Sample) (m : Nat) :
    EdgeStream where
  detector := (Transducer.run Detector.process (Detector.new channel policy) (samples.take m)).2
  source := samples.drop m
  pulled := m

/-- One more sample for the detector. -/
theorem process_behind {m : Nat} {s : Sample} (hs : samples[m]? = some s) :
    (behind channel policy samples m).detector.process s
      = (if Rises policy (samples.map (·.level)) m then some ⟨s.timestamp, channel⟩ else none,
        (behind channel policy samples (m + 1)).detector) := by
  have hm : m ≤ samples.length := Nat.le_of_lt (List.getElem?_eq_some_iff.mp hs).1
  have htake : samples.take (m + 1) = samples.take m ++ [s] := by
    rw [List.take_add_one, hs, Option.toList_some]
  have hchannel : (behind channel policy samples m).detector.channel = channel :=
    Detector.channel_eq _
  have hprevious : (behind channel policy samples m).detector.previous
      = ((samples.take m).getLast?.map (·.level)).or policy.levelBefore :=
    Detector.previous_eq _
  -- the level in front is the last one seen, or else the one that the policy assumes
  have hrises := @rises_next_iff policy (samples.take m) s
  rw [List.length_take_of_le hm, ← htake, List.map_take, rises_take_iff (Nat.lt_succ_self m),
    ← hprevious] at hrises
  have hnext : (behind channel policy samples (m + 1)).detector
      = ((behind channel policy samples m).detector.process s).2 := by
    simp only [behind]
    rw [htake, Transducer.run_append, Transducer.run_cons, Transducer.run_nil]
  rw [hnext]
  refine Prod.ext ?_ rfl
  unfold Detector.process
  by_cases h : Rises policy (samples.map (·.level)) m
  · rw [if_pos h, if_pos (hrises.mp h), hchannel]
  · rw [if_neg h, if_neg (fun hlevels => h (hrises.mpr hlevels))]

/-- A call looks at the next sample, and goes on if it makes no edge. -/
theorem next_behind {m : Nat} {s : Sample} (hs : samples[m]? = some s) :
    (behind channel policy samples m).next
      = if Rises policy (samples.map (·.level)) m then
          (some ⟨s.timestamp, channel⟩, behind channel policy samples (m + 1))
        else (behind channel policy samples (m + 1)).next := by
  obtain ⟨hm, hget⟩ := List.getElem?_eq_some_iff.mp hs
  have hsource : (behind channel policy samples m).source = s :: samples.drop (m + 1) := by
    show samples.drop m = _
    rw [List.drop_eq_getElem_cons hm, hget]
  rw [next, hsource, advance, process_behind hs]
  by_cases h : Rises policy (samples.map (·.level)) m
  · rw [if_pos h, if_pos h]
    rfl
  · rw [if_neg h, if_neg h]
    rfl

/-- Behind all samples there are no more edges. -/
theorem next_behind_all :
    (behind channel policy samples samples.length).next
      = (none, behind channel policy samples samples.length) := by
  have hsource : (behind channel policy samples samples.length).source = [] := List.drop_length
  rw [next, hsource, advance, ← hsource]

/-- A call passes over samples at which the line does not rise. -/
theorem next_of_quiet {m n : Nat} (hmn : m ≤ n) (hn : n ≤ samples.length)
    (hquiet : ∀ q, m ≤ q → q < n → ¬ Rises policy (samples.map (·.level)) q) :
    (behind channel policy samples m).next = (behind channel policy samples n).next := by
  induction hd : n - m generalizing m with
  | zero =>
    obtain rfl : m = n := by omega
    rfl
  | succ d ih =>
    have hlt : m < samples.length := by omega
    rw [next_behind (List.getElem?_eq_getElem hlt), if_neg (hquiet m (Nat.le_refl m) (by omega))]
    refine ih (by omega) ?_ (by omega)
    intro q hq
    exact hquiet q (by omega)

variable (channel policy)

/-- A call, and what it leaves ahead: the sample of the first position ahead is the last one that
is pulled. -/
theorem next_eq {m : Nat} (hm : m ≤ samples.length) :
    (∀ p ps, risesAhead policy (samples.map (·.level)) m = p :: ps →
      ∃ s, samples[p]? = some s
        ∧ (behind channel policy samples m).next
          = (some ⟨s.timestamp, channel⟩, behind channel policy samples (p + 1))
        ∧ risesAhead policy (samples.map (·.level)) (p + 1) = ps)
    ∧ (risesAhead policy (samples.map (·.level)) m = [] →
      (behind channel policy samples m).next
        = (none, behind channel policy samples samples.length)) := by
  constructor
  · intro p ps hahead
    obtain ⟨hp, hmp, hquiet, hrest⟩ := risesAhead_cons hahead
    have hlt : p < samples.length := by
      have := lt_length_of_rises hp
      rwa [List.length_map] at this
    have hs := List.getElem?_eq_getElem hlt
    refine ⟨samples[p], hs, ?_, hrest⟩
    rw [next_of_quiet hmp (Nat.le_of_lt hlt) hquiet, next_behind hs, if_pos hp]
  · intro hnone
    rw [next_of_quiet hm (Nat.le_refl _) ?_, next_behind_all]
    intro q hmq _ hq
    have hmem := mem_risesAhead_iff.mpr ⟨hq, hmq⟩
    rw [hnone] at hmem
    exact List.not_mem_nil hmem

/-- After some calls the stream stands behind some of its samples, and the positions ahead are
those of the edges that have not been given yet. -/
theorem afterCalls_eq (samples : List Sample) (k : Nat) :
    ∃ m ≤ samples.length,
      (new channel policy samples).afterCalls k = behind channel policy samples m
      ∧ risesAhead policy (samples.map (·.level)) m
        = (risingPositions policy (samples.map (·.level))).drop k := by
  -- the stream stands behind some samples, and the edges ahead of it are those not told yet
  induction k with
  | zero => exact ⟨0, Nat.zero_le _, rfl, risesAhead_zero⟩
  | succ k ih =>
    obtain ⟨m, hm, hstream, hahead⟩ := ih
    obtain ⟨hsome, hnone⟩ := next_eq channel policy hm
    have hnext : (new channel policy samples).afterCalls (k + 1)
        = (behind channel policy samples m).next.2 := by
      rw [← hstream]
      exact Function.iterate_succ_apply' ..
    rw [← List.tail_drop, ← hahead]
    cases h : risesAhead policy (samples.map (·.level)) m with
    | nil =>
      refine ⟨samples.length, Nat.le_refl _, ?_, ?_⟩
      · rw [hnext, hnone h]
      · refine List.eq_nil_iff_forall_not_mem.mpr ?_
        intro p hp
        obtain ⟨hrises, hlength⟩ := mem_risesAhead_iff.mp hp
        have := lt_length_of_rises hrises
        rw [List.length_map] at this
        omega
    | cons p ps =>
      obtain ⟨s, hs, hp, hrest⟩ := hsome p ps h
      refine ⟨p + 1, (List.getElem?_eq_some_iff.mp hs).1, ?_, hrest⟩
      rw [hnext, hp]

end

/-- The calls of a stream, numbered from zero, give the edges of `risingEdges` one after the other.
A call that gives an edge has pulled the samples up to the one that made this edge and no others.
Once there are no more edges, every call gives none, with all samples pulled. -/
theorem call_refines_risingEdges (channel : Channel) (policy : EdgePolicy) (samples : List Sample)
    (k : Nat) :
    (∀ e, (risingEdges channel policy samples)[k]? = some e →
      ∃ p s, (risingPositions policy (samples.map (·.level)))[k]? = some p ∧ samples[p]? = some s
        ∧ e = ⟨s.timestamp, channel⟩
        ∧ (new channel policy samples).call k
          = (some e, behind channel policy samples (p + 1)))
    ∧ ((risingEdges channel policy samples)[k]? = none →
      ∀ j, k ≤ j → (new channel policy samples).call j
        = (none, behind channel policy samples samples.length)) := by
  have hedges := risingEdges_eq channel policy samples
  constructor
  · intro e he
    obtain ⟨m, hm, hstream, hahead⟩ := afterCalls_eq channel policy samples k
    have hk := congrArg (·[k]?) hedges
    simp only [List.getElem?_map, he, Option.map_some] at hk
    obtain ⟨p, hp, hsample⟩ := Option.map_eq_some_iff.mp hk.symm
    obtain ⟨hlt, hget⟩ := List.getElem?_eq_some_iff.mp hp
    rw [List.drop_eq_getElem_cons hlt, hget] at hahead
    obtain ⟨s, hs, hnext, -⟩ := (next_eq channel policy hm).1 p _ hahead
    have he' : e = ⟨s.timestamp, channel⟩ := by
      rw [hs, Option.map_some] at hsample
      exact (Option.some.inj hsample).symm
    refine ⟨p, s, hp, hs, he', ?_⟩
    show ((new channel policy samples).afterCalls k).next = _
    rw [hstream, hnext, he']
  · intro hnone j hkj
    obtain ⟨m, hm, hstream, hahead⟩ := afterCalls_eq channel policy samples j
    have hlength := congrArg List.length hedges
    rw [List.length_map, List.length_map] at hlength
    rw [List.getElem?_eq_none_iff] at hnone
    rw [List.drop_eq_nil_of_le (by omega)] at hahead
    show ((new channel policy samples).afterCalls j).next = _
    rw [hstream, (next_eq channel policy hm).2 hahead]

end EdgeStream

end TriggerLatency
