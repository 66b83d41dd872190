import TriggerLatency.Proofs.Double.Sum
import TriggerLatency.Proofs.Matching.Outcome

/-!
# Measurements of any floats

The matcher refuses a slot by two comparisons, neither of which holds where not-a-number is
involved (`Eligible`). So times that are not numbers get through. Nothing else does: of two
numbers that are paired both are finite, the receive event is the later one, and the latency is
positive and within the limit (`pair_causal_of_numbers`).

What an infinite time would slip through is the subtraction, and there it is infinitely far from
every number on its right side (`sub_eq_infinity`), which no limit allows. Times that are finite
may be too far apart for their difference to be so, which no limit allows either, or so near
that it is subnormal, but it does not vanish (`zero_lt_sub`).
-/

namespace TriggerLatency

open Double

/-- A measurement of finite times, the later one for the receive event, and their difference
within the limit. -/
structure Measurement.Sound (maxLatencyMs : Float) (m : Measurement) : Prop where
  sendFinite : m.sendTime.isFinite = true
  receiveFinite : m.receiveTime.isFinite = true
  later : m.sendTime < m.receiveTime
  latency_eq : m.latency = m.receiveTime - m.sendTime
  positive : 0 < m.latency
  le_limit : m.latency ≤ maxLatencyMs

section

variable {limit : LatencyLimit} {s r : Float}

/-- Finite times that fit make a sound measurement. -/
theorem Fits.sound (h : Fits limit s r) (hs : s.isFinite = true) (hr : r.isFinite = true)
    (index : Nat) : (Measurement.ofTimes index s r).Sound limit.ms where
  sendFinite := hs
  receiveFinite := hr
  later := h.1
  latency_eq := rfl
  positive := zero_lt_sub hs hr h.1
  le_limit := h.2

/-- Numbers that are not refused are finite. -/
theorem Eligible.isFinite (h : Eligible limit s r) (hs : s.isNaN = false) (hr : r.isNaN = false) :
    s.isFinite = true ∧ r.isFinite = true := by
  have hlater : s < r := (float_not_le hr hs).mp h.1
  by_contra hout
  have hbeyond : limit.ms < r - s := by
    rw [sub_eq_infinity hlater hout]
    exact lt_infinity limit.finite
  exact h.2 hbeyond

/-- Numbers that are not refused make a sound measurement. -/
theorem Eligible.sound (h : Eligible limit s r) (hs : s.isNaN = false) (hr : r.isNaN = false)
    (index : Nat) : (Measurement.ofTimes index s r).Sound limit.ms := by
  obtain ⟨hsfin, hrfin⟩ := h.isFinite hs hr
  exact Fits.sound ((eligible_iff_fits limit hsfin hrfin).mp h) hsfin hrfin index

variable {κ : Type} {sends receives : List Event} {o : Observer κ} {m : Measurement}

/-- Whatever the times, the two of a measurement are not refused. -/
theorem eligible_of_mem_measurements (hm : m ∈ (pair limit sends receives o).value.measurements) :
    Eligible limit m.sendTime m.receiveTime := by
  obtain ⟨e, b, he, hb, hm⟩ := mem_measurements_pair_iff.mp hm
  have ht : (sends.map (·.timestamp))[m.index]? = some e.timestamp := by
    rw [List.getElem?_map, he, Option.map_some]
  rw [hm]
  exact eligible_of_assign ht hb

theorem eq_ofTimes_of_mem_measurements
    (hm : m ∈ (pair limit sends receives o).value.measurements) :
    m = Measurement.ofTimes m.index m.sendTime m.receiveTime := by
  obtain ⟨e, b, -, -, hm⟩ := mem_measurements_pair_iff.mp hm
  rw [hm]
  rfl

end

/-- Whatever the times of the events, a measurement of two numbers is sound; so an infinite time is
only ever paired with one that is not a number. -/
theorem pair_causal_of_numbers {κ : Type} (limit : LatencyLimit) (sends receives : List Event)
    (o : Observer κ) :
    ∀ m ∈ (pair limit sends receives o).value.measurements,
      (m.sendTime.isNaN = false → m.receiveTime.isNaN = false → m.Sound limit.ms)
      ∧ (m.sendTime.isInf = true → m.receiveTime.isNaN = true)
      ∧ (m.receiveTime.isInf = true → m.sendTime.isNaN = true) := by
  intro m hm
  have heligible := eligible_of_mem_measurements hm
  have hsound : m.sendTime.isNaN = false → m.receiveTime.isNaN = false → m.Sound limit.ms := by
    intro hs hr
    rw [eq_ofTimes_of_mem_measurements hm]
    exact heligible.sound hs hr m.index
  -- two numbers would be finite both, so an infinite time is beside none
  refine ⟨hsound, ?_, ?_⟩
  · intro hinf
    obtain ⟨hs, hnot⟩ := isNaN_and_isFinite_of_isInf hinf
    by_contra hr
    have hfinite := (hsound hs (Bool.eq_false_of_not_eq_true hr)).sendFinite
    exact Bool.false_ne_true (hnot.symm.trans hfinite)
  · intro hinf
    obtain ⟨hr, hnot⟩ := isNaN_and_isFinite_of_isInf hinf
    by_contra hs
    have hfinite := (hsound (Bool.eq_false_of_not_eq_true hs) hr).receiveFinite
    exact Bool.false_ne_true (hnot.symm.trans hfinite)

/-- Times that are not numbers on both channels, an infinite one, and the least positive one: it
alone is paired with a number. -/
theorem pair_causal_of_least_latency :
    let nan : Float := 0 / 0
    let limit : LatencyLimit := ⟨4, by decide +kernel, by decide +kernel⟩
    let sends := [Event.mk nan .send, ⟨0, .send⟩, ⟨2, .send⟩]
    let receives := [Event.mk infinity .receive, ⟨5e-324, .receive⟩, ⟨nan, .receive⟩]
    let w := (pair limit sends receives Observer.silent).value
    w.measurements = [⟨0, nan, infinity, nan⟩, ⟨1, 0, 5e-324, 5e-324⟩, ⟨2, 2, nan, nan⟩]
    ∧ (0 : Float).isNaN = false ∧ (5e-324 : Float).isNaN = false
    ∧ (Measurement.mk 1 0 5e-324 5e-324).Sound 4
    ∧ infinity.isInf = true ∧ nan.isNaN = true := by
  intro nan limit sends receives w
  have hrun : w.measurements
      = [⟨0, nan, infinity, nan⟩, ⟨1, 0, 5e-324, 5e-324⟩, ⟨2, 2, nan, nan⟩] := by
    decide +kernel
  have hcausal := pair_causal_of_numbers limit sends receives Observer.silent
  have hfirst : ⟨0, nan, infinity, nan⟩ ∈ w.measurements := by
    rw [hrun]
    exact List.mem_cons_self ..
  have hsecond : ⟨1, 0, 5e-324, 5e-324⟩ ∈ w.measurements := by
    rw [hrun]
    exact List.mem_cons_of_mem _ (List.mem_cons_self ..)
  have hzero : (0 : Float).isNaN = false := by decide +kernel
  have hleast : (5e-324 : Float).isNaN = false := by decide +kernel
  have hinf : infinity.isInf = true := by decide +kernel
  exact ⟨hrun, hzero, hleast, (hcausal _ hsecond).1 hzero hleast, hinf,
    (hcausal _ hfirst).2.2 hinf⟩

end TriggerLatency
