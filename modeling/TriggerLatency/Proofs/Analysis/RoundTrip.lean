import TriggerLatency.Proofs.Analysis.Soundness
import TriggerLatency.Proofs.Report.RoundTrip

/-!
# The report on an analysis, read back

A report counts no further than there are sends (`Report.isCounted_of_pair`), so its counts
are read as they are. Its floats decide: the JSON text of the report on an analysis reads as
that report exactly if the reader finds every one of its floats again
(`ofJsonText?_render_report_iff`). It need not, as a send time of sixteen digits shows
(`ofJsonText?_render_report_longDigits`).
-/

namespace TriggerLatency

/-! ## Counts -/

theorem length_risingEdges_le (channel : Channel) (policy : EdgePolicy) (samples : List Sample) :
    (risingEdges channel policy samples).length ≤ samples.length := by
  unfold risingEdges Detector.processBuffer
  refine (List.length_filterMap_le _ _).trans_eq ?_
  exact Transducer.length_run ..

/-- The report on a matching run counts no further than there are sends. -/
theorem Report.isCounted_of_pair {κ : Type} {limit : LatencyLimit} {sends receives : List Event}
    {o : Observer κ} (hsize : sends.length < 2 ^ 64) :
    (Report.ofOutcome (pair limit sends receives o).value).IsCounted := by
  refine ⟨?_, ?_, ?_⟩
  · intro s hs
    have hcount := Summary.count_of_ofLatencies hs
    rw [List.length_map, length_measurements_pair] at hcount
    have hle : (taken limit sends receives).countP Option.isSome ≤ sends.length :=
      List.countP_le_length.trans_eq length_taken
    omega
  · intro m hm
    obtain ⟨e, b, he, -, -⟩ := (mem_measurements_pair_iff (o := o)).mp hm
    have hlt := (List.getElem?_eq_some_iff.mp he).1
    omega
  · intro u hu
    obtain ⟨e, he, -, -⟩ := (mem_unmatched_pair_iff (o := o)).mp hu
    have hlt := (List.getElem?_eq_some_iff.mp he).1
    omega

/-! ## The report -/

/-- The report on an analysis survives its JSON text exactly if every float of it does. Positions
are counted in 64 bits, and no recording has more samples than that. -/
theorem ofJsonText?_render_report_iff {κ : Type} {a : Analyzer} {recording : Recording}
    {o : Observer κ} {analysis : Analysis} (hsize : recording.send.length < 2 ^ 64)
    (hanalysis : (a.analyze recording o).value = .ok analysis) :
    Report.ofJsonText? (analysis.report.render .json) = .ok analysis.report
      ↔ ∀ x ∈ analysis.report.floats, Json.reread x = .ok x := by
  obtain ⟨hpair, -⟩ := Analyzer.pair_of_analyze hanalysis
  have hsends := length_risingEdges_le .send a.edgePolicy recording.send
  have hcounted : analysis.report.IsCounted := by
    rw [Analysis.report, ← hpair]
    exact Report.isCounted_of_pair (by omega)
  rw [Report.ofJsonText?_render hcounted, Report.reread_eq_ok_iff]

/-- An analyzer with the default settings. -/
def defaultAnalyzer : Analyzer :=
  ⟨⟨300, by decide +kernel, by decide +kernel⟩, .seedFromFirstSample⟩

/-- Two packets at times of few digits, of which only the first arrives. -/
def lostPacket : Recording :=
  ⟨[⟨0, .low⟩, ⟨1.1, .high⟩, ⟨2, .low⟩, ⟨7.7, .high⟩],
    [⟨0, .low⟩, ⟨1, .low⟩, ⟨3.5, .high⟩, ⟨8, .high⟩], 4, 0⟩

/-- The report on them survives. -/
theorem ofJsonText?_render_report_lostPacket :
    lostPacket.send.length < 2 ^ 64
    ∧ (defaultAnalyzer.analyze lostPacket Observer.silent).value
      = .ok ⟨2, 1, ⟨[⟨0, 1.1, 3.5, 2.4⟩], [⟨1, 7.7⟩]⟩⟩
    ∧ Report.ofJsonText? ((Report.ofOutcome ⟨[⟨0, 1.1, 3.5, 2.4⟩], [⟨1, 7.7⟩]⟩).render .json)
      = .ok (Report.ofOutcome ⟨[⟨0, 1.1, 3.5, 2.4⟩], [⟨1, 7.7⟩]⟩) := by
  have hsize : lostPacket.send.length < 2 ^ 64 := by decide
  have hanalysis : (defaultAnalyzer.analyze lostPacket Observer.silent).value
      = .ok ⟨2, 1, ⟨[⟨0, 1.1, 3.5, 2.4⟩], [⟨1, 7.7⟩]⟩⟩ := by decide +kernel
  exact ⟨hsize, hanalysis, (ofJsonText?_render_report_iff hsize hanalysis).mpr (by decide +kernel)⟩

/-- A packet whose send time takes sixteen digits. -/
def longDigits : Recording :=
  ⟨[⟨0, .low⟩, ⟨916.3453718085519, .high⟩], [⟨0, .low⟩, ⟨917, .high⟩], 2, 0⟩

/-- The report on it does not survive: the send time is read back as the next float. -/
theorem ofJsonText?_render_report_longDigits :
    ∃ analysis, (defaultAnalyzer.analyze longDigits Observer.silent).value = .ok analysis
      ∧ analysis.report.measurements = [⟨0, 916.3453718085519, 917, 0.6546281914480687⟩]
      ∧ Report.ofJsonText? (analysis.report.render .json) = .ok { analysis.report with
          measurements := [⟨0, 916.345371808552, 917, 0.6546281914480687⟩] }
      ∧ Report.ofJsonText? (analysis.report.render .json) ≠ .ok analysis.report := by
  have hanalysis : (defaultAnalyzer.analyze longDigits Observer.silent).value
      = .ok ⟨1, 1, ⟨[⟨0, 916.3453718085519, 917, 0.6546281914480687⟩], []⟩⟩ := by decide +kernel
  have hcounted : (Report.ofOutcome
      ⟨[⟨0, 916.3453718085519, 917, 0.6546281914480687⟩], []⟩).IsCounted :=
    ⟨by decide +kernel, by decide, by decide⟩
  refine ⟨_, hanalysis, rfl, ?_, ?_⟩
  · rw [Analysis.report, Report.ofJsonText?_render hcounted]
    decide +kernel
  · rw [Analysis.report, Report.ofJsonText?_render hcounted]
    decide +kernel

end TriggerLatency
