import TriggerLatency.Analysis.Basic
import TriggerLatency.Proofs.Except
import TriggerLatency.Proofs.Json.Record
import TriggerLatency.Report.Markdown
import TriggerLatency.Report.Reader

/-!
# Reading a report back

The reader of a report never sees anything but what the writer wrote for its parts, so
what it makes of the text can be said without the text: every float is read back by itself
(`Json.reread`), counts are read as they are if they fit into 64 bits
(`Report.IsCounted`), and the first float that cannot be read decides the fault. That is
`Report.reread`, and `Report.ofJsonText?_render` says that it is what the JSON text of a
report reads as, layout and all.

Nothing is lost but digits: a report reads as itself exactly if all of its floats do
(`Report.reread_eq_ok_iff`).
-/

namespace TriggerLatency

open Json

/-- What is read back for a measurement. -/
def Measurement.reread (m : Measurement) : Except Fault Measurement := do
  return ⟨m.index, ← Json.reread m.sendTime, ← Json.reread m.receiveTime, ← Json.reread m.latency⟩

/-- What is read back for an unmatched send. -/
def UnmatchedSend.reread (u : UnmatchedSend) : Except Fault UnmatchedSend := do
  return ⟨u.index, ← Json.reread u.sendTime⟩

/-- What is read back for a summary. -/
def Summary.reread (s : Summary) : Except Fault Summary := do
  return ⟨s.count, ← Json.reread s.mean, ← Json.reread s.min, ← Json.reread s.max⟩

/-- The summary that is read back, if there is one. -/
def Report.rereadSummary (r : Report) : Except Fault (Option Summary) :=
  match r.summary with
  | some s => s.reread.map some
  | none => .ok none

/-- What is read back for a report: the first number that cannot be read decides the fault. -/
def Report.reread (r : Report) : Except Fault Report := do
  return ⟨← r.rereadSummary, ← r.measurements.mapM Measurement.reread,
    ← r.unmatched.mapM UnmatchedSend.reread⟩

section

variable {sp : Spacing} {depth : Nat}

theorem reads_unmatched (hsp : sp.IsBlank) {u : UnmatchedSend} (hindex : u.index < 2 ^ 64) :
    Reads (readRecord UnmatchedSend.shape) (u.toJson.chars sp depth) u.reread := by
  have hmembers : ReadsMembers sp (depth + 1) UnmatchedSend.shape.fields UnmatchedSend.shape.empty
      [("index", .nat u.index), ("send_time", .float u.sendTime)]
      (do
        let index ← .ok u.index
        let sendTime ← Json.reread u.sendTime
        .ok ⟨some index, some sendTime⟩) :=
    .slot rfl rfl (reads_natValue hindex) fun _ _ =>
      .slot rfl rfl (reads_floatValue u.sendTime) fun _ _ => .nil _
  have hread := reads_record hsp hmembers
  unfold UnmatchedSend.reread
  cases hs : Json.reread u.sendTime <;> rw [hs] at hread <;> exact hread

theorem reads_measurement (hsp : sp.IsBlank) {m : Measurement} (hindex : m.index < 2 ^ 64) :
    Reads (readRecord Measurement.shape) (m.toJson.chars sp depth) m.reread := by
  have hmembers : ReadsMembers sp (depth + 1) Measurement.shape.fields Measurement.shape.empty
      [("index", .nat m.index), ("send_time", .float m.sendTime),
        ("receive_time", .float m.receiveTime), ("latency", .float m.latency)]
      (do
        let index ← .ok m.index
        let sendTime ← Json.reread m.sendTime
        let receiveTime ← Json.reread m.receiveTime
        let latency ← Json.reread m.latency
        .ok ⟨some index, some sendTime, some receiveTime, some latency⟩) :=
    .slot rfl rfl (reads_natValue hindex) fun _ _ =>
      .slot rfl rfl (reads_floatValue m.sendTime) fun _ _ =>
      .slot rfl rfl (reads_floatValue m.receiveTime) fun _ _ =>
      .slot rfl rfl (reads_floatValue m.latency) fun _ _ => .nil _
  have hread := reads_record hsp hmembers
  unfold Measurement.reread
  cases hs : Json.reread m.sendTime <;> cases hr : Json.reread m.receiveTime <;>
    cases hl : Json.reread m.latency <;> rw [hs, hr, hl] at hread <;> exact hread

theorem reads_summary (hsp : sp.IsBlank) {s : Summary} (hcount : s.count < 2 ^ 64) :
    Reads (readRecord Summary.shape) (s.toJson.chars sp depth) s.reread := by
  have hmembers : ReadsMembers sp (depth + 1) Summary.shape.fields Summary.shape.empty
      [("count", .nat s.count), ("mean", .float s.mean), ("min", .float s.min),
        ("max", .float s.max)]
      (do
        let count ← .ok s.count
        let mean ← Json.reread s.mean
        let min ← Json.reread s.min
        let max ← Json.reread s.max
        .ok ⟨some count, some mean, some min, some max⟩) :=
    .slot rfl rfl (reads_natValue hcount) fun _ _ =>
      .slot rfl rfl (reads_floatValue s.mean) fun _ _ =>
      .slot rfl rfl (reads_floatValue s.min) fun _ _ =>
      .slot rfl rfl (reads_floatValue s.max) fun _ _ => .nil _
  have hread := reads_record hsp hmembers
  unfold Summary.reread
  cases hmean : Json.reread s.mean <;> cases hmin : Json.reread s.min <;>
    cases hmax : Json.reread s.max <;> rw [hmean, hmin, hmax] at hread <;> exact hread

/-- The counts of a report fit into 64 bits. -/
structure Report.IsCounted (r : Report) : Prop where
  summary : ∀ s, r.summary = some s → s.count < 2 ^ 64
  measurements : ∀ m ∈ r.measurements, m.index < 2 ^ 64
  unmatched : ∀ u ∈ r.unmatched, u.index < 2 ^ 64

theorem reads_optionalSummary (hsp : sp.IsBlank) {r : Report} (hr : r.IsCounted) :
    Reads (readOption (readRecord Summary.shape))
      ((match r.summary with
        | some s => s.toJson
        | none => .null).chars sp depth) r.rereadSummary := by
  unfold Report.rereadSummary
  cases hs : r.summary with
  | none =>
    dsimp only
    rw [Value.chars]
    exact reads_null
  | some s =>
    have hread : Reads (readRecord Summary.shape) (s.toJson.chars sp depth) s.reread :=
      reads_summary hsp (hr.summary s hs)
    obtain ⟨cs, hcs⟩ : ∃ cs, s.toJson.chars sp depth = '\x7b' :: cs :=
      ⟨_, by rw [Summary.toJson, Value.chars]⟩
    dsimp only
    rw [hcs] at hread ⊢
    exact hread.some rfl (by decide)

/-- A report is read part by part. -/
theorem reads_report (hsp : sp.IsBlank) {r : Report} (hr : r.IsCounted) :
    Reads (readRecord Report.shape) (r.toJson.chars sp depth) r.reread := by
  have hmembers : ReadsMembers sp (depth + 1) Report.shape.fields Report.shape.empty
      [("summary", match r.summary with
        | some s => s.toJson
        | none => .null),
        ("measurements", .array (r.measurements.map Measurement.toJson)),
        ("unmatched", .array (r.unmatched.map UnmatchedSend.toJson))]
      (do
        let summary ← r.rereadSummary
        let measurements ← r.measurements.mapM Measurement.reread
        let unmatched ← r.unmatched.mapM UnmatchedSend.reread
        .ok ⟨some summary, some measurements, some unmatched⟩) :=
    .slot rfl rfl (reads_optionalSummary hsp hr) fun _ _ =>
      .slot rfl rfl (reads_list hsp fun m hm => reads_measurement hsp (hr.measurements m hm))
        fun _ _ => .slot rfl rfl
          (reads_list hsp fun u hu => reads_unmatched hsp (hr.unmatched u hu)) fun _ _ => .nil _
  have hread := reads_record hsp hmembers
  unfold Report.reread
  cases hs : r.rereadSummary <;> cases hm : r.measurements.mapM Measurement.reread <;>
    cases hu : r.unmatched.mapM UnmatchedSend.reread <;> rw [hs, hm, hu] at hread <;> exact hread

/-- The JSON text of a report reads as what is read back for it. -/
theorem Report.ofJsonText?_render {r : Report} (hr : r.IsCounted) :
    Report.ofJsonText? (r.render .json) = r.reread := by
  have htext : (r.render .json).toList = r.toJson.chars .pretty 0 := by
    simp [Report.render, Value.pretty]
  rw [Report.ofJsonText?, htext]
  exact (reads_report Spacing.isBlank_pretty hr).readAll_eq

end

/-! ## Which reports survive -/

/-- The floats of a report. -/
def Report.floats (r : Report) : List Float :=
  (r.summary.toList.flatMap fun s => [s.mean, s.min, s.max])
    ++ (r.measurements.flatMap fun m => [m.sendTime, m.receiveTime, m.latency])
    ++ r.unmatched.map (·.sendTime)

theorem UnmatchedSend.reread_eq_ok_iff (u : UnmatchedSend) :
    u.reread = .ok u ↔ Json.reread u.sendTime = .ok u.sendTime := by
  unfold UnmatchedSend.reread
  constructor
  · intro h
    obtain ⟨t, ht, h⟩ := exists_of_bind_eq_ok h
    obtain rfl : t = u.sendTime := congrArg (·.sendTime) (Except.ok.inj h)
    exact ht
  · intro ht
    rw [ht]
    rfl

theorem Measurement.reread_eq_ok_iff (m : Measurement) :
    m.reread = .ok m ↔ ∀ x ∈ [m.sendTime, m.receiveTime, m.latency], Json.reread x = .ok x := by
  unfold Measurement.reread
  constructor
  · intro h
    obtain ⟨s, hs, h⟩ := exists_of_bind_eq_ok h
    obtain ⟨r, hr, h⟩ := exists_of_bind_eq_ok h
    obtain ⟨l, hl, h⟩ := exists_of_bind_eq_ok h
    have hm : Measurement.mk m.index s r l = m := Except.ok.inj h
    rw [← hm] at hs hr hl ⊢
    simpa using ⟨hs, hr, hl⟩
  · intro h
    rw [h m.sendTime (by simp), h m.receiveTime (by simp), h m.latency (by simp)]
    rfl

theorem Summary.reread_eq_ok_iff (s : Summary) :
    s.reread = .ok s ↔ ∀ x ∈ [s.mean, s.min, s.max], Json.reread x = .ok x := by
  unfold Summary.reread
  constructor
  · intro h
    obtain ⟨mean, hmean, h⟩ := exists_of_bind_eq_ok h
    obtain ⟨min, hmin, h⟩ := exists_of_bind_eq_ok h
    obtain ⟨max, hmax, h⟩ := exists_of_bind_eq_ok h
    have hs : Summary.mk s.count mean min max = s := Except.ok.inj h
    rw [← hs] at hmean hmin hmax ⊢
    simpa using ⟨hmean, hmin, hmax⟩
  · intro h
    rw [h s.mean (by simp), h s.min (by simp), h s.max (by simp)]
    rfl

theorem Report.rereadSummary_eq_ok_iff (r : Report) :
    r.rereadSummary = .ok r.summary
      ↔ ∀ x ∈ r.summary.toList.flatMap fun s => [s.mean, s.min, s.max], Json.reread x = .ok x := by
  unfold Report.rereadSummary
  cases r.summary with
  | none => exact ⟨fun _ _ hx => absurd hx List.not_mem_nil, fun _ => rfl⟩
  | some s =>
    rw [Option.toList_some, List.flatMap_singleton, ← s.reread_eq_ok_iff]
    exact map_some_eq_ok_iff

/-- A report reads as itself exactly if all of its floats do. -/
theorem Report.reread_eq_ok_iff (r : Report) :
    r.reread = .ok r ↔ ∀ x ∈ r.floats, Json.reread x = .ok x := by
  have hmeasurements : r.measurements.mapM Measurement.reread = .ok r.measurements
      ↔ ∀ x ∈ r.measurements.flatMap fun m => [m.sendTime, m.receiveTime, m.latency],
        Json.reread x = .ok x := by
    rw [mapM_eq_ok_iff, List.forall_mem_flatMap]
    exact forall_congr' fun m => imp_congr_right fun _ => m.reread_eq_ok_iff
  have hunmatched : r.unmatched.mapM UnmatchedSend.reread = .ok r.unmatched
      ↔ ∀ x ∈ r.unmatched.map (·.sendTime), Json.reread x = .ok x := by
    rw [mapM_eq_ok_iff, List.forall_mem_map]
    exact forall_congr' fun u => imp_congr_right fun _ => u.reread_eq_ok_iff
  rw [Report.floats, List.forall_mem_append, List.forall_mem_append, ← r.rereadSummary_eq_ok_iff,
    ← hmeasurements, ← hunmatched]
  unfold Report.reread
  constructor
  · intro h
    obtain ⟨summary, hs, h⟩ := exists_of_bind_eq_ok h
    obtain ⟨measurements, hm, h⟩ := exists_of_bind_eq_ok h
    obtain ⟨unmatched, hu, h⟩ := exists_of_bind_eq_ok h
    obtain rfl : Report.mk summary measurements unmatched = r := Except.ok.inj h
    exact ⟨⟨hs, hm⟩, hu⟩
  · rintro ⟨⟨hs, hm⟩, hu⟩
    rw [hs, hm, hu]
    rfl

end TriggerLatency
