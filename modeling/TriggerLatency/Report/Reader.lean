import TriggerLatency.Report.Basic
import TriggerLatency.Json.Typed

/-!
# Reading reports back

How the records of a report are read from JSON. A report may lack its summary when it
is read from an object; every other field must be there.
-/

namespace TriggerLatency

/-- The fields of a measurement read so far. -/
structure MeasurementDraft where
  index : Option Nat
  sendTime : Option Float
  receiveTime : Option Float
  latency : Option Float

/-- The measurement, once every field is there. -/
def MeasurementDraft.finish (d : MeasurementDraft) : Option Measurement := do
  return ⟨← d.index, ← d.sendTime, ← d.receiveTime, ← d.latency⟩

/-- How a measurement is read. -/
def Measurement.shape : Json.RecordShape MeasurementDraft Measurement where
  fields := [
    .slot "index" (·.index) (fun d x => { d with index := some x }) Json.readNat,
    .slot "send_time" (·.sendTime) (fun d x => { d with sendTime := some x }) Json.readFloat,
    .slot "receive_time" (·.receiveTime) (fun d x => { d with receiveTime := some x })
      Json.readFloat,
    .slot "latency" (·.latency) (fun d x => { d with latency := some x }) Json.readFloat]
  empty := ⟨none, none, none, none⟩
  ofObject := MeasurementDraft.finish
  ofArray := MeasurementDraft.finish

/-- The fields of an unmatched send read so far. -/
structure UnmatchedDraft where
  index : Option Nat
  sendTime : Option Float

/-- The unmatched send, once every field is there. -/
def UnmatchedDraft.finish (d : UnmatchedDraft) : Option UnmatchedSend := do
  return ⟨← d.index, ← d.sendTime⟩

/-- How an unmatched send is read. -/
def UnmatchedSend.shape : Json.RecordShape UnmatchedDraft UnmatchedSend where
  fields := [
    .slot "index" (·.index) (fun d x => { d with index := some x }) Json.readNat,
    .slot "send_time" (·.sendTime) (fun d x => { d with sendTime := some x }) Json.readFloat]
  empty := ⟨none, none⟩
  ofObject := UnmatchedDraft.finish
  ofArray := UnmatchedDraft.finish

/-- The fields of a summary read so far. -/
structure SummaryDraft where
  count : Option Nat
  mean : Option Float
  min : Option Float
  max : Option Float

/-- The summary, once every field is there. -/
def SummaryDraft.finish (d : SummaryDraft) : Option Summary := do
  return ⟨← d.count, ← d.mean, ← d.min, ← d.max⟩

/-- How a summary is read. -/
def Summary.shape : Json.RecordShape SummaryDraft Summary where
  fields := [
    .slot "count" (·.count) (fun d x => { d with count := some x }) Json.readNat,
    .slot "mean" (·.mean) (fun d x => { d with mean := some x }) Json.readFloat,
    .slot "min" (·.min) (fun d x => { d with min := some x }) Json.readFloat,
    .slot "max" (·.max) (fun d x => { d with max := some x }) Json.readFloat]
  empty := ⟨none, none, none, none⟩
  ofObject := SummaryDraft.finish
  ofArray := SummaryDraft.finish

/-- The fields of an outcome read so far. -/
structure OutcomeDraft where
  measurements : Option (List Measurement)
  unmatched : Option (List UnmatchedSend)

/-- The outcome, once every field is there. -/
def OutcomeDraft.finish (d : OutcomeDraft) : Option MatchOutcome := do
  return ⟨← d.measurements, ← d.unmatched⟩

/-- How an outcome is read. -/
def MatchOutcome.shape : Json.RecordShape OutcomeDraft MatchOutcome where
  fields := [
    .slot "measurements" (·.measurements) (fun d x => { d with measurements := some x })
      (Json.readList (Json.readRecord Measurement.shape)),
    .slot "unmatched" (·.unmatched) (fun d x => { d with unmatched := some x })
      (Json.readList (Json.readRecord UnmatchedSend.shape))]
  empty := ⟨none, none⟩
  ofObject := OutcomeDraft.finish
  ofArray := OutcomeDraft.finish

/-- The fields of a report read so far. -/
structure ReportDraft where
  summary : Option (Option Summary)
  measurements : Option (List Measurement)
  unmatched : Option (List UnmatchedSend)

/-- How a report is read. -/
def Report.shape : Json.RecordShape ReportDraft Report where
  fields := [
    .slot "summary" (·.summary) (fun d x => { d with summary := some x })
      (Json.readOption (Json.readRecord Summary.shape)),
    .slot "measurements" (·.measurements) (fun d x => { d with measurements := some x })
      (Json.readList (Json.readRecord Measurement.shape)),
    .slot "unmatched" (·.unmatched) (fun d x => { d with unmatched := some x })
      (Json.readList (Json.readRecord UnmatchedSend.shape))]
  empty := ⟨none, none, none⟩
  ofObject d := do return ⟨d.summary.getD none, ← d.measurements, ← d.unmatched⟩
  ofArray d := do return ⟨← d.summary, ← d.measurements, ← d.unmatched⟩

/-- The names of the report formats. -/
def ReportFormat.names : List (String × ReportFormat) :=
  [("markdown", .markdown), ("json", .json)]

/-- The name of a report format. -/
def ReportFormat.name : ReportFormat → String
  | .markdown => "markdown"
  | .json => "json"

/-- Reads a report from its JSON text. -/
def Report.ofJsonText? (text : String) : Except Json.Fault Report :=
  Json.readAll (Json.readRecord Report.shape) text.toList

end TriggerLatency
