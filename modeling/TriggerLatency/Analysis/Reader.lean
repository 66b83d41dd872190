import TriggerLatency.Analysis.Basic
import TriggerLatency.Report.Reader

/-!
# Events and analyses as JSON

The names of the channels, and trigger events (`TriggerEvent`) and what an analysis found
(`Analysis`), written and read.
-/

namespace TriggerLatency

/-- The names of the channels. -/
def Channel.names : List (String × Channel) := [("send", .send), ("receive", .receive)]

/-- The name of a channel. -/
def Channel.name : Channel → String
  | .send => "send"
  | .receive => "receive"

/-- An event as a JSON object. -/
def Event.toJson (e : Event) : Json.Value :=
  .object [("timestamp", .float e.timestamp), ("channel", .string e.channel.name)]

/-- The fields of an event read so far. -/
structure EventDraft where
  timestamp : Option Float
  channel : Option Channel

/-- The event, once every field is there. -/
def EventDraft.finish (d : EventDraft) : Option Event := do
  return ⟨← d.timestamp, ← d.channel⟩

/-- How an event is read. -/
def Event.shape : Json.RecordShape EventDraft Event where
  fields := [
    .slot "timestamp" (·.timestamp) (fun d x => { d with timestamp := some x }) Json.readFloat,
    .slot "channel" (·.channel) (fun d x => { d with channel := some x })
      (Json.readChoice Channel.names)]
  empty := ⟨none, none⟩
  ofObject := EventDraft.finish
  ofArray := EventDraft.finish

/-- An analysis as a JSON object. -/
def Analysis.toJson (a : Analysis) : Json.Value :=
  .object [("send_events", .nat a.sendEvents), ("receive_events", .nat a.receiveEvents),
    ("outcome", a.outcome.toJson)]

/-- The fields of an analysis read so far. -/
structure AnalysisDraft where
  sendEvents : Option Nat
  receiveEvents : Option Nat
  outcome : Option MatchOutcome

/-- The analysis, once every field is there. -/
def AnalysisDraft.finish (d : AnalysisDraft) : Option Analysis := do
  return ⟨← d.sendEvents, ← d.receiveEvents, ← d.outcome⟩

/-- How an analysis is read. -/
def Analysis.shape : Json.RecordShape AnalysisDraft Analysis where
  fields := [
    .slot "send_events" (·.sendEvents) (fun d x => { d with sendEvents := some x }) Json.readNat,
    .slot "receive_events" (·.receiveEvents) (fun d x => { d with receiveEvents := some x })
      Json.readNat,
    .slot "outcome" (·.outcome) (fun d x => { d with outcome := some x })
      (Json.readRecord MatchOutcome.shape)]
  empty := ⟨none, none, none⟩
  ofObject := AnalysisDraft.finish
  ofArray := AnalysisDraft.finish

end TriggerLatency
