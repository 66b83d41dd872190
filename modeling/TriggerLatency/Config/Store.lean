import TriggerLatency.Config.Basic
import TriggerLatency.Json.Value
import TriggerLatency.Log

/-!
# Settings on disk

Settings are kept in a file as a pretty JSON object. On reading, a missing field has
its default. Saving makes the directories above the file first.
-/

namespace TriggerLatency

/-- Settings as a JSON object. -/
def Config.toJson (c : Config) : Json.Value :=
  .object [("max_latency_ms", .float c.maxLatencyMs),
    ("timestamp_column", .string c.timestampColumn), ("send_column", .string c.sendColumn),
    ("receive_column", .string c.receiveColumn), ("edge_policy", .string c.edgePolicy.name)]

/-- The settings read so far. -/
structure ConfigDraft where
  maxLatencyMs : Option Float
  timestampColumn : Option String
  sendColumn : Option String
  receiveColumn : Option String
  edgePolicy : Option EdgePolicy

/-- The settings, with the default of each field that was not given. -/
def ConfigDraft.finish (d : ConfigDraft) : Config where
  maxLatencyMs := d.maxLatencyMs.getD ({} : Config).maxLatencyMs
  timestampColumn := d.timestampColumn.getD ({} : Config).timestampColumn
  sendColumn := d.sendColumn.getD ({} : Config).sendColumn
  receiveColumn := d.receiveColumn.getD ({} : Config).receiveColumn
  edgePolicy := d.edgePolicy.getD ({} : Config).edgePolicy

/-- How settings are read. -/
def Config.shape : Json.RecordShape ConfigDraft Config where
  fields := [
    .slot "max_latency_ms" (·.maxLatencyMs) (fun d x => { d with maxLatencyMs := some x })
      Json.readFloat,
    .slot "timestamp_column" (·.timestampColumn) (fun d x => { d with timestampColumn := some x })
      Json.readString,
    .slot "send_column" (·.sendColumn) (fun d x => { d with sendColumn := some x })
      Json.readString,
    .slot "receive_column" (·.receiveColumn) (fun d x => { d with receiveColumn := some x })
      Json.readString,
    .slot "edge_policy" (·.edgePolicy) (fun d x => { d with edgePolicy := some x })
      (Json.readChoice EdgePolicy.names)]
  empty := ⟨none, none, none, none, none⟩
  ofObject d := some d.finish
  ofArray d := some d.finish

/-- Reads settings from their JSON text. -/
def Config.ofJsonText? (text : List Char) : Except Json.Fault Config :=
  Json.readAll (Json.readRecord Config.shape) text

/-- Loads settings from a file: `AnalyzerConfig::load`. -/
def Config.load (t : FileTree) (path : String) : Logged (Except ConfigError Config) :=
  match t.read path with
  | .error f => ⟨.error (.access path f), []⟩
  | .ok bytes =>
    match Text.Utf8.decode? bytes with
    | none => ⟨.error (.access path .notText), []⟩
    | some text =>
      match Config.ofJsonText? text with
      | .error f => ⟨.error (.parse path f), []⟩
      | .ok c => ⟨.ok c, [.configLoaded path]⟩

/-- What saving settings leaves behind. -/
structure SaveResult where
  tree : FileTree
  result : Except ConfigError Unit
  log : List LogEvent

/-- Saves settings to a file: `AnalyzerConfig::save`. -/
def Config.save (c : Config) (t : FileTree) (path : String) : SaveResult :=
  match t.makeParents path with
  | (made, some f) => ⟨made, .error (.access path f), []⟩
  | (made, none) =>
    match made.write path (Text.Utf8.encode c.toJson.pretty) with
    | .error f => ⟨made, .error (.access path f), []⟩
    | .ok saved => ⟨saved, .ok (), [.configSaved path]⟩

end TriggerLatency
