import TriggerLatency.FileTree.Access
import TriggerLatency.Json.Value
import TriggerLatency.Log
import TriggerLatency.Summary

/-!
# Reports

A report (`LatencyReport`) holds the summary statistics of a run, its measurements and its
unmatched sends. It is written as markdown for people (`Report.Markdown`) or as JSON for
programs.

A rendered report is printed (`print_report`) or saved (`save_report`). Printed markdown
stands in a frame, so that it can be found among other output; printed JSON stands bare, so
that it can be piped.
-/

namespace TriggerLatency

/-- What a run found, ready to be written. The summary is absent exactly when it was made from
no measurements. -/
structure Report where
  summary : Option Summary
  measurements : List Measurement
  unmatched : List UnmatchedSend
  deriving DecidableEq

/-- The form in which a report is written. -/
inductive ReportFormat
  | markdown
  | json
  deriving DecidableEq

/-- A summary as a JSON object. -/
def Summary.toJson (s : Summary) : Json.Value :=
  .object [("count", .nat s.count), ("mean", .float s.mean), ("min", .float s.min),
    ("max", .float s.max)]

/-- A measurement as a JSON object. -/
def Measurement.toJson (m : Measurement) : Json.Value :=
  .object [("index", .nat m.index), ("send_time", .float m.sendTime),
    ("receive_time", .float m.receiveTime), ("latency", .float m.latency)]

/-- An unmatched send as a JSON object. -/
def UnmatchedSend.toJson (u : UnmatchedSend) : Json.Value :=
  .object [("index", .nat u.index), ("send_time", .float u.sendTime)]

/-- An outcome as a JSON object. -/
def MatchOutcome.toJson (o : MatchOutcome) : Json.Value :=
  .object [("measurements", .array (o.measurements.map Measurement.toJson)),
    ("unmatched", .array (o.unmatched.map UnmatchedSend.toJson))]

namespace Report

/-- The report on a list of measurements and a list of unmatched sends: `LatencyReport::new`. -/
def ofLists (measurements : List Measurement) (unmatched : List UnmatchedSend) : Report :=
  ⟨Summary.ofMeasurements measurements, measurements, unmatched⟩

/-- The report on an outcome: `LatencyReport::from_outcome`. -/
def ofOutcome (o : MatchOutcome) : Report := ofLists o.measurements o.unmatched

/-- Whether there is nothing to report. -/
def isEmpty (r : Report) : Bool := r.measurements.isEmpty

/-- A report as a JSON object. -/
def toJson (r : Report) : Json.Value :=
  .object [("summary", match r.summary with
      | some s => s.toJson
      | none => .null),
    ("measurements", .array (r.measurements.map Measurement.toJson)),
    ("unmatched", .array (r.unmatched.map UnmatchedSend.toJson))]

end Report

/-! ## Where a report goes -/

/-- The rule of the frame. -/
def frameRule : String := String.ofList (List.replicate 80 '=')

/-- A rendered report as it is printed. -/
def ReportFormat.printed (format : ReportFormat) (text : String) : String :=
  match format with
  | .markdown =>
    String.join (["", frameRule, "MARKDOWN TABLE OUTPUT", frameRule, text, frameRule].map
      (· ++ "\n"))
  | .json => text ++ "\n"

/-- Somewhere bytes are written. -/
structure ByteSink where
  /-- How many bytes it takes before it fails, and why it fails then; `none` if it takes all. -/
  bound : Option (Nat × String)
  deriving DecidableEq

/-- Writes bytes to a sink: those it takes, and why it failed if it did. -/
def ByteSink.write (s : ByteSink) (bytes : List UInt8) : List UInt8 × Option String :=
  match s.bound with
  | none => (bytes, none)
  | some (room, cause) =>
    if bytes.length ≤ room then (bytes, none) else (bytes.take room, some cause)

/-- Prints a rendered report: `print_report`. -/
def ByteSink.print (s : ByteSink) (format : ReportFormat) (text : String) :
    List UInt8 × Option String :=
  s.write (Text.Utf8.encode (format.printed text))

/-- Saves a rendered report to a file: `save_report`. -/
def saveReport (t : FileTree) (path text : String) : Logged (Except FileFault FileTree) :=
  match t.write path (Text.Utf8.encode text) with
  | .error f => ⟨.error f, []⟩
  | .ok t => ⟨.ok t, [.resultsSaved path]⟩

end TriggerLatency
