import TriggerLatency.Decimal.Layout
import TriggerLatency.Matching.Assignment
import TriggerLatency.Recording.Row

/-!
# Log events

What the library says while it works. Every computation that logs returns its
events as a list, in the order in which they happen; `LogEvent.record` gives each
one its severity, its message and its fields.
-/

namespace TriggerLatency

/-- Something worth telling. -/
inductive LogEvent
  | analysisStarted (version : String) (maxLatencyMs : Float)
  | readingFile (path : String)
  | columnsFound (names : List String)
  | rowSkipped (line : Nat) (fault : RowFault)
  | rowsProcessed (rows : Nat)
  | recordingRead (rowsParsed rowsSkipped : Nat)
  | triggersDetected (sends receives : Nat)
  | latencyMatched (m : Measurement)
  | sendUnmatched (u : UnmatchedSend)
  | matchingFinished (matched unmatched consumed receives : Nat)
  | pairsMatched (matched unmatched : Nat) (maxLatencyMs : Float)
  | configLoaded (path : String)
  | configSaved (path : String)
  | resultsSaved (path : String)
  deriving DecidableEq

/-- How much an event matters. -/
inductive Severity
  | trace
  | debug
  | info
  | warn
  deriving DecidableEq

/-- A severity as logs spell it. -/
def Severity.label : Severity → String
  | .trace => "TRACE"
  | .debug => "DEBUG"
  | .info => "INFO"
  | .warn => "WARN"

/-- Whether an event of some severity is shown; `verbose` shows more. -/
def Severity.isShown (verbose : Bool) : Severity → Bool
  | .trace => false
  | .debug => verbose
  | .info => true
  | .warn => true

/-- The value of a log field. -/
inductive FieldValue
  | count (n : Nat)
  | ms (x : Float)
  | text (s : String)
  deriving DecidableEq

/-- A field value as text. -/
def FieldValue.render : FieldValue → String
  | .count n => toString n
  | .ms x => Decimal.Layout.data.text x
  | .text s => s

/-- A log event as it is written. -/
structure LogRecord where
  severity : Severity
  message : String
  fields : List (String × FieldValue)
  deriving DecidableEq

/-- A log record on one line. -/
def LogRecord.line (r : LogRecord) : String :=
  " ".intercalate (r.severity.label :: r.message :: r.fields.map fun f => f.1 ++ "=" ++ f.2.render)

/-- The written form of an event. -/
def LogEvent.record : LogEvent → LogRecord
  | .analysisStarted version maxLatencyMs =>
    ⟨.info, "Starting analysis", [("version", .text version), ("max_latency_ms", .ms maxLatencyMs)]⟩
  | .readingFile path => ⟨.info, "Parsing CSV file", [("path", .text path)]⟩
  | .columnsFound names =>
    ⟨.info, "Columns found", [("columns", .text (Text.Quoted.quoteList names))]⟩
  | .rowSkipped line fault =>
    ⟨.warn, "Skipping invalid row", [("line", .count line), ("reason", .text fault.message)]⟩
  | .rowsProcessed rows => ⟨.debug, "Processed rows", [("rows", .count rows)]⟩
  | .recordingRead rowsParsed rowsSkipped =>
    ⟨.info, "Successfully parsed data points",
      [("rows_parsed", .count rowsParsed), ("rows_skipped", .count rowsSkipped)]⟩
  | .triggersDetected sends receives =>
    ⟨.info, "Detected trigger events",
      [("tx_triggers", .count sends), ("rx_triggers", .count receives)]⟩
  | .latencyMatched m =>
    ⟨.trace, "latency_matched",
      [("index", .count m.index), ("send_time", .ms m.sendTime),
        ("receive_time", .ms m.receiveTime), ("latency", .ms m.latency)]⟩
  | .sendUnmatched u =>
    ⟨.warn, "No matching RX trigger found for TX trigger",
      [("index", .count u.index), ("send_time_ms", .text (Decimal.fixed 3 u.sendTime))]⟩
  | .matchingFinished matched unmatched consumed receives =>
    ⟨.debug, "matching_finished",
      [("matched", .count matched), ("unmatched", .count unmatched),
        ("receive_consumed", .count consumed), ("receive_total", .count receives)]⟩
  | .pairsMatched matched unmatched maxLatencyMs =>
    ⟨.info, "Successfully matched packet pairs",
      [("matched", .count matched), ("unmatched", .count unmatched),
        ("max_latency_ms", .ms maxLatencyMs)]⟩
  | .configLoaded path => ⟨.info, "Loaded config from disk", [("path", .text path)]⟩
  | .configSaved path => ⟨.info, "Config saved to disk", [("path", .text path)]⟩
  | .resultsSaved path => ⟨.info, "Results saved", [("path", .text path)]⟩

/-- A value together with the events logged while it was computed. -/
structure Logged (α : Type) where
  value : α
  log : List LogEvent

/-- Goes on from a value that was found, and stops at an error; the logs follow one another. -/
def Logged.onSuccess {ε α β : Type} (x : Logged (Except ε α)) (f : α → Logged (Except ε β)) :
    Logged (Except ε β) :=
  match x.value with
  | .error e => ⟨.error e, x.log⟩
  | .ok a =>
    let y := f a
    ⟨y.value, x.log ++ y.log⟩

/-- Says the error of a computation in other terms. -/
def Logged.mapError {ε δ α : Type} (f : ε → δ) (x : Logged (Except ε α)) : Logged (Except δ α) :=
  ⟨x.value.mapError f, x.log⟩

end TriggerLatency
