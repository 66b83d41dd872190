import TriggerLatency.Decimal.Layout
import TriggerLatency.FileTree.Access
import TriggerLatency.Json.Typed
import TriggerLatency.Matching.Assignment

/-!
# Settings

The settings of an analysis (`AnalyzerConfig`): which columns of a recording to read, how far apart
the events of a pair may be, and what to make of a line that is high from the
start. Settings are checked before anything is read: the two channels must be
different columns, and the latency bound must be finite and positive.
-/

namespace TriggerLatency

/-- The settings of one analysis, an `AnalyzerConfig`, with their defaults. -/
structure Config where
  maxLatencyMs : Float := 300.0
  timestampColumn : String := "Timestamp(ms)"
  sendColumn : String := "D0"
  receiveColumn : String := "D1"
  edgePolicy : EdgePolicy := .seedFromFirstSample
  deriving DecidableEq

/-- What can be wrong with settings or the file that holds them. -/
inductive ConfigError
  | access (path : String) (cause : FileFault)
  | parse (path : String) (cause : Json.Fault)
  | invalidMaxLatency (ms : Float)
  | sameColumn (name : String)
  deriving DecidableEq

/-- What a settings error is about, up to the words of its cause. -/
def ConfigError.headline : ConfigError → String
  | .access path _ => "Failed to access config file " ++ path ++ ": "
  | .parse path _ => "Failed to parse config file " ++ path ++ ": "
  | .invalidMaxLatency ms =>
    "Maximum latency must be a positive number of milliseconds, got "
      ++ Decimal.Layout.message.text ms
  | .sameColumn name =>
    "Send and receive channels must be different columns, both are '" ++ name ++ "'"

/-- The cause of a settings error, where it has one. -/
def ConfigError.cause? : ConfigError → Option String
  | .access _ cause => some cause.message
  | .parse _ cause => some cause.message
  | _ => none

/-- A settings error in words. -/
def ConfigError.message (e : ConfigError) : String := e.headline ++ e.cause?.getD ""

/-- The latency limit of `ms` milliseconds, or the error that `MatchConfig::new` gives. -/
def LatencyLimit.ofMs (ms : Float) : Except ConfigError LatencyLimit :=
  match LatencyLimit.ofMs? ms with
  | some limit => .ok limit
  | none => .error (.invalidMaxLatency ms)

/-- Checks settings and gives the latency limit that they set: `AnalyzerConfig::validate`. -/
def Config.validate (c : Config) : Except ConfigError LatencyLimit :=
  if c.sendColumn = c.receiveColumn then .error (.sameColumn c.sendColumn)
  else LatencyLimit.ofMs c.maxLatencyMs

end TriggerLatency
