import TriggerLatency.Matching.Run
import TriggerLatency.Report.Basic

/-!
# Analysis of a recording

An analysis detects the trigger events of both channels and matches them. It needs
checked settings, so an `Analyzer` (`LatencyAnalyzer`) holds a latency limit rather than a
number, and is made from a `Config` only if that is valid.
-/

namespace TriggerLatency

/-- The trigger events of both channels: `DetectedTriggers`. -/
structure Triggers where
  send : List Event
  receive : List Event
  deriving DecidableEq

/-- What a successful analysis finds. -/
structure Analysis where
  /-- How many send events there are. -/
  sendEvents : Nat
  /-- How many receive events there are. -/
  receiveEvents : Nat
  outcome : MatchOutcome
  deriving DecidableEq

/-- The report on an analysis: `Analysis::report`. -/
def Analysis.report (a : Analysis) : Report := Report.ofOutcome a.outcome

/-- Checked settings of an analysis: a `LatencyAnalyzer`. -/
structure Analyzer where
  limit : LatencyLimit
  edgePolicy : EdgePolicy

namespace Analyzer

/-- The analyzer with the given settings, if they are valid: `LatencyAnalyzer::from_config`. -/
def ofConfig (c : Config) : Except ConfigError Analyzer :=
  c.validate.map fun limit => ⟨limit, c.edgePolicy⟩

/-- Detects the trigger events of both channels: `LatencyAnalyzer::detect`. -/
def detect (a : Analyzer) (r : Recording) : Logged Triggers :=
  let t : Triggers :=
    ⟨risingEdges .send a.edgePolicy r.send, risingEdges .receive a.edgePolicy r.receive⟩
  ⟨t, [.triggersDetected t.send.length t.receive.length]⟩

/-- Matches trigger events: `LatencyAnalyzer::analyze_triggers`. -/
def analyzeTriggers {σ : Type} (a : Analyzer) (t : Triggers) (o : Observer σ) :
    Watched σ (Except AnalysisError Analysis) :=
  let w := match? a.limit t.send t.receive o
  match w.value with
  | .error e => ⟨.error e, w.observed, w.log⟩
  | .ok outcome =>
    { value := .ok ⟨t.send.length, t.receive.length, outcome⟩
      observed := w.observed
      log := w.log ++
        [.pairsMatched outcome.measurements.length outcome.unmatched.length a.limit.ms] }

/-- Detects and matches: `LatencyAnalyzer::analyze`. -/
def analyze {σ : Type} (a : Analyzer) (r : Recording) (o : Observer σ) :
    Watched σ (Except AnalysisError Analysis) :=
  let t := a.detect r
  let w := a.analyzeTriggers t.value o
  ⟨w.value, w.observed, t.log ++ w.log⟩

end Analyzer

end TriggerLatency
