import TriggerLatency.Log

/-!
# Matching runs

The matcher (`TriggerMatcher`) prints nothing. It shows each verdict to an observer, which
keeps a state of its own and may add events to the log.

`pair` pairs the events of the two channels and never fails. `match?` is the run of
an analysis: it refuses a channel without events before any matching takes place,
and refuses an outcome without a single pair.
-/

namespace TriggerLatency

/-! ## Observers -/

/-- Someone who is shown every verdict of a run, in order: a `MatchObserver`. -/
structure Observer (σ : Type) where
  /-- What the observer knows before the run. -/
  initial : σ
  /-- What it knows after one more verdict. -/
  observe : σ → Verdict → σ
  /-- What it logs on a verdict. -/
  report : Verdict → List LogEvent

namespace Observer

/-- Ignores everything: the `NoopObserver`. -/
def silent : Observer Unit where
  initial := ()
  observe _ _ := ()
  report _ := []

/-- Warns of every send event without a partner: the `TracingObserver`. -/
def warning : Observer Unit where
  initial := ()
  observe _ _ := ()
  report
    | .matched _ => []
    | .unmatched u => [.sendUnmatched u]

/-- The state of an observer after some verdicts. -/
def after {σ : Type} (o : Observer σ) (verdicts : List Verdict) : σ :=
  verdicts.foldl o.observe o.initial

end Observer

/-- What a collecting observer has seen: how many matches, and which sends went without. -/
structure Collected where
  matched : Nat
  unmatched : List UnmatchedSend
  deriving DecidableEq

/-- Counts the matches and keeps the unmatched sends: the `CollectingObserver`. -/
def Observer.collecting : Observer Collected where
  initial := ⟨0, []⟩
  observe c
    | .matched _ => { c with matched := c.matched + 1 }
    | .unmatched u => { c with unmatched := c.unmatched ++ [u] }
  report _ := []

/-! ## Runs -/

/-- Why an analysis ends without an outcome. -/
inductive AnalysisError
  | emptyChannel (channel : Channel)
  | noValidPairs (sends receives : Nat) (maxLatencyMs : Float)
  deriving DecidableEq

/-- An analysis error in words. -/
def AnalysisError.message : AnalysisError → String
  | .emptyChannel channel =>
    "No trigger events found on the " ++ channel.label ++ " channel (edge detection stage)"
  | .noValidPairs sends receives maxLatencyMs =>
    "No valid latency measurements could be calculated (matching stage): "
      ++ toString sends ++ " TX and " ++ toString receives
      ++ " RX triggers, none within " ++ Decimal.Layout.message.text maxLatencyMs ++ " ms"

/-- The result of a run, what the observer knows after it, and the log. -/
structure Watched (σ α : Type) where
  value : α
  observed : σ
  log : List LogEvent

/-- What is logged on one verdict: the trace of a match, then whatever the observer adds. -/
def verdictLog {σ : Type} (o : Observer σ) (v : Verdict) : List LogEvent :=
  (match v with
    | .matched m => [.latencyMatched m]
    | .unmatched _ => []) ++ o.report v

/-- Pairs send events with receive events: `TriggerMatcher::pair`. -/
def pair {σ : Type} (limit : LatencyLimit) (sends receives : List Event) (o : Observer σ) :
    Watched σ MatchOutcome :=
  let p := Pairing.ofTimes limit (sends.map (·.timestamp)) (receives.map (·.timestamp))
  let outcome := MatchOutcome.ofVerdicts p.verdicts
  { value := outcome
    observed := o.after p.verdicts
    log := p.verdicts.flatMap (verdictLog o)
      ++ [.matchingFinished outcome.measurements.length outcome.unmatched.length
        (receives.length - p.leftOpen.length) receives.length] }

/-- Pairs send events with receive events, unless a channel is empty or nothing can be paired:
`TriggerMatcher::run`. -/
def match? {σ : Type} (limit : LatencyLimit) (sends receives : List Event) (o : Observer σ) :
    Watched σ (Except AnalysisError MatchOutcome) :=
  if sends = [] then ⟨.error (.emptyChannel .send), o.initial, []⟩
  else if receives = [] then ⟨.error (.emptyChannel .receive), o.initial, []⟩
  else
    let w := pair limit sends receives o
    let value := if w.value.measurements = [] then
        .error (.noValidPairs sends.length receives.length limit.ms)
      else .ok w.value
    ⟨value, w.observed, w.log⟩

end TriggerLatency
