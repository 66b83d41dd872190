import TriggerLatency.Matching.Assignment

/-!
# Summary statistics

Count, mean, least and greatest of the latencies of a run (`LatencySummary`). Latencies are
recorded one by one (`SummaryAccumulator`), and the sum is taken in that order. The least and
the greatest start from the ends of the finite range and pass over not-a-number.
-/

namespace TriggerLatency

/-- Aggregate statistics of at least one latency: a `LatencySummary`. -/
structure Summary where
  count : Nat
  mean : Float
  min : Float
  max : Float
  deriving DecidableEq

/-- The greatest finite float. -/
def greatestFinite : Float := Float.ofScientific 17976931348623157 false 292

/-- The lesser of two floats: of equal ones, which may be zeros of either sign, the second;
not-a-number gives way to the other. -/
def lesser (a b : Float) : Float :=
  if b.isNaN || a < b then a else b

/-- The greater of two floats: of equal ones the second; not-a-number gives way to the other. -/
def greater (a b : Float) : Float :=
  if b.isNaN || b < a then a else b

/-- Statistics in the making: a `SummaryAccumulator`. -/
structure Accumulator where
  count : Nat
  sum : Float
  min : Float
  max : Float
  deriving DecidableEq

namespace Accumulator

/-- Nothing recorded yet. -/
def empty : Accumulator := ⟨0, 0, greatestFinite, -greatestFinite⟩

/-- Records one latency: `SummaryAccumulator::record`. -/
def record (a : Accumulator) (latency : Float) : Accumulator where
  count := a.count + 1
  sum := a.sum + latency
  min := lesser a.min latency
  max := greater a.max latency

/-- The statistics, unless nothing was recorded: `SummaryAccumulator::finish`. -/
def finish (a : Accumulator) : Option Summary :=
  if a.count = 0 then none
  else some ⟨a.count, a.sum / Float.ofNat a.count, a.min, a.max⟩

end Accumulator

/-- The statistics of a list of latencies. -/
def Summary.ofLatencies (latencies : List Float) : Option Summary :=
  (latencies.foldl Accumulator.record Accumulator.empty).finish

/-- The statistics of a list of measurements: `LatencySummary::from_measurements`. -/
def Summary.ofMeasurements (measurements : List Measurement) : Option Summary :=
  Summary.ofLatencies (measurements.map (·.latency))

end TriggerLatency
