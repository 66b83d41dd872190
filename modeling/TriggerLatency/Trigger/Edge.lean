import TriggerLatency.Transducer

/-!
# Trigger lines and their edges

A recording has two channels, one pulsed when a packet is sent and one when it arrives. Each
is read as timestamped samples of its level, the timestamps being milliseconds and any float.
A rising edge makes a trigger event: a sample that is high while the level before it was
low. What stands before the first sample is a policy: either nothing, so that the first
sample can never be an edge, or a low level, so that a line that is already high counts
once.

Three ways to ask for the same edges: `Detector` is fed sample by sample or buffer
by buffer and counts what it finds (`EdgeDetector`); `risingEdges` reads a whole list
(`detect_rising_edges`); `EdgeStream` pulls from its samples only as far as the next edge
(the iterator `RisingEdges`).
-/

namespace TriggerLatency

/-- One of the two monitored lines. -/
inductive Channel
  | send
  | receive
  deriving DecidableEq

/-- A channel as messages name it. -/
def Channel.label : Channel → String
  | .send => "send (TX)"
  | .receive => "receive (RX)"

/-- The level of a line at one sample. -/
inductive Level
  | low
  | high
  deriving DecidableEq

/-- The level that a recorded digit stands for, `Level::from_digit`: only zero and one stand for a
level. -/
def Level.ofInt? : Int → Option Level
  | 0 => some .low
  | 1 => some .high
  | _ => none

/-- A reading of one line. -/
structure Sample where
  timestamp : Float
  level : Level
  deriving DecidableEq

/-- A rising edge, at the time of the first high sample: a `TriggerEvent`. -/
structure Event where
  timestamp : Float
  channel : Channel
  deriving DecidableEq

/-! ## Edges -/

/-- What is taken to stand before the first sample. -/
inductive EdgePolicy
  | seedFromFirstSample
  | assumeLow
  deriving DecidableEq

/-- The names of the edge policies. -/
def EdgePolicy.names : List (String × EdgePolicy) :=
  [("seed_from_first_sample", .seedFromFirstSample), ("assume_low", .assumeLow)]

/-- The name of an edge policy. -/
def EdgePolicy.name : EdgePolicy → String
  | .seedFromFirstSample => "seed_from_first_sample"
  | .assumeLow => "assume_low"

/-- The level before the first sample, if there is one: `EdgeDetector::initial_level`. -/
def EdgePolicy.levelBefore : EdgePolicy → Option Level
  | .seedFromFirstSample => none
  | .assumeLow => some .low

/-- A streaming edge detector for one channel, the `EdgeDetector`. -/
structure Detector where
  channel : Channel
  policy : EdgePolicy
  /-- The level of the last sample, or what the policy puts before the first. -/
  previous : Option Level
  /-- Edges found since creation or the last reset. -/
  edgeCount : Nat
  deriving DecidableEq

namespace Detector

/-- A detector that has seen nothing. -/
def new (channel : Channel) (policy : EdgePolicy) : Detector :=
  ⟨channel, policy, policy.levelBefore, 0⟩

/-- Reads one sample: `EdgeDetector::process`. -/
def process (d : Detector) (s : Sample) : Option Event × Detector :=
  if d.previous = some .low ∧ s.level = .high then
    (some ⟨s.timestamp, d.channel⟩,
      { d with previous := some s.level, edgeCount := d.edgeCount + 1 })
  else (none, { d with previous := some s.level })

/-- Reads a buffer of samples and collects every edge in it: `EdgeDetector::process_buffer`. -/
def processBuffer (d : Detector) (samples : List Sample) : List Event × Detector :=
  let out := Transducer.run process d samples
  (out.1.filterMap id, out.2)

/-- Forgets the last level and the count: `EdgeDetector::reset`. -/
def reset (d : Detector) : Detector :=
  { d with previous := d.policy.levelBefore, edgeCount := 0 }

end Detector

/-- Every rising edge of a channel's samples, in order: `detect_rising_edges`. -/
def risingEdges (channel : Channel) (policy : EdgePolicy) (samples : List Sample) : List Event :=
  ((Detector.new channel policy).processBuffer samples).1

/-- A source of samples that is read only as far as edges are asked for: the iterator
`RisingEdges`. -/
structure EdgeStream where
  detector : Detector
  /-- The samples not yet pulled. -/
  source : List Sample
  /-- How many samples have been pulled. -/
  pulled : Nat
  deriving DecidableEq

namespace EdgeStream

/-- A stream over all of `samples`: `rising_edges`. -/
def new (channel : Channel) (policy : EdgePolicy) (samples : List Sample) : EdgeStream :=
  ⟨Detector.new channel policy, samples, 0⟩

/-- Pulls samples up to the next edge. -/
def advance (d : Detector) (pulled : Nat) : List Sample → Option Event × EdgeStream
  | [] => (none, ⟨d, [], pulled⟩)
  | s :: rest =>
    match d.process s with
    | (some e, d') => (some e, ⟨d', rest, pulled + 1⟩)
    | (none, d') => advance d' (pulled + 1) rest

/-- The next edge, if there is one: `RisingEdges::next`. -/
def next (s : EdgeStream) : Option Event × EdgeStream :=
  advance s.detector s.pulled s.source

end EdgeStream

end TriggerLatency
