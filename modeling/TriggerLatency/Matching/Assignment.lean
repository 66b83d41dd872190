import TriggerLatency.Trigger.Edge

/-!
# Greedy assignment

Send times are visited in order. Each takes, from the receive slots that are still
open, the one of least latency among those strictly after it and within the limit;
of several the first in slot order. A taken slot is closed for good, so the
assignment is one-to-one. It depends on the order of the sends and need not have
the least total latency. The open slots are what `ReceiveArena` keeps, and the slot taken is
its `best_candidate`.

Comparisons are those of floats. A slot is passed over when its time is at or
before the send time, or when its latency is above the limit; where not-a-number
is involved neither comparison holds, and the slot stays a candidate.

A matching run says one thing about each send event, in send order: that it was
matched, and the measurement, or that it found no partner. Everything that a run
reports, the outcome and what observers see, is read off this list of verdicts.
-/

namespace TriggerLatency

/-- An upper bound on latencies, in milliseconds: finite and above zero. It is what a `MatchConfig`
holds. -/
structure LatencyLimit where
  ms : Float
  finite : ms.isFinite = true
  positive : ¬ ms ≤ 0

/-- The limit of `ms` milliseconds, if `ms` can be one: `MatchConfig::new`. -/
def LatencyLimit.ofMs? (ms : Float) : Option LatencyLimit :=
  if h : ms.isFinite = true ∧ ¬ ms ≤ 0 then some ⟨ms, h.1, h.2⟩ else none

/-- A matched pair of events: a `LatencyMeasurement`. -/
structure Measurement where
  /-- The position of the send event among the send events. -/
  index : Nat
  sendTime : Float
  receiveTime : Float
  latency : Float
  deriving DecidableEq

/-- The measurement of a pair: the latency is the difference of the two times. -/
def Measurement.ofTimes (index : Nat) (sendTime receiveTime : Float) : Measurement :=
  ⟨index, sendTime, receiveTime, receiveTime - sendTime⟩

/-- A send event without a partner. -/
structure UnmatchedSend where
  /-- The position of the send event among the send events. -/
  index : Nat
  sendTime : Float
  deriving DecidableEq

/-- What a matching run makes of the send events, in send order. -/
structure MatchOutcome where
  measurements : List Measurement
  unmatched : List UnmatchedSend
  deriving DecidableEq

/-! ## Slots -/

/-- A receive event, known by its position among the receive events. -/
structure Slot where
  position : Nat
  time : Float
  deriving DecidableEq

/-- The slots of a list of receive times: `ReceiveArena::new`. -/
def Slot.ofTimes (times : List Float) : List Slot :=
  times.zipIdx.map fun t => ⟨t.2, t.1⟩

/-- Whether a receive time may be taken by a send time. -/
def Eligible (limit : LatencyLimit) (sendTime receiveTime : Float) : Prop :=
  ¬ receiveTime ≤ sendTime ∧ ¬ limit.ms < receiveTime - sendTime

instance (limit : LatencyLimit) (sendTime receiveTime : Float) :
    Decidable (Eligible limit sendTime receiveTime) :=
  inferInstanceAs (Decidable (_ ∧ _))

/-- The better of the best slot so far and the next slot; an equal one does not displace it. -/
def better (limit : LatencyLimit) (sendTime : Float) (best : Option Slot) (slot : Slot) :
    Option Slot :=
  if Eligible limit sendTime slot.time then
    match best with
    | none => some slot
    | some b => if slot.time - sendTime < b.time - sendTime then some slot else some b
  else best

/-- The slot that a send time takes from the open slots: `ReceiveArena::best_candidate`. -/
def nearest (limit : LatencyLimit) (sendTime : Float) (slots : List Slot) : Option Slot :=
  slots.foldl (better limit sendTime) none

/-- The slots that stay open when one is taken: `ReceiveArena::consume`. -/
def close (slot : Slot) (slots : List Slot) : List Slot :=
  slots.filter fun s => s.position ≠ slot.position

/-- Serves one send time: the slot it takes, and the slots that stay open. -/
def serve (limit : LatencyLimit) (slots : List Slot) (sendTime : Float) :
    Option Slot × List Slot :=
  match nearest limit sendTime slots with
  | some slot => (some slot, close slot slots)
  | none => (none, slots)

/-- Serves every send time in order, as the loop of `TriggerMatcher::pair` does: the slot each one
takes, and the slots left open. -/
def assign (limit : LatencyLimit) (slots : List Slot) (sendTimes : List Float) :
    List (Option Slot) × List Slot :=
  Transducer.run (serve limit) slots sendTimes

/-! ## Verdicts -/

/-- What a run says about one send event. -/
inductive Verdict
  | matched (m : Measurement)
  | unmatched (u : UnmatchedSend)
  deriving DecidableEq

namespace Verdict

/-- The verdict on the send event at `index`, given the slot that it took. -/
def ofSlot (index : Nat) (sendTime : Float) : Option Slot → Verdict
  | some slot => .matched (Measurement.ofTimes index sendTime slot.time)
  | none => .unmatched ⟨index, sendTime⟩

/-- The measurement of a matched send. -/
def measurement? : Verdict → Option Measurement
  | .matched m => some m
  | .unmatched _ => none

/-- The record of an unmatched send. -/
def unmatched? : Verdict → Option UnmatchedSend
  | .matched _ => none
  | .unmatched u => some u

end Verdict

/-- The outcome that verdicts add up to. -/
def MatchOutcome.ofVerdicts (verdicts : List Verdict) : MatchOutcome :=
  ⟨verdicts.filterMap Verdict.measurement?, verdicts.filterMap Verdict.unmatched?⟩

/-- The verdicts on all send times, and the receive slots that nobody took. -/
structure Pairing where
  verdicts : List Verdict
  leftOpen : List Slot

/-- Pairs send times with receive times. -/
def Pairing.ofTimes (limit : LatencyLimit) (sendTimes receiveTimes : List Float) : Pairing :=
  let taken := assign limit (Slot.ofTimes receiveTimes) sendTimes
  ⟨(sendTimes.zip taken.1).zipIdx.map fun v => Verdict.ofSlot v.2 v.1.1 v.1.2, taken.2⟩

end TriggerLatency
