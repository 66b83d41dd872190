import TriggerLatency.Trigger.Edge
import Mathlib.Data.List.DropRight
import Mathlib.Data.List.Induction

/-!
# How a detector is fed

A detector may be fed sample by sample or buffer by buffer, and reset in between. None of this
can be told from its edges: between two resets it emits what `risingEdges` finds in all the
samples that it was fed there, and its count is that of the edges since the last reset
(`edges_independent_of_feeding`).

A single sample is a buffer of one, so that every operation but a reset reads a buffer
(`apply_of_not_isReset`), and two buffers read one after the other are one
(`processBuffer_append`). A reset leaves nothing of what was read before it
(`apply_of_isReset`).
-/

namespace TriggerLatency

namespace Detector

/-- What can be done with a detector. -/
inductive Operation
  | sample (s : Sample)
  | buffer (samples : List Sample)
  | reset

namespace Operation

/-- The samples that are fed. -/
def samples : Operation → List Sample
  | .sample s => [s]
  | .buffer samples => samples
  | .reset => []

/-- Whether the detector starts anew. -/
def isReset : Operation → Bool
  | .reset => true
  | _ => false

theorem isReset_eq_false {op : Operation} (h : op ≠ .reset) : op.isReset = false := by
  cases op with
  | sample s => rfl
  | buffer samples => rfl
  | reset => exact absurd rfl h

end Operation

/-- Does one operation: the edges that it emits, and the detector after it. -/
def apply (d : Detector) : Operation → List Event × Detector
  | .sample s => ((d.process s).1.toList, (d.process s).2)
  | .buffer samples => d.processBuffer samples
  | .reset => ([], d.reset)

/-- A new detector after some operations. -/
def after (channel : Channel) (policy : EdgePolicy) (ops : List Operation) : Detector :=
  (Transducer.run apply (new channel policy) ops).2

/-- The operations on a new detector, each with the edges that it emits. -/
def trace (channel : Channel) (policy : EdgePolicy) (ops : List Operation) :
    List (Operation × List Event) :=
  ops.zip (Transducer.run apply (new channel policy) ops).1

/-! ## One operation -/

section

variable (d : Detector)

theorem processBuffer_singleton (s : Sample) :
    d.processBuffer [s] = ((d.process s).1.toList, (d.process s).2) := by
  unfold processBuffer
  rw [Transducer.run_cons, Transducer.run_nil]
  dsimp only
  cases (d.process s).1 <;> rfl

/-- A buffer that is read in two parts. -/
theorem processBuffer_append (xs ys : List Sample) :
    d.processBuffer (xs ++ ys)
      = ((d.processBuffer xs).1 ++ ((d.processBuffer xs).2.processBuffer ys).1,
        ((d.processBuffer xs).2.processBuffer ys).2) := by
  unfold processBuffer
  rw [Transducer.run_append]
  dsimp only
  rw [List.filterMap_append]

/-- A sample is counted exactly if it is an edge, and leaves the channel and the policy alone. -/
theorem process_keeps (s : Sample) :
    (d.process s).2.edgeCount = d.edgeCount + (d.process s).1.toList.length
    ∧ (d.process s).2.channel = d.channel ∧ (d.process s).2.policy = d.policy := by
  unfold process
  split_ifs
  · exact ⟨rfl, rfl, rfl⟩
  · exact ⟨rfl, rfl, rfl⟩

/-- The edges of a buffer are counted, and it leaves the channel and the policy alone. -/
theorem processBuffer_keeps (samples : List Sample) :
    (d.processBuffer samples).2.edgeCount = d.edgeCount + (d.processBuffer samples).1.length
    ∧ (d.processBuffer samples).2.channel = d.channel
    ∧ (d.processBuffer samples).2.policy = d.policy := by
  induction samples using List.reverseRecOn with
  | nil => exact ⟨rfl, rfl, rfl⟩
  | append_singleton seen s ih =>
    obtain ⟨hcount, hchannel, hpolicy⟩ := ih
    obtain ⟨hcount', hchannel', hpolicy'⟩ := process_keeps (d.processBuffer seen).2 s
    rw [processBuffer_append, processBuffer_singleton]
    refine ⟨?_, hchannel'.trans hchannel, hpolicy'.trans hpolicy⟩
    show ((d.processBuffer seen).2.process s).2.edgeCount = _
    rw [hcount', hcount, List.length_append, Nat.add_assoc]

/-- Whatever feeds a detector reads a buffer. -/
theorem apply_of_not_isReset {op : Operation} (h : op.isReset = false) :
    d.apply op = d.processBuffer op.samples := by
  cases op with
  | sample s => exact (d.processBuffer_singleton s).symm
  | buffer samples => rfl
  | reset => exact absurd h Bool.noConfusion

/-- A reset emits nothing and makes the detector a new one. -/
theorem apply_of_isReset {op : Operation} (h : op.isReset = true) :
    d.apply op = ([], new d.channel d.policy) := by
  cases op with
  | sample s => exact absurd h Bool.noConfusion
  | buffer samples => exact absurd h Bool.noConfusion
  | reset => rfl

/-- No operation changes the channel or the policy. -/
theorem apply_keeps (op : Operation) :
    (d.apply op).2.channel = d.channel ∧ (d.apply op).2.policy = d.policy := by
  cases h : op.isReset with
  | true =>
    rw [d.apply_of_isReset h]
    exact ⟨rfl, rfl⟩
  | false =>
    rw [d.apply_of_not_isReset h]
    exact (d.processBuffer_keeps op.samples).2

end

/-! ## Operations between two resets -/

/-- Operations without a reset read one buffer, however it is cut. -/
theorem run_apply_eq (d : Detector) {ops : List Operation}
    (h : ∀ op ∈ ops, op.isReset = false) :
    (Transducer.run apply d ops).1.flatten = (d.processBuffer (ops.flatMap (·.samples))).1
    ∧ (Transducer.run apply d ops).2 = (d.processBuffer (ops.flatMap (·.samples))).2 := by
  induction ops generalizing d with
  | nil => exact ⟨rfl, rfl⟩
  | cons op ops ih =>
    obtain ⟨hevents, hleft⟩ := ih (d.processBuffer op.samples).2
      fun op' hop' => h op' (List.mem_cons_of_mem op hop')
    rw [Transducer.run_cons, d.apply_of_not_isReset (h op (List.mem_cons_self ..)),
      List.flatMap_cons, processBuffer_append]
    dsimp only
    rw [List.flatten_cons, hevents, hleft]
    exact ⟨rfl, rfl⟩

/-! ## All operations -/

section

variable (channel : Channel) (policy : EdgePolicy)

theorem after_append (ops ops' : List Operation) :
    after channel policy (ops ++ ops')
      = (Transducer.run apply (after channel policy ops) ops').2 := by
  unfold after
  rw [Transducer.run_append]

theorem trace_append (ops ops' : List Operation) :
    trace channel policy (ops ++ ops') = trace channel policy ops
      ++ ops'.zip (Transducer.run apply (after channel policy ops) ops').1 := by
  unfold trace after
  rw [Transducer.run_append, List.zip_append (Transducer.length_run ..).symm]

/-- The trace of the first operations is the first part of the trace. -/
theorem trace_take (ops : List Operation) (n : Nat) :
    (trace channel policy ops).take n = trace channel policy (ops.take n) := by
  have happend := trace_append channel policy (ops.take n) (ops.drop n)
  have hlength : (trace channel policy (ops.take n)).length = min n ops.length := by
    unfold trace
    rw [List.length_zip, Transducer.length_run, List.length_take, Nat.min_self]
  rw [List.take_append_drop] at happend
  rcases Nat.le_total n ops.length with hle | hge
  · rw [Nat.min_eq_left hle] at hlength
    rw [happend, List.take_append_of_le_length hlength.ge, List.take_of_length_le hlength.le]
  · rw [List.take_of_length_le hge] at hlength happend ⊢
    rw [List.take_of_length_le (by omega)]

/-- A detector keeps its channel and its policy. -/
theorem after_keeps (ops : List Operation) :
    (after channel policy ops).channel = channel ∧ (after channel policy ops).policy = policy := by
  induction ops using List.reverseRecOn with
  | nil => exact ⟨rfl, rfl⟩
  | append_singleton seen op ih =>
    obtain ⟨hchannel, hpolicy⟩ := (after channel policy seen).apply_keeps op
    rw [after_append, Transducer.run_cons, Transducer.run_nil]
    exact ⟨hchannel.trans ih.1, hpolicy.trans ih.2⟩

/-- Behind a reset a detector goes on as a new one. -/
theorem after_reset (ops : List Operation) :
    after channel policy (ops ++ [.reset]) = new channel policy := by
  obtain ⟨hchannel, hpolicy⟩ := after_keeps channel policy ops
  rw [after_append, Transducer.run_cons, Transducer.run_nil]
  show new (after channel policy ops).channel (after channel policy ops).policy = _
  rw [hchannel, hpolicy]

/-- Behind a reset the trace goes on as that of a new detector. -/
theorem trace_reset_append (ops ops' : List Operation) :
    trace channel policy (ops ++ .reset :: ops')
      = trace channel policy ops ++ (.reset, []) :: trace channel policy ops' := by
  have hreset := trace_append channel policy ops [.reset]
  rw [Transducer.run_cons, Transducer.run_nil] at hreset
  rw [List.append_cons, trace_append, after_reset, hreset, List.append_assoc]
  rfl

/-- The detector counts the edges since the last reset. -/
theorem edgeCount_after (ops : List Operation) :
    (after channel policy ops).edgeCount
      = (((trace channel policy ops).rtakeWhile fun step => !step.1.isReset).flatMap
          (·.2)).length := by
  induction ops using List.reverseRecOn with
  | nil => rfl
  | append_singleton seen op ih =>
    rw [after_append, trace_append, Transducer.run_cons, Transducer.run_nil, List.zip_cons_cons,
      List.zip_nil_left, List.rtakeWhile_concat]
    dsimp only
    cases h : op.isReset with
    | true =>
      rw [apply_of_isReset _ h]
      rfl
    | false =>
      have hcount := (processBuffer_keeps (after channel policy seen) op.samples).1
      rw [apply_of_not_isReset _ h, hcount, ih, Bool.not_false, if_pos rfl, List.flatMap_append,
        List.length_append, List.flatMap_singleton]

/-- Operations without a reset are one segment, with the edges of all their samples. -/
theorem trace_of_segment {segment : List Operation} (h : ∀ op ∈ segment, op.isReset = false) :
    (∀ step ∈ trace channel policy segment, step.1.isReset = false)
    ∧ (trace channel policy segment).flatMap (·.2)
      = risingEdges channel policy (segment.flatMap (·.samples)) := by
  constructor
  · intro step hstep
    exact h step.1 (List.of_mem_zip hstep).1
  · rw [List.flatMap_def, trace, List.map_snd_zip (Transducer.length_run ..).le]
    exact (run_apply_eq _ h).1

/-- Between two resets the edges are those of all samples in between. -/
theorem edges_of_segments (ops : List Operation) :
    ((trace channel policy ops).splitOnP (·.1.isReset)).map (·.flatMap (·.2))
      = (ops.splitOnP (·.isReset)).map fun segment =>
          risingEdges channel policy (segment.flatMap (·.samples)) := by
  induction hn : ops.length using Nat.strongRecOn generalizing ops with
  | ind n ih =>
    by_cases hreset : Operation.reset ∈ ops
    · -- the operations up to the first reset, and those behind it
      obtain ⟨segment, rest, rfl, hfirst⟩ := List.eq_append_cons_of_mem hreset
      have hsegment : ∀ op ∈ segment, op.isReset = false := fun op hop =>
        Operation.isReset_eq_false fun heq => hfirst (heq ▸ hop)
      have hshorter : rest.length < n := by
        rw [← hn, List.length_append, List.length_cons]
        omega
      obtain ⟨hnone, hedges⟩ := trace_of_segment channel policy hsegment
      rw [trace_reset_append, List.splitOnP_append_cons_of_forall_mem hnone _ rfl,
        List.splitOnP_append_cons_of_forall_mem hsegment _ rfl, List.map_cons, List.map_cons,
        hedges, ih rest.length hshorter rest rfl]
    · have hsegment : ∀ op ∈ ops, op.isReset = false := fun op hop =>
        Operation.isReset_eq_false fun heq => hreset (heq ▸ hop)
      obtain ⟨hnone, hedges⟩ := trace_of_segment channel policy hsegment
      rw [List.splitOnP_eq_singleton hnone, List.splitOnP_eq_singleton hsegment, List.map_singleton,
        List.map_singleton, hedges]

end

/-- However a detector is fed, between two resets it emits the edges of all the samples that it was
fed there, in order. After every operation its count is the number of edges since its creation or
the last reset, and its channel is still the same. -/
theorem edges_independent_of_feeding (channel : Channel) (policy : EdgePolicy)
    (ops : List Operation) :
    ((trace channel policy ops).splitOnP (·.1.isReset)).map (·.flatMap (·.2))
      = (ops.splitOnP (·.isReset)).map (fun segment =>
          risingEdges channel policy (segment.flatMap (·.samples)))
    ∧ ∀ n, (after channel policy (ops.take n)).edgeCount
        = ((((trace channel policy ops).take n).rtakeWhile fun step => !step.1.isReset).flatMap
            (·.2)).length
      ∧ (after channel policy (ops.take n)).channel = channel := by
  refine ⟨edges_of_segments channel policy ops, ?_⟩
  intro n
  rw [trace_take]
  exact ⟨edgeCount_after channel policy _, (after_keeps channel policy _).1⟩

end Detector

end TriggerLatency
