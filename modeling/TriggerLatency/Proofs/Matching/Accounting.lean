import TriggerLatency.Proofs.Matching.Outcome

/-!
# Every send is accounted for

A run tells what it made of the sends in four ways: in the two lists of its outcome, to its
observer, in the log, and by the counts that end the log. All of them say the same. There is one
verdict on each send, in send order, and everything else is read off these verdicts
(`pair_accounts_for_sends`). Nothing of this depends on the times, which may be any floats.

That the receive events counted as consumed are as many as the measurements is the one thing that
needs the open slots: a slot that is taken is closed, and so is never taken again
(`length_measurements_add_length_leftOpen`).
-/

namespace TriggerLatency

/-- The position of the send that a verdict is about. -/
def Verdict.index : Verdict → Nat
  | .matched m => m.index
  | .unmatched u => u.index

/-- The measurement that a log event traces. -/
def LogEvent.measurement? : LogEvent → Option Measurement
  | .latencyMatched m => some m
  | _ => none

/-- An observer that traces no measurements of its own. -/
def Observer.TracesNothing {κ : Type} (o : Observer κ) : Prop :=
  ∀ v, (o.report v).filterMap LogEvent.measurement? = []

/-- An outcome accounts for some sends: together its lists have each of them once, each list has
its own in order, and with their times. -/
structure MatchOutcome.Accounts (sends : List Event) (w : MatchOutcome) : Prop where
  once : (w.measurements.map (·.index) ++ w.unmatched.map (·.index)).Perm
    (List.range sends.length)
  measurements_ordered : w.measurements.Pairwise fun m m' => m.index < m'.index
  unmatched_ordered : w.unmatched.Pairwise fun u u' => u.index < u'.index
  measurement_time : ∀ m ∈ w.measurements, sends[m.index]?.map (·.timestamp) = some m.sendTime
  unmatched_time : ∀ u ∈ w.unmatched, sends[u.index]?.map (·.timestamp) = some u.sendTime

/-! ## Lists of verdicts -/

namespace MatchOutcome

variable (vs : List Verdict)

/-- Each verdict goes to one of the two lists. -/
theorem perm_index_ofVerdicts :
    ((ofVerdicts vs).measurements.map (·.index) ++ (ofVerdicts vs).unmatched.map (·.index)).Perm
      (vs.map Verdict.index) := by
  induction vs with
  | nil => exact List.Perm.refl _
  | cons v vs ih =>
    cases v with
    | matched m => exact ih.cons m.index
    | unmatched u => exact List.perm_middle.trans (ih.cons u.index)

/-- What is picked out of verdicts in order is in order. -/
theorem pairwise_filterMap_index {α : Type} {pick : Verdict → Option α} {position : α → Nat}
    (hpick : ∀ v a, pick v = some a → position a = v.index) {vs : List Verdict}
    (h : vs.Pairwise fun v v' => v.index < v'.index) :
    (vs.filterMap pick).Pairwise fun a a' => position a < position a' := by
  rw [List.pairwise_filterMap]
  refine h.imp ?_
  intro v v' hlt a ha a' ha'
  rw [hpick v a ha, hpick v' a' ha']
  exact hlt

/-- The traces of verdicts are the measurements among them, if the observer adds none. -/
theorem filterMap_verdictLog {κ : Type} {o : Observer κ} (ho : o.TracesNothing) :
    (vs.flatMap (verdictLog o)).filterMap LogEvent.measurement? = (ofVerdicts vs).measurements := by
  induction vs with
  | nil => rfl
  | cons v vs ih =>
    have hv : (verdictLog o v).filterMap LogEvent.measurement? = v.measurement?.toList := by
      unfold verdictLog
      rw [List.filterMap_append, ho v, List.append_nil]
      cases v <;> rfl
    rw [List.flatMap_cons, List.filterMap_append, hv, ih]
    cases v <;> rfl

/-- What a collecting observer knows after some verdicts more. -/
theorem foldl_collecting (c : Collected) :
    vs.foldl Observer.collecting.observe c
      = ⟨c.matched + (ofVerdicts vs).measurements.length,
          c.unmatched ++ (ofVerdicts vs).unmatched⟩ := by
  induction vs generalizing c with
  | nil => exact (congrArg (Collected.mk c.matched) (List.append_nil _)).symm
  | cons v vs ih =>
    rw [List.foldl_cons, ih]
    cases v with
    | matched m => exact congrArg (Collected.mk · _) (Nat.add_right_comm _ 1 _)
    | unmatched u => exact congrArg (Collected.mk _) (List.append_assoc ..)

end MatchOutcome

/-- One verdict on each send, in order. -/
theorem map_index_verdictsFrom (first : Nat) {ts : List Float} {given : List (Option Float)}
    (hlen : given.length = ts.length) :
    (verdictsFrom first ts given).map Verdict.index = List.range' first ts.length := by
  have hindex : ∀ v : (Float × Option Float) × Nat,
      (Verdict.ofTime v.2 v.1.1 v.1.2).index = v.2 := by
    rintro ⟨⟨t, r⟩, i⟩
    cases r <;> rfl
  unfold verdictsFrom
  rw [List.map_map]
  show ((ts.zip given).zipIdx first).map (fun v => (Verdict.ofTime v.2 v.1.1 v.1.2).index) = _
  simp only [hindex]
  show ((ts.zip given).zipIdx first).map Prod.snd = _
  rw [List.zipIdx_map_snd, List.length_zip, hlen, Nat.min_self]

/-! ## Matching runs -/

section

variable {κ : Type} {limit : LatencyLimit} {sends receives : List Event} {o : Observer κ}

/-- The verdicts of a matching run on its sends. -/
def verdictsOf (limit : LatencyLimit) (sends receives : List Event) : List Verdict :=
  verdictsFrom 0 (sends.map (·.timestamp)) (receiveTimesOf limit sends receives)

theorem map_index_verdictsOf :
    (verdictsOf limit sends receives).map Verdict.index = List.range sends.length := by
  have hlen : (receiveTimesOf limit sends receives).length = (sends.map (·.timestamp)).length := by
    simp [receiveTimesOf]
  rw [verdictsOf, map_index_verdictsFrom 0 hlen, List.length_map, List.range_eq_range']

/-- The observer is shown the verdicts, one after the other. -/
theorem observed_pair : (pair limit sends receives o).observed
    = (verdictsOf limit sends receives).foldl o.observe o.initial :=
  congrArg o.after verdicts_ofTimes

/-- A receive event goes into one measurement, or its slot stays open. -/
theorem length_measurements_add_length_leftOpen :
    (pair limit sends receives o).value.measurements.length + (leftOpen limit sends receives).length
      = receives.length := by
  rw [length_measurements_pair]
  exact countP_taken_add_length_leftOpen limit sends receives

/-- The log has what is logged on each verdict, and ends with the counts. -/
theorem log_pair : (pair limit sends receives o).log
    = (verdictsOf limit sends receives).flatMap (verdictLog o)
      ++ [.matchingFinished (pair limit sends receives o).value.measurements.length
        (pair limit sends receives o).value.unmatched.length
        (pair limit sends receives o).value.measurements.length receives.length] := by
  have hconsumed : receives.length - (leftOpen limit sends receives).length
      = (pair limit sends receives o).value.measurements.length :=
    Nat.sub_eq_of_eq_add length_measurements_add_length_leftOpen.symm
  have hlog : (pair limit sends receives o).log
      = (Pairing.ofTimes limit (sends.map (·.timestamp))
            (receives.map (·.timestamp))).verdicts.flatMap (verdictLog o)
        ++ [.matchingFinished (pair limit sends receives o).value.measurements.length
          (pair limit sends receives o).value.unmatched.length
          (receives.length - (leftOpen limit sends receives).length) receives.length] := rfl
  rw [hlog, hconsumed, verdicts_ofTimes]
  rfl

theorem pairwise_index_verdictsOf :
    (verdictsOf limit sends receives).Pairwise fun v v' => v.index < v'.index := by
  rw [← List.pairwise_map (R := (· < ·)), map_index_verdictsOf]
  exact List.pairwise_lt_range

/-- The outcome of a matching run accounts for its sends. -/
theorem accounts_pair : (pair limit sends receives o).value.Accounts sends where
  once := by
    have hrange : (verdictsOf limit sends receives).map Verdict.index = _ := map_index_verdictsOf
    rw [value_pair, ← hrange]
    exact MatchOutcome.perm_index_ofVerdicts _
  measurements_ordered := by
    rw [value_pair]
    refine MatchOutcome.pairwise_filterMap_index ?_ pairwise_index_verdictsOf
    rintro (m | u) _ ⟨⟩
    rfl
  unmatched_ordered := by
    rw [value_pair]
    refine MatchOutcome.pairwise_filterMap_index ?_ pairwise_index_verdictsOf
    rintro (m | u) _ ⟨⟩
    rfl
  measurement_time m hm := by
    obtain ⟨e, b, he, -, hm⟩ := mem_measurements_pair_iff.mp hm
    rw [he, hm]
    rfl
  unmatched_time u hu := by
    obtain ⟨e, he, -, hu⟩ := mem_unmatched_pair_iff.mp hu
    rw [he, hu]
    rfl

end

/-- Whatever the times of the events, a matching run gives one verdict on each send, in order, and
all that it tells is read off them. Its outcome is that of the verdicts and accounts for every send;
an observer is shown them one after the other; and the log has what is logged on each, then the
counts, of which that of the consumed receive events is the number of measurements. -/
theorem pair_accounts_for_sends (limit : LatencyLimit) (sends receives : List Event) :
    ∃ verdicts : List Verdict, verdicts.map Verdict.index = List.range sends.length
      ∧ (∀ {κ : Type} (o : Observer κ),
        let w := pair limit sends receives o
        w.value.Accounts sends
        ∧ w.value.measurements = verdicts.filterMap Verdict.measurement?
        ∧ w.value.unmatched = verdicts.filterMap Verdict.unmatched?
        ∧ w.observed = verdicts.foldl o.observe o.initial
        ∧ w.log = verdicts.flatMap (verdictLog o)
          ++ [.matchingFinished w.value.measurements.length w.value.unmatched.length
            w.value.measurements.length receives.length]
        ∧ w.value.measurements.length ≤ receives.length
        ∧ (o.TracesNothing → w.log.filterMap LogEvent.measurement? = w.value.measurements))
      ∧ (pair limit sends receives Observer.collecting).observed
        = ⟨(pair limit sends receives Observer.collecting).value.measurements.length,
          (pair limit sends receives Observer.collecting).value.unmatched⟩ := by
  refine ⟨verdictsOf limit sends receives, map_index_verdictsOf, ?_, ?_⟩
  · intro κ o w
    have hvalue : w.value = MatchOutcome.ofVerdicts (verdictsOf limit sends receives) := value_pair
    have hle : w.value.measurements.length ≤ receives.length :=
      le_of_add_le_left length_measurements_add_length_leftOpen.le
    refine ⟨accounts_pair, congrArg (·.measurements) hvalue, congrArg (·.unmatched) hvalue,
      observed_pair, log_pair, hle, ?_⟩
    intro ho
    have hlog : w.log = _ := log_pair
    rw [hlog, List.filterMap_append, MatchOutcome.filterMap_verdictLog _ ho, hvalue]
    exact List.append_nil _
  · rw [observed_pair, value_pair]
    refine (MatchOutcome.foldl_collecting _ _).trans ?_
    exact congrArg₂ Collected.mk (Nat.zero_add _) (List.nil_append _)

/-- Three sends, the first of them at no time at all, and an observer that warns of the last. -/
theorem pair_accounts_for_send_at_no_time :
    let nan : Float := 0 / 0
    let limit : LatencyLimit := ⟨6, by decide +kernel, by decide +kernel⟩
    let sends := [Event.mk nan .send, ⟨0, .send⟩, ⟨3, .send⟩]
    let receives := [Event.mk 3 .receive, ⟨2, .receive⟩, ⟨1, .receive⟩]
    let w := pair limit sends receives Observer.warning
    w.value = ⟨[⟨0, nan, 3, nan⟩, ⟨1, 0, 1, 1⟩], [⟨2, 3⟩]⟩
    ∧ Observer.warning.TracesNothing
    ∧ w.value.Accounts sends
    ∧ w.log.filterMap LogEvent.measurement? = [⟨0, nan, 3, nan⟩, ⟨1, 0, 1, 1⟩] := by
  intro nan limit sends receives w
  have hrun : w.value = ⟨[⟨0, nan, 3, nan⟩, ⟨1, 0, 1, 1⟩], [⟨2, 3⟩]⟩ := by decide +kernel
  have hwarning : Observer.warning.TracesNothing := by
    rintro (m | u) <;> rfl
  obtain ⟨verdicts, -, hwatched, -⟩ := pair_accounts_for_sends limit sends receives
  obtain ⟨haccounts, -, -, -, -, -, htraces⟩ := hwatched Observer.warning
  exact ⟨hrun, hwarning, haccounts, (htraces hwarning).trans (congrArg (·.measurements) hrun)⟩

end TriggerLatency
