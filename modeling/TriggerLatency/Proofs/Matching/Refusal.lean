import TriggerLatency.Proofs.Matching.Accounting

/-!
# When a run is refused

The run of an analysis is refused for one of three reasons. A channel without events is found
before any matching takes place, and no observer hears of it. That nothing can be paired is found
out by matching: a greedy run could well miss a pair, but not its first one, since all slots are
open as long as none is taken. So a run without a measurement means that no receive event fits any
send at all (`measurements_pair_eq_nil_iff`), and by then an observer was shown that each send goes
without (`pair_of_measurements_eq_nil`).

`match?_cases` lists what a run can come to. Which of the four it is depends on the events alone,
so each answer is given exactly when it should be (`match?_refused_iff`).
-/

namespace TriggerLatency

section

variable {κ : Type} {limit : LatencyLimit} {sends receives : List Event}

/-- Some receive event fits some send. -/
def AnyFits (limit : LatencyLimit) (sends receives : List Event) : Prop :=
  ∃ s ∈ sends, ∃ r ∈ receives, Fits limit s.timestamp r.timestamp

/-- The verdicts on sends all of which go without. -/
def allUnmatched (sends : List Event) : List Verdict :=
  sends.zipIdx.map fun e => .unmatched ⟨e.2, e.1.timestamp⟩

/-- A run that measures nothing says of every send that it goes without. -/
theorem verdictsOf_of_countP_eq_zero (h : (taken limit sends receives).countP Option.isSome = 0) :
    verdictsOf limit sends receives = allUnmatched sends := by
  have hnone : taken limit sends receives = List.replicate sends.length none := by
    refine List.eq_replicate_iff.mpr ⟨length_taken, fun b hb => ?_⟩
    exact Option.not_isSome_iff_eq_none.mp (List.countP_eq_zero.mp h b hb)
  rw [verdictsOf, receiveTimesOf, hnone]
  refine List.ext_getElem (by simp [verdictsFrom, allUnmatched]) ?_
  intro i _ _
  simp [verdictsFrom, allUnmatched, Verdict.ofTime]

/-- Of sends that go without, only the observer logs anything. -/
theorem flatMap_verdictLog_allUnmatched (o : Observer κ) :
    (allUnmatched sends).flatMap (verdictLog o) = (allUnmatched sends).flatMap o.report := by
  unfold allUnmatched
  rw [List.flatMap_map, List.flatMap_map]
  rfl

/-- A matching run that measures nothing shows its observer each send as unmatched, in order. -/
theorem pair_of_measurements_eq_nil (o : Observer κ)
    (h : (pair limit sends receives o).value.measurements = []) :
    (pair limit sends receives o).observed = (allUnmatched sends).foldl o.observe o.initial
    ∧ (pair limit sends receives o).log = (allUnmatched sends).flatMap o.report
      ++ [.matchingFinished 0 sends.length 0 receives.length] := by
  have hverdicts : verdictsOf limit sends receives = allUnmatched sends := by
    refine verdictsOf_of_countP_eq_zero ?_
    rw [← length_measurements_pair, h, List.length_nil]
  have haccounts : (pair limit sends receives o).value.Accounts sends := accounts_pair
  have hunmatched : (pair limit sends receives o).value.unmatched.length = sends.length := by
    simpa [h] using haccounts.once.length_eq
  rw [observed_pair, log_pair, h, hunmatched, hverdicts, flatMap_verdictLog_allUnmatched]
  exact ⟨rfl, rfl⟩

/-- What a run can come to: a channel is empty, nothing fits, or something is paired. -/
theorem match?_cases (hsends : ∀ e ∈ sends, e.timestamp.isFinite = true)
    (hreceives : ∀ e ∈ receives, e.timestamp.isFinite = true) (limit : LatencyLimit)
    (o : Observer κ) :
    (sends = []
      ∧ match? limit sends receives o = ⟨.error (.emptyChannel .send), o.initial, []⟩)
    ∨ (sends ≠ [] ∧ receives = []
      ∧ match? limit sends receives o = ⟨.error (.emptyChannel .receive), o.initial, []⟩)
    ∨ (sends ≠ [] ∧ receives ≠ []
      ∧ ¬ AnyFits limit sends receives
      ∧ match? limit sends receives o
        = ⟨.error (.noValidPairs sends.length receives.length limit.ms),
          (allUnmatched sends).foldl o.observe o.initial,
          (allUnmatched sends).flatMap o.report
            ++ [.matchingFinished 0 sends.length 0 receives.length]⟩)
    ∨ (sends ≠ [] ∧ receives ≠ []
      ∧ AnyFits limit sends receives
      ∧ (pair limit sends receives o).value.measurements ≠ []
      ∧ match? limit sends receives o
        = ⟨.ok (pair limit sends receives o).value, (pair limit sends receives o).observed,
          (pair limit sends receives o).log⟩) := by
  unfold match?
  by_cases hs : sends = []
  · exact Or.inl ⟨hs, if_pos hs⟩
  rw [if_neg hs]
  by_cases hr : receives = []
  · exact Or.inr (Or.inl ⟨hs, hr, if_pos hr⟩)
  rw [if_neg hr]
  have hnil : (pair limit sends receives o).value.measurements = []
      ↔ ¬ AnyFits limit sends receives := by
    rw [measurements_pair_eq_nil_iff hsends hreceives]
    simp only [AnyFits, not_exists, not_and]
  -- there are no measurements exactly if nothing fits
  by_cases hfits : AnyFits limit sends receives
  · have hsome := fun hnone => hnil.mp hnone hfits
    refine Or.inr (Or.inr (Or.inr ⟨hs, hr, hfits, hsome, ?_⟩))
    exact congrArg (Watched.mk · _ _) (if_neg hsome)
  · obtain ⟨hobserved, hlog⟩ := pair_of_measurements_eq_nil o (hnil.mpr hfits)
    refine Or.inr (Or.inr (Or.inl ⟨hs, hr, hfits, ?_⟩))
    rw [← hobserved, ← hlog]
    exact congrArg (Watched.mk · _ _) (if_pos (hnil.mpr hfits))

end

/-- A run is refused for an empty channel exactly if that channel has no events, the send channel
first, and its observer is shown nothing. It is refused for want of valid pairs exactly if both
have events and no receive event fits any send; its observer is shown each send as unmatched, in
order. Else it gives the outcome of the matching, which has a measurement. -/
theorem match?_refused_iff {κ : Type} (limit : LatencyLimit) (sends receives : List Event)
    (hsends : ∀ e ∈ sends, e.timestamp.isFinite = true)
    (hreceives : ∀ e ∈ receives, e.timestamp.isFinite = true) (o : Observer κ) :
    let w := match? limit sends receives o
    (w.value = .error (.emptyChannel .send) ↔ sends = [])
    ∧ (w.value = .error (.emptyChannel .receive) ↔ sends ≠ [] ∧ receives = [])
    ∧ (∀ n k x, w.value = .error (.noValidPairs n k x) ↔ sends ≠ [] ∧ receives ≠ []
      ∧ ¬ AnyFits limit sends receives
      ∧ sends.length = n ∧ receives.length = k ∧ limit.ms = x)
    ∧ (∀ outcome, w.value = .ok outcome ↔ sends ≠ [] ∧ receives ≠ []
      ∧ AnyFits limit sends receives
      ∧ (pair limit sends receives o).value = outcome)
    ∧ (∀ outcome, w.value = .ok outcome → outcome.measurements ≠ [])
    ∧ (∀ channel, w.value = .error (.emptyChannel channel) → w.observed = o.initial ∧ w.log = [])
    ∧ (∀ n k x, w.value = .error (.noValidPairs n k x) →
      w.observed = (allUnmatched sends).foldl o.observe o.initial
      ∧ w.log = (allUnmatched sends).flatMap o.report
        ++ [.matchingFinished 0 sends.length 0 receives.length]) := by
  intro w
  -- the four answers differ, so each case settles every statement
  rcases match?_cases hsends hreceives limit o with ⟨hs, hw⟩ | ⟨hs, hr, hw⟩ |
      ⟨hs, hr, hfits, hw⟩ | ⟨hs, hr, hfits, hsome, hw⟩
  · simp [w, hw, hs]
  · simp [w, hw, hs, hr]
  · simp [w, hw, hs, hr, hfits]
  · simp [w, hw, hs, hr, hfits, hsome]

/-- Each receive event is too late for each send or not after it. Without receive events the run
stops earlier, and without sends before that. -/
theorem match?_refused_iff_of_misses :
    let limit : LatencyLimit := ⟨3, by decide +kernel, by decide +kernel⟩
    let sends := [Event.mk 0 .send, ⟨20, .send⟩]
    let receives := [Event.mk 24 .receive, ⟨20, .receive⟩]
    let w := match? limit sends receives Observer.collecting
    (∀ e ∈ sends, e.timestamp.isFinite = true)
    ∧ (∀ e ∈ receives, e.timestamp.isFinite = true)
    ∧ w.value = .error (.noValidPairs 2 2 3)
    ∧ ¬ AnyFits limit sends receives
    ∧ w.observed = ⟨0, [⟨0, 0⟩, ⟨1, 20⟩]⟩
    ∧ (match? limit sends [] Observer.collecting).value = .error (.emptyChannel .receive)
    ∧ (match? limit [] [] Observer.collecting).value = .error (.emptyChannel .send) := by
  intro limit sends receives w
  have hsends : ∀ e ∈ sends, e.timestamp.isFinite = true := by decide +kernel
  have hreceives : ∀ e ∈ receives, e.timestamp.isFinite = true := by decide +kernel
  have hnone : ∀ e ∈ ([] : List Event), e.timestamp.isFinite = true := nofun
  have hrun : w.value = .error (.noValidPairs 2 2 3) := by decide +kernel
  obtain ⟨-, -, hpairs, -, -, -, hshown⟩ :=
    match?_refused_iff limit sends receives hsends hreceives Observer.collecting
  have hfits : ¬ AnyFits limit sends receives := ((hpairs 2 2 3).mp hrun).2.2.1
  have hreceive :=
    (match?_refused_iff limit sends [] hsends hnone Observer.collecting).2.1.mpr ⟨nofun, rfl⟩
  have hsend := (match?_refused_iff limit [] [] hnone hnone Observer.collecting).1.mpr rfl
  exact ⟨hsends, hreceives, hrun, hfits, (hshown 2 2 3 hrun).1, hreceive, hsend⟩

end TriggerLatency
