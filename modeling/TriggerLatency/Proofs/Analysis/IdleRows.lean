import TriggerLatency.Analysis.Basic
import TriggerLatency.Proofs.Trigger.Feeding
import Mathlib.Logic.Relation

/-!
# Rows at which nothing changes

A sample with the level of the one before it is `Idle`: a detector that has read the one before
makes no event of it and is not changed by it (`Detector.process_idle`), whatever it reads next.
So the edges of a channel do not depend on its idle samples (`risingEdges_eraseIdx`), and with
them goes everything that an analysis does: rows that are idle on both channels can be deleted,
any number of them one after the other (`analyze_of_idle_rows_deleted`).
-/

namespace TriggerLatency

/-- A sample repeats the level of the one before it. -/
def Idle (samples : List Sample) (i : Nat) : Prop :=
  0 < i ∧ ∃ before s, samples[i - 1]? = some before ∧ samples[i]? = some s ∧ s.level = before.level

/-! ## Edges -/

/-- A detector reads nothing out of a level that it has just read. -/
theorem Detector.process_idle (d : Detector) {before s : Sample} (h : s.level = before.level) :
    (d.process before).2.process s = (none, (d.process before).2) := by
  have hprevious : (d.process before).2.previous = some s.level := by
    rw [h, process]
    split_ifs
    · rfl
    · rfl
  rw [process, hprevious, if_neg]
  · rw [← hprevious]
  · intro hedge
    obtain ⟨hlow, hhigh⟩ := hedge
    rw [hhigh] at hlow
    exact nomatch hlow

theorem processBuffer_idle (d : Detector) {before s : Sample} (h : s.level = before.level)
    (rest : List Sample) :
    d.processBuffer (before :: s :: rest) = d.processBuffer (before :: rest) := by
  have hidle : (d.processBuffer [before, s]) = d.processBuffer [before] := by
    show d.processBuffer ([before] ++ [s]) = _
    rw [Detector.processBuffer_append, Detector.processBuffer_singleton,
      Detector.processBuffer_singleton]
    dsimp only
    rw [Detector.process_idle d h, Option.toList_none, List.append_nil]
  show d.processBuffer ([before, s] ++ rest) = d.processBuffer ([before] ++ rest)
  rw [Detector.processBuffer_append, hidle, ← Detector.processBuffer_append]

/-- An idle sample stands behind one of its level, and only that one is left when it is deleted. -/
theorem Idle.exists_split {samples : List Sample} {i : Nat} (h : Idle samples i) :
    ∃ front before s rest, s.level = before.level ∧ samples = front ++ before :: s :: rest
      ∧ samples.eraseIdx i = front ++ before :: rest := by
  obtain ⟨hpos, before, s, hbefore, hs, hlevel⟩ := h
  obtain ⟨hlt, rfl⟩ := List.getElem?_eq_some_iff.mp hbefore
  obtain ⟨hlt', rfl⟩ := List.getElem?_eq_some_iff.mp hs
  have hi : i - 1 + 1 = i := by omega
  have hdrop : samples.drop (i - 1) = samples[i - 1] :: samples[i] :: samples.drop (i + 1) := by
    rw [List.drop_eq_getElem_cons hlt, hi, List.drop_eq_getElem_cons hlt']
  have htake := List.take_append_getElem hlt
  rw [hi] at htake
  refine ⟨samples.take (i - 1), samples[i - 1], samples[i], samples.drop (i + 1), hlevel, ?_, ?_⟩
  · rw [← hdrop, List.take_append_drop]
  · rw [List.eraseIdx_eq_take_drop_succ, ← htake, List.append_assoc, List.singleton_append]

/-- Idle samples make no edges, and no difference to those of the others. -/
theorem risingEdges_eraseIdx (channel : Channel) (policy : EdgePolicy) {samples : List Sample}
    {i : Nat} (h : Idle samples i) :
    risingEdges channel policy (samples.eraseIdx i) = risingEdges channel policy samples := by
  obtain ⟨front, before, s, rest, hlevel, hsamples, herased⟩ := h.exists_split
  unfold risingEdges
  rw [herased, hsamples, Detector.processBuffer_append, Detector.processBuffer_append,
    processBuffer_idle _ hlevel]

/-! ## Analyses -/

/-- `r'` is what is left of `r` without the samples at position `i`, which are idle on both
channels. How many rows either recording was read from is left open. -/
structure Recording.LosesIdleRow (r r' : Recording) (i : Nat) : Prop where
  sendIdle : Idle r.send i
  receiveIdle : Idle r.receive i
  send : r'.send = r.send.eraseIdx i
  receive : r'.receive = r.receive.eraseIdx i

/-- An analysis sees nothing but the edges of both channels. -/
theorem Analyzer.analyze_congr {κ : Type} (a : Analyzer) (o : Observer κ) {r r' : Recording}
    (hsend : risingEdges .send a.edgePolicy r'.send = risingEdges .send a.edgePolicy r.send)
    (hreceive : risingEdges .receive a.edgePolicy r'.receive
      = risingEdges .receive a.edgePolicy r.receive) :
    a.analyze r' o = a.analyze r o := by
  have hdetect : a.detect r' = a.detect r := by
    unfold detect
    rw [hsend, hreceive]
  unfold analyze
  rw [hdetect]

/-- Rows that are idle on both channels may be deleted, one after the other: an analysis gives the
same result or the same error, shows the same to its observer and logs the same. -/
theorem analyze_of_idle_rows_deleted {κ : Type} (a : Analyzer) (o : Observer κ) {r r' : Recording}
    (h : Relation.ReflTransGen (fun r r' => ∃ i, Recording.LosesIdleRow r r' i) r r') :
    a.analyze r' o = a.analyze r o := by
  induction h with
  | refl => rfl
  | tail _ hstep ih =>
    obtain ⟨i, hdeleted⟩ := hstep
    rw [← ih]
    refine a.analyze_congr o ?_ ?_
    · rw [hdeleted.send, risingEdges_eraseIdx .send a.edgePolicy hdeleted.sendIdle]
    · rw [hdeleted.receive, risingEdges_eraseIdx .receive a.edgePolicy hdeleted.receiveIdle]

/-- A packet in five rows: both lines are low for two of them, and the sender is high for two. -/
def fiveRows : Recording where
  send := [⟨0, .low⟩, ⟨1, .low⟩, ⟨2, .high⟩, ⟨3, .high⟩, ⟨4, .low⟩]
  receive := [⟨0, .low⟩, ⟨1, .low⟩, ⟨2, .low⟩, ⟨3, .low⟩, ⟨4, .high⟩]
  rowsParsed := 5
  rowsSkipped := 0

/-- The three rows of it that are left without the last idle row, and then the first. -/
def threeRows : Recording where
  send := [⟨0, .low⟩, ⟨2, .high⟩, ⟨4, .low⟩]
  receive := [⟨0, .low⟩, ⟨2, .low⟩, ⟨4, .high⟩]
  rowsParsed := 3
  rowsSkipped := 0

/-- The packet is measured all the same. -/
theorem analyze_threeRows :
    ∃ a, Analyzer.ofConfig { edgePolicy := .assumeLow } = .ok a
      ∧ Relation.ReflTransGen (fun r r' => ∃ i, Recording.LosesIdleRow r r' i) fiveRows threeRows
      ∧ a.analyze threeRows .collecting = a.analyze fiveRows .collecting
      ∧ (a.analyze fiveRows .collecting).value = .ok ⟨1, 1, ⟨[⟨0, 2, 4, 2⟩], []⟩⟩ := by
  let fourRows : Recording := ⟨fiveRows.send.eraseIdx 3, fiveRows.receive.eraseIdx 3, 4, 0⟩
  have hlast : Recording.LosesIdleRow fiveRows fourRows 3 :=
    ⟨⟨by decide, _, _, rfl, rfl, rfl⟩, ⟨by decide, _, _, rfl, rfl, rfl⟩, rfl, rfl⟩
  have hfirst : Recording.LosesIdleRow fourRows threeRows 1 :=
    ⟨⟨by decide, _, _, rfl, rfl, rfl⟩, ⟨by decide, _, _, rfl, rfl, rfl⟩, rfl, rfl⟩
  have hdeleted : Relation.ReflTransGen (fun r r' => ∃ i, Recording.LosesIdleRow r r' i)
      fiveRows threeRows :=
    (Relation.ReflTransGen.single ⟨3, hlast⟩).tail ⟨1, hfirst⟩
  exact ⟨⟨⟨300, by decide +kernel, by decide +kernel⟩, .assumeLow⟩, rfl, hdeleted,
    analyze_of_idle_rows_deleted _ .collecting hdeleted, by decide +kernel⟩

end TriggerLatency
