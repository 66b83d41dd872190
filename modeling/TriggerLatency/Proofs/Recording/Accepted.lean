import TriggerLatency.Proofs.Recording.Grammar
import TriggerLatency.Recording.Reader

/-!
# Accepted rows

A recording is made of the readings of its accepted rows (`samples_of_parse`), whose
times are finite (`isFinite_of_mem_readings`). Rows that were skipped leave no trace in it,
so the row before an accepted row is the accepted row before it.
-/

namespace TriggerLatency

theorem Row.eq_accepted_of_reading? {row : Row} {r : Reading} (h : row.reading? = some r) :
    row = .accepted r := by
  cases row with
  | blank => exact absurd h (by simp [reading?])
  | accepted r' => exact congrArg accepted (Option.some.inj h)
  | rejected f => exact absurd h (by simp [reading?])

namespace Recording

/-- The readings of the accepted rows of a source, in row order. -/
def readings (c : Config) (source : ByteSource) : List Reading :=
  match source.lines.dropWhile isBlankLine with
  | [] => []
  | header :: below =>
    match ColumnLayout.ofNames c (columnNames header) with
    | .error _ => []
    | .ok layout => (below.map (Row.ofLine layout c)).filterMap Row.reading?

/-- The samples of a recording are those of the accepted rows. -/
theorem samples_of_parse {c : Config} {source : ByteSource} {r : Recording}
    (h : (parse c source).value = .ok r) :
    r.send = (readings c source).map Reading.sendSample
    ∧ r.receive = (readings c source).map Reading.receiveSample := by
  unfold parse at h
  unfold readings
  dsimp only at h
  cases hlines : source.lines.dropWhile isBlankLine with
  | nil =>
    rw [hlines] at h
    dsimp only at h
    split at h <;> exact absurd h (by simp)
  | cons header below =>
    rw [hlines] at h
    dsimp only at h ⊢
    cases hlayout : ColumnLayout.ofNames c (columnNames header) with
    | error e => simp [hlayout] at h
    | ok layout =>
      rw [hlayout] at h
      dsimp only at h
      split at h
      · exact absurd h (by simp)
      · obtain rfl := Except.ok.inj h
        exact ⟨rfl, rfl⟩

theorem isFinite_of_mem_readings {c : Config} {source : ByteSource} {r : Reading}
    (h : r ∈ readings c source) : r.timestamp.isFinite = true := by
  unfold readings at h
  split at h
  · exact absurd h List.not_mem_nil
  · split at h
    · exact absurd h List.not_mem_nil
    · obtain ⟨row, hrow, hr⟩ := List.mem_filterMap.mp h
      obtain ⟨line, -, rfl⟩ := List.mem_map.mp hrow
      exact (ofLine_eq_accepted_iff.mp (Row.eq_accepted_of_reading? hr)).isFinite

/-- A recording that is read from a file is read from some source. -/
theorem exists_parse_of_load {c : Config} {t : FileTree} {path : String} {r : Recording}
    (h : (load c t path).value = .ok r) : ∃ source, (parse c source).value = .ok r := by
  unfold load at h
  cases hopen : t.openPath path with
  | error f =>
    rw [hopen] at h
    exact nomatch h
  | ok node =>
    rw [hopen] at h
    exact ⟨_, h⟩

end Recording

end TriggerLatency
