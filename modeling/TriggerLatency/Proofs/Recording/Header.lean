import TriggerLatency.Proofs.Except
import TriggerLatency.Recording.Row
import Mathlib.Tactic.ByContra

/-!
# Where the columns are

The columns are located exactly if each of them has a name in the header, and then the first
position of each name counts (`ColumnLayout.ofNames_eq_ok_iff`). Otherwise the error tells one that
is missing, with all the names that there are (`ColumnLayout.exists_of_ofNames_eq_error`).
-/

namespace TriggerLatency

/-- The names of the columns that matter, in the order in which they are looked for. -/
def Config.columns (c : Config) : List String := [c.timestampColumn, c.sendColumn, c.receiveColumn]

namespace ColumnLayout

variable {c : Config} {names : List String} {column : String} {l : ColumnLayout}
  {e : RecordingError} {i : Nat}

theorem locate_eq_ok_iff : locate names column = .ok i ↔ names.idxOf? column = some i := by
  unfold locate
  cases names.idxOf? column with
  | none => exact ⟨fun h => (nomatch h), fun h => (nomatch h)⟩
  | some j => rw [Except.ok.injEq, Option.some_inj]

theorem locate_eq_error_iff :
    locate names column = .error e ↔ column ∉ names ∧ e = .missingColumn column names := by
  unfold locate
  cases hfound : names.idxOf? column with
  | none =>
    rw [Except.error.injEq, eq_comm]
    exact (and_iff_right (List.idxOf?_eq_none_iff.mp hfound)).symm
  | some j =>
    refine ⟨fun h => (nomatch h), fun h => absurd (List.idxOf?_eq_none_iff.mpr h.1) ?_⟩
    rw [hfound]
    exact Option.some_ne_none j

theorem ofNames_eq_ok_iff :
    ofNames c names = .ok l ↔ names.idxOf? c.timestampColumn = some l.timestamp
      ∧ names.idxOf? c.sendColumn = some l.send
      ∧ names.idxOf? c.receiveColumn = some l.receive := by
  rw [← locate_eq_ok_iff, ← locate_eq_ok_iff, ← locate_eq_ok_iff]
  constructor
  · intro h
    obtain ⟨timestamp, htimestamp, h⟩ := exists_of_bind_eq_ok h
    obtain ⟨send, hsend, h⟩ := exists_of_bind_eq_ok h
    obtain ⟨receive, hreceive, h⟩ := exists_of_bind_eq_ok h
    obtain rfl := Except.ok.inj h
    exact ⟨htimestamp, hsend, hreceive⟩
  · intro h
    unfold ofNames
    rw [bind_eq_of_eq_ok h.1, bind_eq_of_eq_ok h.2.1, bind_eq_of_eq_ok h.2.2]

/-- An error tells a column that is missing, and what there is in its place. -/
theorem exists_of_ofNames_eq_error (h : ofNames c names = .error e) :
    ∃ column ∈ c.columns, column ∉ names ∧ e = .missingColumn column names := by
  rcases eq_error_of_bind_eq_error h with h | ⟨timestamp, -, h⟩
  · exact ⟨c.timestampColumn, by simp [Config.columns], locate_eq_error_iff.mp h⟩
  rcases eq_error_of_bind_eq_error h with h | ⟨send, -, h⟩
  · exact ⟨c.sendColumn, by simp [Config.columns], locate_eq_error_iff.mp h⟩
  rcases eq_error_of_bind_eq_error h with h | ⟨receive, -, h⟩
  · exact ⟨c.receiveColumn, by simp [Config.columns], locate_eq_error_iff.mp h⟩
  · exact nomatch h

/-- All columns are found exactly if none is missing. -/
theorem exists_ofNames_eq_ok_iff :
    (∃ l, ofNames c names = .ok l) ↔ ∀ column ∈ c.columns, column ∈ names := by
  constructor
  · intro ⟨l, hl⟩ column hcolumn
    by_contra hmissing
    have hnone := List.idxOf?_eq_none_iff.mpr hmissing
    obtain ⟨htimestamp, hsend, hreceive⟩ := ofNames_eq_ok_iff.mp hl
    simp only [Config.columns, List.mem_cons, List.not_mem_nil, or_false] at hcolumn
    rcases hcolumn with rfl | rfl | rfl
    · exact absurd (hnone.symm.trans htimestamp) nofun
    · exact absurd (hnone.symm.trans hsend) nofun
    · exact absurd (hnone.symm.trans hreceive) nofun
  · intro h
    cases hofNames : ofNames c names with
    | ok l => exact ⟨l, rfl⟩
    | error e =>
      obtain ⟨column, hcolumn, hmissing, -⟩ := exists_of_ofNames_eq_error hofNames
      exact absurd (h column hcolumn) hmissing

end ColumnLayout

end TriggerLatency
