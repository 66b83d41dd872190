import TriggerLatency.Proofs.Config.Saving
import TriggerLatency.Proofs.Except
import TriggerLatency.Proofs.Json.Record
import TriggerLatency.Proofs.Json.Reread
import TriggerLatency.Proofs.Text.Utf8

/-!
# Loading saved settings

Settings that were saved are loaded as they were, but for the latency bound: that is what its
numeral is read back as (`Config.reread`). This holds for all names of columns and wherever the
file lies (`Config.load_of_save`). A bound of few digits that is neither small nor great survives,
and the settings with it (`Config.load_save`).
-/

namespace TriggerLatency

open Json

/-- What is read back for settings. -/
def Config.reread (c : Config) : Except Fault Config := do
  return { c with maxLatencyMs := ← Json.reread c.maxLatencyMs }

theorem EdgePolicy.lookup_name (p : EdgePolicy) : EdgePolicy.names.lookup p.name = some p := by
  cases p <;> rfl

/-- Settings are read field by field. -/
theorem reads_config {sp : Spacing} (hsp : sp.IsBlank) {depth : Nat} (c : Config) :
    Reads (readRecord Config.shape) (c.toJson.chars sp depth) c.reread := by
  have hmembers : ReadsMembers sp (depth + 1) Config.shape.fields Config.shape.empty
      [("max_latency_ms", .float c.maxLatencyMs), ("timestamp_column", .string c.timestampColumn),
        ("send_column", .string c.sendColumn), ("receive_column", .string c.receiveColumn),
        ("edge_policy", .string c.edgePolicy.name)]
      (do
        let maxLatencyMs ← Json.reread c.maxLatencyMs
        let timestampColumn ← .ok c.timestampColumn
        let sendColumn ← .ok c.sendColumn
        let receiveColumn ← .ok c.receiveColumn
        let edgePolicy ← .ok c.edgePolicy
        .ok ⟨some maxLatencyMs, some timestampColumn, some sendColumn, some receiveColumn,
          some edgePolicy⟩) :=
    .slot rfl rfl (reads_floatValue c.maxLatencyMs) fun _ _ =>
      .slot rfl rfl (reads_stringValue c.timestampColumn) fun _ _ =>
      .slot rfl rfl (reads_stringValue c.sendColumn) fun _ _ =>
      .slot rfl rfl (reads_stringValue c.receiveColumn) fun _ _ =>
      .slot rfl rfl (reads_name c.edgePolicy.lookup_name) fun _ _ => .nil _
  have hread := reads_record hsp hmembers
  unfold Config.reread
  cases hms : Json.reread c.maxLatencyMs <;> rw [hms] at hread <;> exact hread

/-- The text of settings reads as what is read back for them. -/
theorem Config.ofJsonText?_pretty (c : Config) :
    Config.ofJsonText? c.toJson.pretty.toList = c.reread := by
  rw [Config.ofJsonText?, Value.pretty, String.toList_ofList]
  exact (reads_config Spacing.isBlank_pretty c).readAll_eq

variable {c : Config} {t : FileTree} {path : String}

/-- What was saved can be read. -/
theorem Config.read_of_save (h : (c.save t path).result = .ok ()) :
    (c.save t path).tree.read path = .ok (Text.Utf8.encode c.toJson.pretty) := by
  rcases c.save_cases t path with ⟨made, saved, -, hwrite, heq⟩ | ⟨made, fault, f, -, -, heq⟩
  · rw [heq]
    exact (FileTree.wrote_of_write hwrite).read_eq
  · rw [heq] at h
    exact nomatch h

/-- What is loaded from where settings were saved is what is read back for them. -/
theorem Config.load_of_save (h : (c.save t path).result = .ok ()) :
    (Config.load (c.save t path).tree path).value = c.reread.mapError (ConfigError.parse path) := by
  unfold Config.load
  rw [Config.read_of_save h]
  dsimp only
  rw [Text.Utf8.decode?_encode]
  dsimp only
  rw [Config.ofJsonText?_pretty]
  cases c.reread <;> rfl

/-- Settings with a latency bound of at most fifteen digits, neither small nor great, are loaded as
they were saved. -/
theorem Config.load_save (hlow : 1e-5 ≤ c.maxLatencyMs) (hhigh : c.maxLatencyMs < 1e14)
    (hshort : significantDigits c.maxLatencyMs ≤ 15) (hsave : (c.save t path).result = .ok ()) :
    (Config.load (c.save t path).tree path).value = .ok c := by
  have hreread : c.reread = .ok c := by
    unfold Config.reread
    rw [reread_of_short hlow hhigh hshort]
    rfl
  rw [Config.load_of_save hsave, hreread]
  rfl

/-- Settings with column names that have to be escaped or are not ASCII. -/
def oddConfig : Config where
  maxLatencyMs := 1234.5678
  timestampColumn := "t\\\"\x01\n"
  sendColumn := "\x00 \x7f"
  receiveColumn := "μ𝄞"
  edgePolicy := .assumeLow

/-- They can be saved to a directory that is not there yet. -/
theorem Config.load_save_of_odd_names :
    (1e-5 ≤ oddConfig.maxLatencyMs ∧ oddConfig.maxLatencyMs < 1e14
        ∧ significantDigits oddConfig.maxLatencyMs ≤ 15)
      ∧ (oddConfig.save .empty "settings/new/odd.json").result = .ok ()
      ∧ (Config.load (oddConfig.save .empty "settings/new/odd.json").tree
          "settings/new/odd.json").value = .ok oddConfig := by
  have hlow : (1e-5 : Float) ≤ oddConfig.maxLatencyMs := by decide +kernel
  have hhigh : oddConfig.maxLatencyMs < 1e14 := by decide +kernel
  have hshort : significantDigits oddConfig.maxLatencyMs ≤ 15 := by decide +kernel
  have hsave : (oddConfig.save .empty "settings/new/odd.json").result = .ok () := rfl
  exact ⟨⟨hlow, hhigh, hshort⟩, hsave, Config.load_save hlow hhigh hshort hsave⟩

end TriggerLatency
