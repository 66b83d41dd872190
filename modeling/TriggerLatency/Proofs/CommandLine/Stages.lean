import TriggerLatency.CommandLine.Run
import TriggerLatency.CommandLine.Scan
import TriggerLatency.Proofs.Analysis.Soundness
import TriggerLatency.Proofs.FileTree.Write
import TriggerLatency.Proofs.Matching.Outcome

/-!
# A run is all or nothing

A run can fail at eight stages. What it means to fail at one of them (`Invocation.FailsAt`) is
said of the files, the settings and the events, whatever the stages before it do. A run fails
with the failure of the first stage that fails, and then leaves nothing behind; otherwise the
text of the report, which does not depend on where it goes, is at its destination and nowhere
else (`run_all_or_nothing`). The settings that a command line asks for are said field by field
(`Invocation.Overrides`), and there are no others that it could run with (`overrides_iff`).

Each part of a run is staged on its own, the parts are put one behind the other
(`staged_reportText`), and delivering the report is the last stage (`staged_run`).
-/

namespace TriggerLatency

open Double

theorem Logged.value_onSuccess {ε α β : Type} (x : Logged (Except ε α))
    (f : α → Logged (Except ε β)) : (x.onSuccess f).value = x.value >>= fun a => (f a).value := by
  unfold onSuccess
  cases x.value <;> rfl

theorem saveReport_of_error {t : FileTree} {path text : String} {f : FileFault}
    (h : t.write path (Text.Utf8.encode text) = .error f) :
    saveReport t path text = ⟨.error f, []⟩ := by
  unfold saveReport
  rw [h]

theorem saveReport_of_ok {t t' : FileTree} {path text : String}
    (h : t.write path (Text.Utf8.encode text) = .ok t') :
    saveReport t path text = ⟨.ok t', [.resultsSaved path]⟩ := by
  unfold saveReport
  rw [h]

theorem ReportFormat.printed_markdown (text : String) :
    ReportFormat.markdown.printed text = "\n" ++ frameRule ++ "\nMARKDOWN TABLE OUTPUT\n"
      ++ frameRule ++ "\n" ++ text ++ "\n" ++ frameRule ++ "\n" := by
  have htitle : "\nMARKDOWN TABLE OUTPUT\n" = "\n" ++ ("MARKDOWN TABLE OUTPUT" ++ "\n") := rfl
  rw [htitle]
  simp only [printed, String.join, List.map_cons, List.map_nil, List.foldl_cons, List.foldl_nil,
    String.empty_append, String.append_assoc]

/-- What a run can fail at. -/
inductive Stage
  | configFile
  | columns
  | threshold
  | input
  | sendChannel
  | receiveChannel
  | pairs
  | outputFile

/-- The stages, in the order in which a run comes to them. -/
def Stage.inOrder : List Stage :=
  [.configFile, .columns, .threshold, .input, .sendChannel, .receiveChannel, .pairs, .outputFile]

/-- What is given stands in the place of what was there before, which remains if nothing is
given. -/
inductive Replaces {α : Type} : Option α → α → α → Prop
  | given {x before : α} : Replaces (some x) before x
  | kept {before : α} : Replaces none before before

theorem replaces_iff {α : Type} {given : Option α} {before after : α} :
    Replaces given before after ↔ after = given.getD before := by
  constructor
  · intro h
    cases h <;> rfl
  · rintro rfl
    cases given with
    | none => exact .kept
    | some x => exact .given

namespace Invocation

/-- The settings `c` are those of the command line, and for what it leaves open those of `base`. -/
structure Overrides (i : Invocation) (base c : Config) : Prop where
  maxLatencyMs : Replaces i.maxLatencyMs base.maxLatencyMs c.maxLatencyMs
  timestampColumn : Replaces i.timestampColumn base.timestampColumn c.timestampColumn
  sendColumn : Replaces i.sendColumn base.sendColumn c.sendColumn
  receiveColumn : Replaces i.receiveColumn base.receiveColumn c.receiveColumn
  leadingHigh : i.countLeadingHigh = true → c.edgePolicy = .assumeLow
  edgePolicy : i.countLeadingHigh = false → c.edgePolicy = base.edgePolicy

/-- The settings of a run: those of the command line, and for what it leaves open those of the file
that it names, or the default ones if it names none. -/
inductive Settles (i : Invocation) (t : FileTree) : Config → Prop
  | default {c : Config} : i.configFile = none → i.Overrides {} c → Settles i t c
  | file {path : String} {base c : Config} : i.configFile = some path →
      (Config.load t path).value = .ok base → i.Overrides base c → Settles i t c

/-- The settings of a run, and the events of both channels in its recording. -/
structure Detects (i : Invocation) (t : FileTree) (c : Config) (sends receives : List Event) :
    Prop where
  settles : i.Settles t c
  recorded : ∃ r, (Recording.load c t i.input).value = .ok r
    ∧ risingEdges .send c.edgePolicy r.send = sends
    ∧ risingEdges .receive c.edgePolicy r.receive = receives

/-- A stage of a run fails, whatever the others do. -/
inductive FailsAt (i : Invocation) (t : FileTree) : Stage → Failure → Prop
  | configFile {path : String} {e : ConfigError} : i.configFile = some path →
      (Config.load t path).value = .error e → FailsAt i t .configFile (.config e)
  | columns {c : Config} : i.Settles t c → c.sendColumn = c.receiveColumn →
      FailsAt i t .columns (.invalidConfig (.sameColumn c.sendColumn))
  | threshold {c : Config} : i.Settles t c →
      ¬ (c.maxLatencyMs.isFinite = true ∧ 0 < c.maxLatencyMs) →
      FailsAt i t .threshold (.invalidConfig (.invalidMaxLatency c.maxLatencyMs))
  | input {c : Config} {e : RecordingError} : i.Settles t c →
      (Recording.load c t i.input).value = .error e → FailsAt i t .input (.recording e)
  | sendChannel {c : Config} {receives : List Event} : i.Detects t c [] receives →
      FailsAt i t .sendChannel (.analysis (.emptyChannel .send))
  | receiveChannel {c : Config} {sends : List Event} : i.Detects t c sends [] →
      FailsAt i t .receiveChannel (.analysis (.emptyChannel .receive))
  | pairs {c : Config} {sends receives : List Event} : i.Detects t c sends receives →
      (∀ s ∈ sends, ∀ r ∈ receives,
        ¬ (s.timestamp < r.timestamp ∧ r.timestamp - s.timestamp ≤ c.maxLatencyMs)) →
      FailsAt i t .pairs (.analysis (.noValidPairs sends.length receives.length c.maxLatencyMs))
  | outputFile {path : String} {cause : FileFault} : i.output = some path →
      (∀ bytes, t.write path bytes = .error cause) → FailsAt i t .outputFile (.output path cause)

/-- The text of the report on a run, in the form that it asks for. -/
def Reports (i : Invocation) (t : FileTree) (text : String) : Prop :=
  ∃ (c : Config) (limit : LatencyLimit) (sends receives : List Event),
    i.Detects t c sends receives ∧ limit.ms = c.maxLatencyMs
    ∧ text = (Report.ofOutcome (pair limit sends receives .silent).value).render i.format

/-- A run delivers a text: to the file that it names, or else to standard output. -/
def Delivers (i : Invocation) (t : FileTree) (text : String) (r : RunResult) : Prop :=
  match i.output with
  | some path => r.stdout = "" ∧ t.Wrote path (Text.Utf8.encode text) r.tree
  | none => r.tree = t ∧ r.stdout = match i.format with
      | .json => text ++ "\n"
      | .markdown => "\n" ++ frameRule ++ "\nMARKDOWN TABLE OUTPUT\n" ++ frameRule ++ "\n"
          ++ text ++ "\n" ++ frameRule ++ "\n"

section

variable {i : Invocation} {t : FileTree} {c c' : Config} {sends receives : List Event}

/-- Overriding puts what the command line sets in the place of what the settings have, field by
field. -/
theorem overrides_iff {base : Config} : i.Overrides base c ↔ c = i.override base := by
  constructor
  · intro h
    have hpolicy : c.edgePolicy = if i.countLeadingHigh then .assumeLow else base.edgePolicy := by
      cases hflag : i.countLeadingHigh with
      | true => exact h.leadingHigh hflag
      | false => exact h.edgePolicy hflag
    unfold override
    rw [← replaces_iff.mp h.maxLatencyMs, ← replaces_iff.mp h.timestampColumn,
      ← replaces_iff.mp h.sendColumn, ← replaces_iff.mp h.receiveColumn, ← hpolicy]
  · rintro rfl
    exact ⟨replaces_iff.mpr rfl, replaces_iff.mpr rfl, replaces_iff.mpr rfl, replaces_iff.mpr rfl,
      fun hflag => if_pos hflag, fun hflag => if_neg (by rw [hflag]; exact Bool.false_ne_true)⟩

theorem Settles.unique (h : i.Settles t c) (h' : i.Settles t c') : c = c' := by
  cases h with
  | default hnone hc =>
    cases h' with
    | default _ hc' => rw [overrides_iff.mp hc, overrides_iff.mp hc']
    | file hpath => exact nomatch hnone.symm.trans hpath
  | file hpath hload hc =>
    cases h' with
    | default hnone => exact nomatch hnone.symm.trans hpath
    | file hpath' hload' hc' =>
      obtain rfl := Option.some.inj (hpath.symm.trans hpath')
      obtain rfl := Except.ok.inj (hload.symm.trans hload')
      rw [overrides_iff.mp hc, overrides_iff.mp hc']

theorem Detects.unique {sends' receives' : List Event} (h : i.Detects t c sends receives)
    (h' : i.Detects t c' sends' receives') : c = c' ∧ sends = sends' ∧ receives = receives' := by
  obtain ⟨hc, r, hload, rfl, rfl⟩ := h
  obtain ⟨hc', r', hload', rfl, rfl⟩ := h'
  obtain rfl := hc.unique hc'
  obtain rfl := Except.ok.inj (hload.symm.trans hload')
  exact ⟨rfl, rfl, rfl⟩

/-- The events of a recording are at finite times, because rows at other times are skipped. -/
theorem Detects.isFinite (h : i.Detects t c sends receives) :
    (∀ e ∈ sends, e.timestamp.isFinite = true) ∧ ∀ e ∈ receives, e.timestamp.isFinite = true := by
  obtain ⟨-, r, hload, rfl, rfl⟩ := h
  obtain ⟨source, hparse⟩ := Recording.exists_parse_of_load hload
  obtain ⟨hsend, hreceive⟩ := Recording.samples_of_parse hparse
  have hrows : ∀ row ∈ Recording.readings c source, row.timestamp.isFinite = true :=
    fun row hrow => Recording.isFinite_of_mem_readings hrow
  rw [hsend, hreceive]
  exact ⟨fun e he => isFinite_of_mem_risingEdges (·.send) hrows he,
    fun e he => isFinite_of_mem_risingEdges (·.receive) hrows he⟩

/-- A stage fails in one way. -/
theorem FailsAt.unique {s : Stage} {f f' : Failure} (h : i.FailsAt t s f)
    (h' : i.FailsAt t s f') : f = f' := by
  -- the settings and the events are determined, and so is what a stage makes of them
  cases h with
  | configFile hpath hload =>
    cases h' with
    | configFile hpath' hload' =>
      obtain rfl := Option.some.inj (hpath.symm.trans hpath')
      rw [Except.error.inj (hload.symm.trans hload')]
  | columns hc _ => cases h' with | columns hc' _ => rw [hc.unique hc']
  | threshold hc _ => cases h' with | threshold hc' _ => rw [hc.unique hc']
  | input hc hload =>
    cases h' with
    | input hc' hload' =>
      obtain rfl := hc.unique hc'
      rw [Except.error.inj (hload.symm.trans hload')]
  | sendChannel _ => cases h' with | sendChannel _ => rfl
  | receiveChannel _ => cases h' with | receiveChannel _ => rfl
  | pairs hd _ =>
    cases h' with
    | pairs hd' _ =>
      obtain ⟨rfl, rfl, rfl⟩ := hd.unique hd'
      rfl
  | outputFile hpath hwrite =>
    cases h' with
    | outputFile hpath' hwrite' =>
      obtain rfl := Option.some.inj (hpath.symm.trans hpath')
      rw [Except.error.inj ((hwrite []).symm.trans (hwrite' []))]

/-! ## Part by part -/

theorem settings_eq_ok_iff : (i.settings t).value = .ok c ↔ i.Settles t c := by
  unfold settings
  constructor
  · intro h
    cases hpath : i.configFile with
    | none =>
      rw [hpath] at h
      exact .default hpath (overrides_iff.mpr (Except.ok.inj h).symm)
    | some path =>
      rw [hpath] at h
      dsimp only [Logged.mapError] at h
      cases hload : (Config.load t path).value with
      | error e =>
        rw [hload] at h
        exact nomatch h
      | ok base =>
        rw [hload] at h
        exact .file hpath hload (overrides_iff.mpr (Except.ok.inj h).symm)
  · intro h
    cases h with
    | default hnone hc =>
      rw [hnone, overrides_iff.mp hc]
      rfl
    | file hpath hload hc =>
      rw [hpath, overrides_iff.mp hc]
      dsimp only [Logged.mapError]
      rw [hload]
      rfl

theorem staged_settings : Staged (i.FailsAt t) [.configFile] (i.settings t).value := by
  refine Staged.map (Staged.one fun f => ?_) i.override
  constructor
  · intro hf
    cases hf with
    | configFile hpath hload =>
      rw [hpath]
      exact mapError_eq_error_iff.mpr ⟨_, hload, rfl⟩
  · intro h
    cases hpath : i.configFile with
    | none =>
      rw [hpath] at h
      exact nomatch h
    | some path =>
      rw [hpath] at h
      obtain ⟨e, hload, rfl⟩ := mapError_eq_error_iff.mp h
      exact .configFile hpath hload

/-- The check that a limit is not zero or less is that it is positive, as it is finite. -/
theorem positive_iff {ms : Float} :
    ms.isFinite = true ∧ ¬ ms ≤ 0 ↔ ms.isFinite = true ∧ 0 < ms :=
  and_congr_right fun hfinite => float_not_le (isNaN_of_isFinite hfinite) (by decide +kernel)

theorem staged_analyzer (hc : i.Settles t c) :
    Staged (i.FailsAt t) [.columns, .threshold] (analyzer c).value := by
  unfold analyzer Analyzer.ofConfig Config.validate LatencyLimit.ofMs LatencyLimit.ofMs?
  by_cases hcolumns : c.sendColumn = c.receiveColumn
  · rw [if_pos hcolumns]
    exact FirstFailure.here (.columns hc hcolumns)
  · rw [if_neg hcolumns]
    refine Staged.cons ?_ ?_
    · intro f hf
      cases hf with
      | columns hc' hsame => exact hcolumns (hc'.unique hc ▸ hsame)
    · by_cases hms : c.maxLatencyMs.isFinite = true ∧ ¬ c.maxLatencyMs ≤ 0
      · rw [dif_pos hms]
        refine Staged.cons ?_ (Staged.nil _)
        intro f hf
        cases hf with
        | threshold hc' hbad => exact hbad (hc'.unique hc ▸ positive_iff.mp hms)
      · rw [dif_neg hms]
        exact FirstFailure.here (.threshold hc (positive_iff.not.mp hms))

theorem staged_load (hc : i.Settles t c) : Staged (i.FailsAt t) [.input]
    ((Recording.load c t i.input).mapError Failure.recording).value := by
  refine Staged.one fun f => ?_
  refine Iff.trans ?_ mapError_eq_error_iff.symm
  constructor
  · intro hf
    cases hf with
    | input hc' hload => exact ⟨_, hc'.unique hc ▸ hload, rfl⟩
  · rintro ⟨e, hload, rfl⟩
    exact .input hc hload

theorem staged_match? {κ : Type} {o : Observer κ} {limit : LatencyLimit}
    (hd : i.Detects t c sends receives) (hlimit : limit.ms = c.maxLatencyMs) :
    Staged (i.FailsAt t) [.sendChannel, .receiveChannel, .pairs]
      ((match? limit sends receives o).value.mapError Failure.analysis) := by
  unfold match?
  by_cases hsends : sends = []
  · rw [if_pos hsends]
    exact FirstFailure.here (.sendChannel (hsends ▸ hd))
  rw [if_neg hsends]
  refine Staged.cons ?_ ?_
  · intro f hf
    cases hf with
    | sendChannel hd' => exact hsends (hd.unique hd').2.1
  by_cases hreceives : receives = []
  · rw [if_pos hreceives]
    exact FirstFailure.here (.receiveChannel (hreceives ▸ hd))
  rw [if_neg hreceives]
  refine Staged.cons ?_ ?_
  · intro f hf
    cases hf with
    | receiveChannel hd' => exact hreceives (hd.unique hd').2.2
  -- with events on both channels, the pairs decide
  have hnil : (pair limit sends receives o).value.measurements = [] ↔ _ :=
    measurements_pair_eq_nil_iff hd.isFinite.1 hd.isFinite.2
  unfold Fits at hnil
  rw [hlimit] at hnil
  dsimp only
  by_cases hnone : (pair limit sends receives o).value.measurements = []
  · rw [if_pos hnone, hlimit]
    exact FirstFailure.here (.pairs hd (hnil.mp hnone))
  · rw [if_neg hnone]
    refine Staged.cons ?_ (Staged.nil _)
    intro f hf
    cases hf with
    | pairs hd' hno =>
      obtain ⟨rfl, rfl, rfl⟩ := hd.unique hd'
      exact hnone (hnil.mpr hno)

theorem ofConfig_of_analyzer {a : Analyzer} (h : (analyzer c).value = .ok a) :
    Analyzer.ofConfig c = .ok a := by
  unfold analyzer at h
  cases hconfig : Analyzer.ofConfig c with
  | error e =>
    rw [hconfig] at h
    exact nomatch h
  | ok a' =>
    rw [hconfig] at h
    exact congrArg Except.ok (Except.ok.inj h)

section

variable {a : Analyzer} {r : Recording}

/-- The analyzer of a run sees the events of its recording. -/
theorem detects_of_analyzer (hc : i.Settles t c) (ha : (analyzer c).value = .ok a)
    (hr : ((Recording.load c t i.input).mapError Failure.recording).value = .ok r) :
    a.limit.ms = c.maxLatencyMs ∧ i.Detects t c (risingEdges .send a.edgePolicy r.send)
      (risingEdges .receive a.edgePolicy r.receive) := by
  obtain ⟨hlimit, hpolicy⟩ := Analyzer.settings_of_ofConfig (ofConfig_of_analyzer ha)
  exact ⟨hlimit, hc, r, mapError_eq_ok_iff.mp hr, hpolicy ▸ rfl, hpolicy ▸ rfl⟩

theorem staged_analysis (hc : i.Settles t c) (ha : (analyzer c).value = .ok a)
    (hr : ((Recording.load c t i.input).mapError Failure.recording).value = .ok r) :
    Staged (i.FailsAt t) [.sendChannel, .receiveChannel, .pairs] (analysis a r).value := by
  obtain ⟨hlimit, hd⟩ := detects_of_analyzer hc ha hr
  unfold analysis
  dsimp only
  rw [Analyzer.analyze_value, mapError_map]
  exact (staged_match? hd hlimit).map _

theorem report_of_analysis {found : Analysis} (h : (analysis a r).value = .ok found) :
    found.report = Report.ofOutcome (pair a.limit (risingEdges .send a.edgePolicy r.send)
      (risingEdges .receive a.edgePolicy r.receive) .silent).value := by
  obtain ⟨hpair, -⟩ := Analyzer.pair_of_analyze (mapError_eq_ok_iff.mp h)
  exact congrArg Report.ofOutcome hpair.symm

end

/-! ## The whole run -/

/-- The text of a report is made in all stages but the last. -/
theorem reportText_value (i : Invocation) (t : FileTree) :
    (i.reportText t).value = (i.settings t).value >>= fun c => (analyzer c).value >>= fun a =>
      ((Recording.load c t i.input).mapError Failure.recording).value >>= fun r =>
      (analysis a r).value >>= fun found => .ok (found.report.render i.format) := by
  simp only [reportText, Logged.value_onSuccess]

theorem staged_reportText (i : Invocation) (t : FileTree) :
    Staged (i.FailsAt t) [.configFile, .columns, .threshold, .input, .sendChannel,
      .receiveChannel, .pairs] (i.reportText t).value := by
  rw [reportText_value]
  refine staged_settings.bind fun c hc => ?_
  have hc := settings_eq_ok_iff.mp hc
  refine (staged_analyzer hc).bind fun a ha => ?_
  refine (staged_load hc).bind fun r hr => ?_
  exact (staged_analysis hc ha hr).bind fun found _ => Staged.nil _

theorem reports_of_reportText {text : String} (h : (i.reportText t).value = .ok text) :
    i.Reports t text := by
  rw [reportText_value] at h
  obtain ⟨c, hc, h⟩ := exists_of_bind_eq_ok h
  obtain ⟨a, ha, h⟩ := exists_of_bind_eq_ok h
  obtain ⟨r, hr, h⟩ := exists_of_bind_eq_ok h
  obtain ⟨found, hfound, h⟩ := exists_of_bind_eq_ok h
  obtain ⟨hlimit, hd⟩ := detects_of_analyzer (settings_eq_ok_iff.mp hc) ha hr
  refine ⟨c, a.limit, _, _, hd, hlimit, ?_⟩
  rw [← report_of_analysis hfound]
  exact (Except.ok.inj h).symm

/-- The tree that delivering a text leaves. -/
def stored (i : Invocation) (t : FileTree) (text : String) : Except Failure FileTree :=
  match i.output with
  | none => .ok t
  | some path => (t.write path (Text.Utf8.encode text)).mapError (Failure.output path)

theorem staged_stored (i : Invocation) (t : FileTree) (text : String) :
    Staged (i.FailsAt t) [.outputFile] (i.stored t text) := by
  refine Staged.one fun f => ?_
  unfold stored
  constructor
  · intro hf
    cases hf with
    | outputFile hpath hwrite =>
      rw [hpath]
      exact mapError_eq_error_iff.mpr ⟨_, hwrite _, rfl⟩
  · intro h
    cases hpath : i.output with
    | none =>
      rw [hpath] at h
      exact nomatch h
    | some path =>
      rw [hpath] at h
      obtain ⟨cause, hwrite, rfl⟩ := mapError_eq_error_iff.mp h
      exact .outputFile hpath fun bytes => FileTree.write_eq_error hwrite bytes

/-- A run goes through all stages in order. -/
theorem staged_run (i : Invocation) (t : FileTree) :
    Staged (i.FailsAt t) Stage.inOrder ((i.reportText t).value >>= i.stored t) :=
  (staged_reportText i t).bind fun text _ => staged_stored i t text

theorem run_of_reportText_error {f : Failure} (h : (i.reportText t).value = .error f) :
    i.run t = ⟨"", t, some f, (i.reportText t).log⟩ := by
  unfold run
  dsimp only
  rw [h]

theorem run_of_reportText_ok {text : String} (h : (i.reportText t).value = .ok text) :
    i.run t = i.deliver t (i.reportText t).log text := by
  unfold run
  dsimp only
  rw [h]

/-- A report that cannot be delivered leaves nothing behind. -/
theorem deliver_of_error {log : List LogEvent} {text : String} {f : Failure}
    (h : i.stored t text = .error f) :
    (i.deliver t log text).failure = some f ∧ (i.deliver t log text).tree = t
      ∧ (i.deliver t log text).stdout = "" := by
  unfold stored at h
  unfold deliver
  cases hpath : i.output with
  | none =>
    rw [hpath] at h
    exact nomatch h
  | some path =>
    rw [hpath] at h
    obtain ⟨cause, hwrite, rfl⟩ := mapError_eq_error_iff.mp h
    dsimp only
    rw [saveReport_of_error hwrite]
    exact ⟨rfl, rfl, rfl⟩

theorem deliver_of_ok {log : List LogEvent} {text : String} {t' : FileTree}
    (h : i.stored t text = .ok t') :
    (i.deliver t log text).failure = none ∧ i.Delivers t text (i.deliver t log text) := by
  unfold stored at h
  unfold deliver Delivers
  cases hpath : i.output with
  | none =>
    refine ⟨rfl, rfl, ?_⟩
    cases i.format with
    | json => rfl
    | markdown => exact ReportFormat.printed_markdown text
  | some path =>
    rw [hpath] at h
    have hwrite := mapError_eq_ok_iff.mp h
    dsimp only
    rw [saveReport_of_ok hwrite]
    exact ⟨rfl, rfl, FileTree.wrote_of_write hwrite⟩

/-- A run that fails at some stage leaves nothing behind. -/
theorem run_of_error {f : Failure} (h : (i.reportText t).value >>= i.stored t = .error f) :
    (i.run t).failure = some f ∧ (i.run t).tree = t ∧ (i.run t).stdout = "" := by
  cases htext : (i.reportText t).value with
  | error f' =>
    rw [htext] at h
    obtain rfl := Except.error.inj h
    rw [run_of_reportText_error htext]
    exact ⟨rfl, rfl, rfl⟩
  | ok text =>
    rw [htext] at h
    rw [run_of_reportText_ok htext]
    exact deliver_of_error h

/-- A run that goes through all stages delivers the text that it made before the last one. -/
theorem run_of_ok {t' : FileTree} (h : (i.reportText t).value >>= i.stored t = .ok t') :
    (i.run t).failure = none
      ∧ ∃ text, (i.reportText t).value = .ok text ∧ i.Delivers t text (i.run t) := by
  obtain ⟨text, htext, h⟩ := exists_of_bind_eq_ok h
  rw [run_of_reportText_ok htext]
  obtain ⟨hnone, hdelivers⟩ := deliver_of_ok h
  exact ⟨hnone, text, htext, hdelivers⟩

theorem failure_run_iff {f : Failure} :
    (i.run t).failure = some f ↔ (i.reportText t).value >>= i.stored t = .error f := by
  refine ⟨fun h => ?_, fun h => (run_of_error h).1⟩
  cases hrun : (i.reportText t).value >>= i.stored t with
  | error f' => exact congrArg _ (Option.some.inj ((run_of_error hrun).1.symm.trans h))
  | ok t' => exact nomatch (run_of_ok hrun).1.symm.trans h

theorem delivers_of_failure_eq_none (h : (i.run t).failure = none) :
    ∃ text, (i.reportText t).value = .ok text ∧ i.Delivers t text (i.run t) := by
  cases hrun : (i.reportText t).value >>= i.stored t with
  | error f => exact nomatch h.symm.trans (run_of_error hrun).1
  | ok t' => exact (run_of_ok hrun).2

end

/-- The same run, with its report sent somewhere else. -/
def redirect (i : Invocation) (destination : Option String) : Invocation :=
  { i with output := destination }

/-- The report is made without a look at the destination. -/
theorem reportText_redirect (i : Invocation) (t : FileTree) (destination : Option String) :
    (i.redirect destination).reportText t = i.reportText t := rfl

/-- A run fails with the failure of its first stage that fails, if one does, and then changes no
file and prints nothing. The runs that succeed, to whichever destination, deliver one text: the
report, to the file named and no other, or else to standard output. -/
theorem run_all_or_nothing (i : Invocation) (t : FileTree) :
    (∀ f, (i.run t).failure = some f ↔ FirstFailure (i.FailsAt t) Stage.inOrder f)
    ∧ ((i.run t).failure ≠ none → (i.run t).tree = t ∧ (i.run t).stdout = "")
    ∧ ∃ text, ∀ destination,
        ((i.redirect destination).run t).failure = none →
          i.Reports t text
          ∧ (i.redirect destination).Delivers t text ((i.redirect destination).run t) := by
  have hfails : ∀ s f f', i.FailsAt t s f → i.FailsAt t s f' → f = f' :=
    fun s f f' h h' => h.unique h'
  refine ⟨fun f => ?_, fun hfailure => ?_, ?_⟩
  · rw [failure_run_iff, (staged_run i t).eq_error_iff hfails]
  · obtain ⟨f, hf⟩ := Option.ne_none_iff_exists'.mp hfailure
    exact (run_of_error (failure_run_iff.mp hf)).2
  · refine ⟨(i.reportText t).value.toOption.getD "", fun destination hsuccess => ?_⟩
    obtain ⟨text, htext, hdelivers⟩ := delivers_of_failure_eq_none hsuccess
    rw [reportText_redirect] at htext
    rw [htext]
    exact ⟨reports_of_reportText htext, hdelivers⟩

/-- A recording of which a run takes the columns `D2` and `D3`; the first is high from the start. -/
def sampleFile : String := "Timestamp(ms),D0,D1,D2,D3\n0.25,0,0,1,0\n2.0,0,0,0,1\n"

/-- Settings of two fields. -/
def sampleSettings : String := "\x7b\"receive_column\": \"D3\", \"max_latency_ms\": 12.5\x7d"

/-- The recording, and the settings beside it. -/
def sampleFiles : FileTree :=
  (FileTree.empty.put ["rec.csv"] (.file (Text.Utf8.encode sampleFile))).put ["cfg.json"]
    (.file (Text.Utf8.encode sampleSettings))

/-- Sets a bound and a column, and counts leading highs; the receive column is that of the file. -/
def sampleRun (maxLatencyMs : Float) (sendColumn : String) : Invocation where
  input := "rec.csv"
  maxLatencyMs := some maxLatencyMs
  output := none
  format := .json
  configFile := some "cfg.json"
  timestampColumn := none
  sendColumn := some sendColumn
  receiveColumn := none
  countLeadingHigh := true
  verbose := false

/-- What the sample run prints. -/
def samplePrinted : String :=
  "\n".intercalate ["\x7b", "  \"summary\": \x7b", "    \"count\": 1,", "    \"mean\": 1.75,",
    "    \"min\": 1.75,", "    \"max\": 1.75", "  \x7d,", "  \"measurements\": [", "    \x7b",
    "      \"index\": 0,", "      \"send_time\": 0.25,", "      \"receive_time\": 2.0,",
    "      \"latency\": 1.75", "    \x7d", "  ],", "  \"unmatched\": []", "\x7d", ""]

/-- The settings of the sample run are taken from its command line, its file and the defaults. Its
report is printed and saved alike. With another column or bound on the command line, or without the
file of settings, the run fails for that. -/
theorem run_all_or_nothing_overridden :
    CommandLine.parse ["-i", "rec.csv", "-m", "2.5", "-c", "cfg.json", "--send-column", "D2",
        "--count-leading-high", "--format=json"] = .ok (sampleRun 2.5 "D2")
    ∧ (sampleRun 2.5 "D2").Settles sampleFiles ⟨2.5, "Timestamp(ms)", "D2", "D3", .assumeLow⟩
    ∧ (∃ text, (sampleRun 2.5 "D2").Reports sampleFiles text
        ∧ ∀ destination ∈ [none, some "out.json"],
          ((sampleRun 2.5 "D2").redirect destination).Delivers sampleFiles text
            (((sampleRun 2.5 "D2").redirect destination).run sampleFiles))
    ∧ ((sampleRun 2.5 "D2").run sampleFiles).stdout = samplePrinted
    ∧ FirstFailure ((sampleRun 2.5 "D3").FailsAt sampleFiles) Stage.inOrder
        (.invalidConfig (.sameColumn "D3"))
    ∧ FirstFailure ((sampleRun 0 "D2").FailsAt sampleFiles) Stage.inOrder
        (.invalidConfig (.invalidMaxLatency 0))
    ∧ FirstFailure ((sampleRun 1.5 "D2").FailsAt sampleFiles) Stage.inOrder
        (.analysis (.noValidPairs 1 1 1.5))
    ∧ FirstFailure ((sampleRun 2.5 "D2").FailsAt .empty) Stage.inOrder
        (.config (.access "cfg.json" .notFound)) := by
  have hsettles : (sampleRun 2.5 "D2").Settles sampleFiles
      ⟨2.5, "Timestamp(ms)", "D2", "D3", .assumeLow⟩ := by
    have hload : (Config.load sampleFiles "cfg.json").value
        = .ok { maxLatencyMs := 12.5, receiveColumn := "D3" } := by decide +kernel
    exact .file rfl hload ⟨.given, .kept, .given, .kept, fun _ => rfl, nofun⟩
  have hsuccess : ∀ destination ∈ [none, some "out.json"],
      (((sampleRun 2.5 "D2").redirect destination).run sampleFiles).failure = none := by
    decide +kernel
  have hfails (i : Invocation) (t : FileTree) {f : Failure} (h : (i.run t).failure = some f) :
      FirstFailure (i.FailsAt t) Stage.inOrder f := ((run_all_or_nothing i t).1 f).mp h
  obtain ⟨-, -, text, hdelivers⟩ := run_all_or_nothing (sampleRun 2.5 "D2") sampleFiles
  refine ⟨by decide +kernel, hsettles, ⟨text, ?_, ?_⟩, by decide +kernel, ?_, ?_, ?_, ?_⟩
  · exact (hdelivers none (hsuccess none (by simp))).1
  · exact fun destination hmem => (hdelivers destination (hsuccess destination hmem)).2
  · exact hfails _ _ (by decide +kernel)
  · exact hfails _ _ (by decide +kernel)
  · exact hfails _ _ (by decide +kernel)
  · exact hfails _ _ (by decide +kernel)

end Invocation

end TriggerLatency
