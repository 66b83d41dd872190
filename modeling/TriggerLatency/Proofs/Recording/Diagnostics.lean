import TriggerLatency.Proofs.Recording.Accounting
import TriggerLatency.Proofs.Recording.Interruption
import Mathlib.Data.Nat.ModEq

/-!
# What the log of a recording says

The log of a recording warns of every line that is skipped, and of no other, in the order of the
lines. A warning carries the number of its line among all lines of the source, so these numbers go
up, and they tell the lines apart that a reader would have to look at (`Row.mem_skips_iff`,
`Row.pairwise_skips`).

Progress is told whenever the number of accepted rows gets to a multiple of the interval. What has
been told so far is the `milestones` of that number, and one more row keeps it so
(`Row.milestones_note`): a row that is not accepted leaves the number where it is and tells nothing,
even if it stands at a multiple.
-/

namespace TriggerLatency

/-! ## Repeated lines -/

/-- A line with its line feed is as many lines as it is repeated. -/
theorem ByteSource.lines_replicate_append {line : List UInt8} (h : Terminated line)
    (hline : (ofBytes line).lines = [line]) (n : Nat) (more : List UInt8) :
    (ofBytes ((List.replicate n line).flatten ++ more)).lines
      = List.replicate n line ++ (ofBytes more).lines := by
  induction n with
  | zero => rfl
  | succ n ih =>
    rw [List.replicate_succ, List.flatten_cons, List.append_assoc, lines_terminated_append h, hline,
      ih]
    rfl

/-- An accepted row counts as often as it is repeated. -/
theorem Recording.ofRows_replicate (n : Nat) (reading : Reading) :
    ofRows (List.replicate n (.accepted reading))
      = ⟨List.replicate n reading.sendSample, List.replicate n reading.receiveSample, n, 0⟩ := by
  have hreadings : (List.replicate n (Row.accepted reading)).filterMap Row.reading?
      = List.replicate n reading := List.filterMap_replicate_of_some rfl
  have hfaults : (List.replicate n (Row.accepted reading)).filterMap Row.fault? = [] :=
    List.filterMap_replicate_of_none rfl
  unfold ofRows
  rw [hreadings, hfaults]
  simp only [List.map_replicate, List.length_replicate, List.length_nil]

/-! ## Records by their message -/

/-- The records of a log that have a message. -/
def recordsSaying (message : String) (log : List LogEvent) : List LogRecord :=
  (log.map LogEvent.record).filter fun record => record.message = message

/-- The records with a message are those of the events that it is picked for. -/
theorem recordsSaying_eq {α : Type} {message : String} {pick : LogEvent → Option α}
    {write : α → LogRecord} (h : ∀ event : LogEvent,
      (if event.record.message = message then some event.record else none)
        = (pick event).map write) (log : List LogEvent) :
    recordsSaying message log = (log.filterMap pick).map write := by
  unfold recordsSaying
  induction log with
  | nil => rfl
  | cons event log ih =>
    have hevent := h event
    rw [List.map_cons, List.filterMap_cons]
    cases hpick : pick event with
    | none =>
      rw [hpick] at hevent
      have hother : ¬ event.record.message = message := by
        intro hsame
        rw [if_pos hsame] at hevent
        exact nomatch hevent
      rw [List.filter_cons_of_neg (by simpa using hother)]
      exact ih
    | some a =>
      rw [hpick] at hevent
      have hsame : event.record.message = message := by
        by_contra hother
        rw [if_neg hother] at hevent
        exact nomatch hevent
      rw [if_pos hsame] at hevent
      rw [List.filter_cons_of_pos (by simpa using hsame), ih, Option.some.inj hevent]
      rfl

/-- The rows accepted so far, where progress is told. -/
def LogEvent.progress? : LogEvent → Option Nat
  | .rowsProcessed rows => some rows
  | _ => none

/-- The progress that a log tells. -/
def progressTold (log : List LogEvent) : List Nat := log.filterMap LogEvent.progress?

theorem recordsSaying_skipping (log : List LogEvent) :
    recordsSaying "Skipping invalid row" log = (skippedRows log).map fun skip =>
      ⟨.warn, "Skipping invalid row",
        [("line", .count skip.1), ("reason", .text skip.2.message)]⟩ := by
  refine recordsSaying_eq (fun event => ?_) log
  cases event <;> rfl

theorem recordsSaying_processed (log : List LogEvent) :
    recordsSaying "Processed rows" log = (progressTold log).map fun rows =>
      ⟨.debug, "Processed rows", [("rows", .count rows)]⟩ := by
  refine recordsSaying_eq (fun event => ?_) log
  cases event <;> rfl

/-! ## Progress -/

/-- The multiples of the progress interval, up to a number of rows. -/
def milestones (rows : Nat) : List Nat :=
  (List.range (rows / progressInterval)).map fun k => (k + 1) * progressInterval

theorem milestones_zero : milestones 0 = [] := by
  unfold milestones
  rw [Nat.zero_div]
  rfl

/-- One more row adds itself if it is a multiple. -/
theorem milestones_succ (rows : Nat) :
    milestones (rows + 1)
      = milestones rows ++ if (rows + 1) % progressInterval = 0 then [rows + 1] else [] := by
  unfold milestones
  rw [Nat.succ_div]
  by_cases hmultiple : progressInterval ∣ rows + 1
  · have hreached : (rows / progressInterval + 1) * progressInterval = rows + 1 := by
      have hdiv := Nat.div_mul_cancel hmultiple
      rwa [Nat.succ_div, if_pos hmultiple] at hdiv
    rw [if_pos hmultiple, if_pos (Nat.mod_eq_zero_of_dvd hmultiple), List.range_succ,
      List.map_append, List.map_singleton, hreached]
  · have hbetween : ¬ (rows + 1) % progressInterval = 0 := fun h =>
      hmultiple (Nat.dvd_of_mod_eq_zero h)
    rw [if_neg hmultiple, if_neg hbetween, List.append_nil, Nat.add_zero]

namespace Row

variable {first line : Nat} {rows : List Row} {fault : RowFault}

/-- What a row tells of progress leads from the milestones before it to those after it. -/
theorem milestones_note (accepted : Nat) (numbered : Row × Nat) :
    milestones (note accepted numbered).2
      = milestones accepted ++ progressTold (note accepted numbered).1 := by
  obtain ⟨row, line⟩ := numbered
  cases row with
  | blank => exact (List.append_nil _).symm
  | rejected fault => exact (List.append_nil _).symm
  | accepted reading =>
    rw [note]
    dsimp only
    rw [milestones_succ]
    split <;> rfl

/-- A row is counted once it is accepted. -/
theorem note_snd (accepted : Nat) (numbered : Row × Nat) :
    (note accepted numbered).2 = accepted + numbered.1.reading?.toList.length := by
  obtain ⟨row, line⟩ := numbered
  cases row <;> rfl

/-- The log of rows tells all milestones up to the number of accepted rows. -/
theorem progressTold_notes (first : Nat) (rows : List Row) :
    progressTold (notes first rows) = milestones (rows.filterMap reading?).length := by
  -- whatever has been accepted before, since the rows are counted on from there
  have hrun (accepted : Nat) :
      milestones accepted
          ++ progressTold (Transducer.run note accepted (rows.zipIdx first)).1.flatten
        = milestones (accepted + (rows.filterMap reading?).length) := by
    induction rows generalizing first accepted with
    | nil => exact List.append_nil _
    | cons row rows ih =>
      have hcount : (note accepted (row, first)).2 + (rows.filterMap reading?).length
          = accepted + ((row :: rows).filterMap reading?).length := by
        rw [note_snd, List.filterMap_cons]
        cases row.reading? with
        | none => rfl
        | some reading =>
          simp only [Option.toList_some, List.length_cons, List.length_nil]
          omega
      rw [List.zipIdx_cons, Transducer.run_cons, List.flatten_cons, progressTold,
        List.filterMap_append, ← List.append_assoc, ← hcount, ← ih (first + 1)]
      exact congrArg (· ++ _) (milestones_note accepted (row, first)).symm
  have hnotes := hrun 0
  rwa [milestones_zero, List.nil_append, Nat.zero_add] at hnotes

/-! ## Skipped rows -/

theorem length_skips (first : Nat) (rows : List Row) :
    (skips first rows).length = (rows.filterMap fault?).length := by
  induction rows generalizing first with
  | nil => rfl
  | cons row rows ih =>
    rw [skips_cons, List.length_append, ih, List.filterMap_cons]
    cases row.fault? with
    | none => exact Nat.zero_add _
    | some fault => exact Nat.add_comm 1 _

/-- The skipped rows are the rejected ones, each with its number. -/
theorem mem_skips_iff :
    (line, fault) ∈ skips first rows ↔
      first ≤ line ∧ rows[line - first]? = some (.rejected fault) := by
  unfold skips
  rw [List.mem_filterMap]
  constructor
  · intro ⟨⟨row, number⟩, hmem, hfault⟩
    obtain ⟨fault', hrow, hskip⟩ := Option.map_eq_some_iff.mp hfault
    obtain ⟨rfl, rfl⟩ := Prod.mk.inj hskip
    obtain ⟨hle, hget⟩ := List.mk_mem_zipIdx_iff_le_and_getElem?_sub.mp hmem
    refine ⟨hle, hget.trans (congrArg some ?_)⟩
    cases row with
    | rejected fault => exact congrArg rejected (Option.some.inj hrow)
    | blank => exact nomatch hrow
    | accepted reading => exact nomatch hrow
  · intro ⟨hle, hget⟩
    exact ⟨(.rejected fault, line), List.mk_mem_zipIdx_iff_le_and_getElem?_sub.mpr ⟨hle, hget⟩, rfl⟩

/-- The numbers of the skipped rows go up. -/
theorem pairwise_skips (first : Nat) (rows : List Row) :
    (skips first rows).Pairwise fun skip skip' => skip.1 < skip'.1 := by
  induction rows generalizing first with
  | nil => exact .nil
  | cons row rows ih =>
    rw [skips_cons]
    refine List.pairwise_append.mpr ⟨?_, ih (first + 1), ?_⟩
    · cases row.fault? with
      | none => exact .nil
      | some fault => exact List.pairwise_singleton _ _
    · intro skip hskip skip' hskip'
      obtain ⟨hle, -⟩ := mem_skips_iff.mp hskip'
      have hfirst : skip.1 = first := by
        cases hfault : row.fault? with
        | none => simp [hfault] at hskip
        | some fault =>
          rw [hfault] at hskip
          rw [List.mem_singleton.mp hskip]
      omega

end Row

namespace Recording

variable {c : Config} {source : ByteSource} {header : List UInt8} {layout : ColumnLayout}
  {lines above below : List (List UInt8)}

/-- A line, told by its number among all lines, is skipped: it stands below the header and is not
blank, and the fault is that of the first check that it fails. -/
def SkippedAt (c : Config) (layout : ColumnLayout) (lines above : List (List UInt8)) (number : Nat)
    (fault : RowFault) : Prop :=
  above.length + 1 < number ∧ ∃ line, lines[number - 1]? = some line ∧ ¬ IsBlankText line
    ∧ FirstFailure (RowCheck.Fails layout c line) RowCheck.inOrder fault

/-- The lines below the header go on with the numbers. -/
theorem HeaderAt.getElem?_below (h : HeaderAt lines above header below) (i : Nat) :
    lines[above.length + 1 + i]? = below[i]? := by
  rw [h.eq_append, Nat.add_assoc, List.getElem?_append_right (Nat.le_add_right _ _),
    Nat.add_sub_cancel_left, Nat.add_comm 1 i, List.getElem?_cons_succ]

theorem HeaderAt.mem_skips_iff (h : HeaderAt lines above header below) {number : Nat}
    {fault : RowFault} :
    (number, fault) ∈ Row.skips (above.length + 2) (below.map (Row.ofLine layout c))
      ↔ SkippedAt c layout lines above number fault := by
  rw [Row.mem_skips_iff]
  refine and_congr_right fun hbelow => ?_
  have hnumber : number - 1 = above.length + 1 + (number - (above.length + 2)) := by omega
  rw [hnumber, h.getElem?_below, List.getElem?_map, Option.map_eq_some_iff]
  simp only [ofLine_eq_rejected_iff]

/-- The progress told is that of the accepted rows. -/
theorem HeaderAt.progressTold_parse (h : HeaderAt source.lines above header below)
    (hnames : ColumnLayout.ofNames c (columnNames header) = .ok layout) :
    progressTold (parse c source).log
      = milestones ((below.map (Row.ofLine layout c)).filterMap Row.reading?).length := by
  unfold parse
  dsimp only
  rw [h.dropWhile_eq]
  dsimp only
  rw [hnames, ← Row.progressTold_notes (source.lines.length - below.length + 1)]
  dsimp only
  cases source.failure with
  | some cause => rfl
  | none =>
    unfold progressTold
    dsimp only
    rw [List.filterMap_append]
    exact List.append_nil _

/-- A recording is made of the lines below a header. -/
theorem exists_headerAt_of_parse {r : Recording} (h : (parse c source).value = .ok r) :
    ∃ above header below layout, HeaderAt source.lines above header below
      ∧ ColumnLayout.ofNames c (columnNames header) = .ok layout
      ∧ r = ofRows (below.map (Row.ofLine layout c)) := by
  have hsource : source = .ofBytes source.bytes := by
    rw [ByteSource.ofBytes, ← failure_eq_none_of_parse h]
  rw [hsource] at h ⊢
  rw [value_parse] at h
  rcases blank_or_exists_headerAt (ByteSource.ofBytes source.bytes).lines with
    hblank | ⟨above, header, below, hheader⟩
  · rw [readLines_of_blank hblank] at h
    cases h
  · rw [hheader.readLines_eq] at h
    obtain ⟨layout, hnames, rfl⟩ := exists_of_map_eq_ok h
    exact ⟨above, header, below, layout, hheader, hnames, rfl⟩

/-- The log of a recording warns of the skipped lines, one warning for each, with its number among
all lines and in the order of the lines, as many as are counted; and it tells progress at every
multiple of the interval up to the number of accepted rows, once. -/
theorem parse_diagnoses_lines (c : Config) (source : ByteSource) (r : Recording)
    (h : (parse c source).value = .ok r) :
    ∃ (above : List (List UInt8)) (header : List UInt8) (below : List (List UInt8))
      (layout : ColumnLayout) (skips : List (Nat × RowFault)),
    HeaderAt source.lines above header below
    ∧ ColumnLayout.ofNames c (columnNames header) = .ok layout
    ∧ recordsSaying "Skipping invalid row" (parse c source).log = skips.map (fun skip =>
        ⟨.warn, "Skipping invalid row",
          [("line", .count skip.1), ("reason", .text skip.2.message)]⟩)
    ∧ (∀ number fault, (number, fault) ∈ skips ↔
        SkippedAt c layout source.lines above number fault)
    ∧ skips.Pairwise (fun skip skip' => skip.1 < skip'.1)
    ∧ skips.length = r.rowsSkipped
    ∧ recordsSaying "Processed rows" (parse c source).log
      = (List.range (r.rowsParsed / 100000)).map fun k =>
        ⟨.debug, "Processed rows", [("rows", .count ((k + 1) * 100000))]⟩ := by
  obtain ⟨above, header, below, layout, hheader, hnames, rfl⟩ := exists_headerAt_of_parse h
  refine ⟨above, header, below, layout, _, hheader, hnames, ?_, fun number fault =>
    hheader.mem_skips_iff, Row.pairwise_skips _ _, Row.length_skips _ _, ?_⟩
  · rw [recordsSaying_skipping, hheader.skippedRows_parse hnames]
  · rw [recordsSaying_processed, hheader.progressTold_parse hnames, milestones, List.map_map]
    rfl

/-- Two hundred thousand rows between two bad ones, the second of which comes at a multiple of the
interval, with a blank line above the header and another one among the rows. -/
theorem parse_diagnoses_lines_of_long_recording :
    let source := ByteSource.ofBytes (Text.Utf8.encode "\nTimestamp(ms),D0,D1\n0.25,1\n"
      ++ ((List.replicate 200000 (Text.Utf8.encode "0.5,0,1\n")).flatten
        ++ Text.Utf8.encode " \n0.75,2,1"))
    let r : Recording :=
      ⟨List.replicate 200000 ⟨0.5, .low⟩, List.replicate 200000 ⟨0.5, .high⟩, 200000, 2⟩
    (parse {} source).value = .ok r
    ∧ recordsSaying "Processed rows" (parse {} source).log
      = [⟨.debug, "Processed rows", [("rows", .count 100000)]⟩,
        ⟨.debug, "Processed rows", [("rows", .count 200000)]⟩]
    ∧ ∃ (above : List (List UInt8)) (header : List UInt8) (below : List (List UInt8))
      (layout : ColumnLayout) (skips : List (Nat × RowFault)),
      HeaderAt source.lines above header below
      ∧ ColumnLayout.ofNames {} (columnNames header) = .ok layout
      ∧ recordsSaying "Skipping invalid row" (parse {} source).log = skips.map (fun skip =>
          ⟨.warn, "Skipping invalid row",
            [("line", .count skip.1), ("reason", .text skip.2.message)]⟩)
      ∧ (∀ number fault, (number, fault) ∈ skips ↔
          SkippedAt {} layout source.lines above number fault)
      ∧ skips.Pairwise (fun skip skip' => skip.1 < skip'.1)
      ∧ skips.length = r.rowsSkipped
      ∧ recordsSaying "Processed rows" (parse {} source).log
        = (List.range (r.rowsParsed / 100000)).map fun k =>
          ⟨.debug, "Processed rows", [("rows", .count ((k + 1) * 100000))]⟩ := by
  intro source r
  have hlines : source.lines = [Text.Utf8.encode "\n"] ++ Text.Utf8.encode "Timestamp(ms),D0,D1\n"
      :: ([Text.Utf8.encode "0.25,1\n"]
        ++ (List.replicate 200000 (Text.Utf8.encode "0.5,0,1\n")
          ++ [Text.Utf8.encode " \n", Text.Utf8.encode "0.75,2,1"])) := by
    have hfront : ByteSource.Terminated (Text.Utf8.encode "\nTimestamp(ms),D0,D1\n0.25,1\n") := by
      rfl
    have hrow : ByteSource.Terminated (Text.Utf8.encode "0.5,0,1\n") := by rfl
    show (ByteSource.ofBytes (_ ++ _)).lines = _
    rw [ByteSource.lines_terminated_append hfront, ByteSource.lines_replicate_append hrow (by rfl)]
    rfl
  have hheader : HeaderAt source.lines _ _ _ := ⟨hlines, by decide +kernel, by decide +kernel⟩
  have hread : (parse {} source).value = .ok r := by
    have hnames : ColumnLayout.ofNames {} (columnNames (Text.Utf8.encode "Timestamp(ms),D0,D1\n"))
        = .ok ⟨0, 1, 2⟩ := by rfl
    have hbad : Row.ofLine ⟨0, 1, 2⟩ {} (Text.Utf8.encode "0.25,1\n")
        = .rejected (.tooShort 3 2) := by rfl
    have hgood : Row.ofLine ⟨0, 1, 2⟩ {} (Text.Utf8.encode "0.5,0,1\n")
        = .accepted ⟨0.5, .low, .high⟩ := by rfl
    have hlast : [Text.Utf8.encode " \n", Text.Utf8.encode "0.75,2,1"].map (Row.ofLine ⟨0, 1, 2⟩ {})
        = [.blank, .rejected (.invalidLevel "D0" "2")] := by rfl
    rw [value_parse, hheader.readLines_eq, hnames]
    refine congrArg Except.ok ?_
    dsimp only
    rw [List.map_append, List.map_append, List.map_replicate, List.map_singleton, hbad, hgood,
      hlast, ofRows_append, ofRows_append, ofRows_replicate]
    show Recording.mk ([] ++ (List.replicate 200000 ⟨0.5, .low⟩ ++ []))
      ([] ++ (List.replicate 200000 ⟨0.5, .high⟩ ++ [])) (0 + (200000 + 0)) (1 + (0 + 1)) = r
    rw [List.append_nil, List.append_nil, List.nil_append, List.nil_append]
  obtain ⟨above, header, below, layout, skips, htold⟩ := parse_diagnoses_lines {} source r hread
  have hprogress := htold.2.2.2.2.2.2
  have hmultiples : r.rowsParsed / 100000 = 2 := by
    show 200000 / 100000 = 2
    decide
  rw [hmultiples] at hprogress
  exact ⟨hread, hprogress, above, header, below, layout, skips, htold⟩

end Recording

end TriggerLatency
