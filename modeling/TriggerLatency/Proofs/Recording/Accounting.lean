import TriggerLatency.Proofs.Recording.Concatenation
import TriggerLatency.Proofs.Recording.Grammar
import Mathlib.Data.List.Forall2
import Mathlib.Data.List.Induction

/-!
# Every line is accounted for

A recording tells the whole of what stands below the header (`parse_accounts_for_lines`): its
samples are what the lines that are rows hold, in the order of these lines, and its two counters
together count the lines that are not blank, whatever bytes these are made of.

That is an invariant of the reading (`Recording.Tells`). One more line keeps it
(`Recording.Tells.concat`), whether it is a row, rejected or blank.
-/

namespace TriggerLatency

variable {l : ColumnLayout} {c : Config} {line : List UInt8} {below : List (List UInt8)}

/-- A line is a row. -/
def IsRow (l : ColumnLayout) (line : List UInt8) : Prop := ∃ r, HoldsRow l line r

theorem isBlankText_iff_trim :
    IsBlankText line ↔ (Text.Utf8.decode? line).map Text.trim = some [] := by
  rw [Option.map_eq_some_iff]
  constructor
  · intro ⟨text, htext, hblank⟩
    exact ⟨text.toList, htext ▸ Text.Utf8.decode?_encode text, Text.trim_eq_nil_iff.mpr hblank⟩
  · intro ⟨text, htext, htrim⟩
    refine ⟨String.ofList text, Text.Utf8.decode?_eq_some_iff.mp htext, ?_⟩
    rw [String.toList_ofList]
    exact Text.trim_eq_nil_iff.mp htrim

instance : Decidable (IsBlankText line) := decidable_of_iff' _ isBlankText_iff_trim

theorem isRow_iff_toBool : IsRow l line ↔ (l.readLine {} line).toBool = true := by
  have hread : IsRow l line ↔ ∃ r, l.readLine {} line = .ok r :=
    exists_congr fun r => readLine_eq_ok_iff.symm
  rw [hread]
  cases l.readLine {} line with
  | error fault => exact ⟨fun ⟨r, hr⟩ => (nomatch hr), fun h => (nomatch h)⟩
  | ok r => exact ⟨fun _ => rfl, fun _ => ⟨r, rfl⟩⟩

instance : Decidable (IsRow l line) := decidable_of_iff' _ isRow_iff_toBool

theorem HoldsRow.isRow {r : Reading} (h : HoldsRow l line r) : IsRow l line := ⟨r, h⟩

theorem IsBlankText.not_isRow (h : IsBlankText line) : ¬ IsRow l line :=
  fun ⟨_, hrow⟩ => hrow.not_isBlankText h

namespace Recording

variable {r r' : Recording}

/-- A recording tells what stands on the lines below a header: every line that is a row gives both
channels a sample at the one time that it holds, in the order of the lines, and every line that is
not blank is counted once. -/
structure Tells (r : Recording) (l : ColumnLayout) (below : List (List UInt8)) : Prop where
  samples : ∃ readings, List.Forall₂ (HoldsRow l) (below.filter fun line => IsRow l line) readings
    ∧ r.send = readings.map Reading.sendSample ∧ r.receive = readings.map Reading.receiveSample
  length_send : r.send.length = r.rowsParsed
  length_receive : r.receive.length = r.rowsParsed
  times : List.Forall₂ (fun s s' => s.timestamp = s'.timestamp ∧ s.timestamp.isFinite = true)
    r.send r.receive
  counted : r.rowsParsed + r.rowsSkipped = below.countP fun line => ¬ IsBlankText line

@[simp] theorem send_append : (r ++ r').send = r.send ++ r'.send := rfl
@[simp] theorem receive_append : (r ++ r').receive = r.receive ++ r'.receive := rfl
@[simp] theorem rowsParsed_append : (r ++ r').rowsParsed = r.rowsParsed + r'.rowsParsed := rfl
@[simp] theorem rowsSkipped_append : (r ++ r').rowsSkipped = r.rowsSkipped + r'.rowsSkipped := rfl

theorem tells_nil : (ofRows []).Tells l [] where
  samples := ⟨[], .nil, rfl, rfl⟩
  length_send := rfl
  length_receive := rfl
  times := .nil
  counted := rfl

/-- What is told of lines is told of them part by part. -/
theorem Tells.append {below' : List (List UInt8)} (h : r.Tells l below) (h' : r'.Tells l below') :
    (r ++ r').Tells l (below ++ below') where
  samples := by
    obtain ⟨readings, hheld, hsend, hreceive⟩ := h.samples
    obtain ⟨readings', hheld', hsend', hreceive'⟩ := h'.samples
    refine ⟨readings ++ readings', ?_, ?_, ?_⟩
    · rw [List.filter_append]
      exact List.rel_append hheld hheld'
    · rw [send_append, hsend, hsend', List.map_append]
    · rw [receive_append, hreceive, hreceive', List.map_append]
  length_send := by
    rw [send_append, List.length_append, h.length_send, h'.length_send, rowsParsed_append]
  length_receive := by
    rw [receive_append, List.length_append, h.length_receive, h'.length_receive, rowsParsed_append]
  times := List.rel_append h.times h'.times
  counted := by
    rw [List.countP_append, ← h.counted, ← h'.counted, rowsParsed_append, rowsSkipped_append]
    omega

/-- A line that is no row gives no samples, and is counted unless it is blank. -/
theorem tells_skipped (hrow : ¬ IsRow l line) :
    Tells ⟨[], [], 0, if IsBlankText line then 0 else 1⟩ l [line] where
  samples := by
    refine ⟨[], ?_, rfl, rfl⟩
    rw [List.filter_cons_of_neg (by simpa using hrow), List.filter_nil]
    exact .nil
  length_send := rfl
  length_receive := rfl
  times := .nil
  counted := by
    by_cases hblank : IsBlankText line
    · simp [hblank]
    · simp [hblank]

/-- A row gives both channels a sample, and is counted. -/
theorem tells_accepted {reading : Reading} (hrow : HoldsRow l line reading) :
    Tells ⟨[reading.sendSample], [reading.receiveSample], 1, 0⟩ l [line] where
  samples := by
    refine ⟨[reading], ?_, rfl, rfl⟩
    rw [List.filter_cons_of_pos (by simpa using hrow.isRow), List.filter_nil]
    exact .cons hrow .nil
  length_send := rfl
  length_receive := rfl
  times := .cons ⟨rfl, hrow.isFinite⟩ .nil
  counted := by simp [hrow.not_isBlankText]

/-- A line by itself is told, whatever it is. -/
theorem tells_line : (ofRows [Row.ofLine l c line]).Tells l [line] := by
  cases hline : Row.ofLine l c line with
  | blank =>
    have hblank : IsBlankText line := ofLine_eq_blank_iff.mp hline
    have htells := tells_skipped (l := l) hblank.not_isRow
    rwa [if_pos hblank] at htells
  | accepted reading => exact tells_accepted (ofLine_eq_accepted_iff.mp hline)
  | rejected fault =>
    have hblank : ¬ IsBlankText line := (ofLine_eq_rejected_iff.mp hline).1
    have hrow : ¬ IsRow l line := by
      intro ⟨reading, hreading⟩
      rw [← ofLine_eq_accepted_iff (c := c), hline] at hreading
      exact nomatch hreading
    have htells := tells_skipped hrow
    rwa [if_neg hblank] at htells

/-- One more line is told with those above it. -/
theorem Tells.concat (h : r.Tells l below) :
    (r ++ ofRows [Row.ofLine l c line]).Tells l (below ++ [line]) :=
  h.append tells_line

theorem tells_ofRows (below : List (List UInt8)) :
    (ofRows (below.map (Row.ofLine l c))).Tells l below := by
  induction below using List.reverseRecOn with
  | nil => exact tells_nil
  | append_singleton below line ih =>
    rw [List.map_append, List.map_singleton, ofRows_append]
    exact ih.concat

/-- Only a source that ends is read as a recording. -/
theorem failure_eq_none_of_parse {source : ByteSource} (h : (parse c source).value = .ok r) :
    source.failure = none := by
  unfold parse at h
  cases hfailure : source.failure with
  | none => rfl
  | some cause =>
    dsimp only at h
    rw [hfailure] at h
    split at h
    · exact nomatch h
    · split at h
      · exact nomatch h
      · exact nomatch h

/-- A recording tells what stands below the header, which is the first line that is not blank. -/
theorem parse_accounts_for_lines (c : Config) (source : ByteSource) (r : Recording)
    (h : (parse c source).value = .ok r) :
    ∃ above header below layout, source.lines = above ++ header :: below
    ∧ (∀ line ∈ above, isBlankLine line = true) ∧ isBlankLine header = false
    ∧ ColumnLayout.ofNames c (columnNames header) = .ok layout
    ∧ r.Tells layout below := by
  have hsource : source = .ofBytes source.bytes := by
    rw [ByteSource.ofBytes, ← failure_eq_none_of_parse h]
  rw [hsource] at h ⊢
  obtain ⟨header, below, layout, hheaded, rfl⟩ := parse_eq_ok_iff.mp h
  refine ⟨(ByteSource.ofBytes source.bytes).lines.takeWhile isBlankLine, header, below, layout,
    ?_, ?_, hheaded.notBlank, hheaded.columns, tells_ofRows below⟩
  · rw [← hheaded.lines]
    exact List.takeWhile_append_dropWhile.symm
  · intro line hline
    exact List.all_eq_true.mp List.all_takeWhile line hline

/-- Two rows, the last without a line feed, among a blank line, bytes that are no text, and a row at
no finite time. -/
theorem parse_accounts_for_lines_of_broken_lines :
    let source := ByteSource.ofBytes (Text.Utf8.encode "Timestamp(ms),D0,D1\n0.5,+00,1\n \t\n"
      ++ [0xFF, 0x0A] ++ Text.Utf8.encode "inf,0,0\n0.75,1,-0")
    let r : Recording := ⟨[⟨0.5, .low⟩, ⟨0.75, .high⟩], [⟨0.5, .high⟩, ⟨0.75, .low⟩], 2, 2⟩
    (parse {} source).value = .ok r
    ∧ ∃ above header below layout, source.lines = above ++ header :: below
      ∧ (∀ line ∈ above, isBlankLine line = true) ∧ isBlankLine header = false
      ∧ ColumnLayout.ofNames {} (columnNames header) = .ok layout
      ∧ r.Tells layout below := by
  intro source r
  have hread : (parse {} source).value = .ok r := by rfl
  exact ⟨hread, parse_accounts_for_lines {} source r hread⟩

end Recording

end TriggerLatency
