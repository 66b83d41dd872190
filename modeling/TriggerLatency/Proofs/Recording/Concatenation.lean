import TriggerLatency.Proofs.Recording.Accepted

/-!
# Recordings end to end

A row is read by itself: behind the header, what is read from lines that stand one behind the
other is what is read from each part under the same header, put together (`parse_append`). So
whatever rows there are between two others, accepted, rejected or blank, these are read as they
would be without them.

Lines do not run into each other as long as every part ends with a line feed
(`lines_terminated_append`), the last one excepted.
-/

namespace TriggerLatency

namespace ByteSource

/-- Bytes that end with a line feed. -/
def Terminated (bytes : List UInt8) : Prop := bytes.getLast? = some lineFeed

variable {bytes more line : List UInt8}

theorem Terminated.exists_eq (h : Terminated bytes) : ∃ front, bytes = front ++ [lineFeed] :=
  List.getLast?_eq_some_iff.mp h

theorem Terminated.append (h : Terminated more) : Terminated (bytes ++ more) := by
  obtain ⟨front, rfl⟩ := h.exists_eq
  exact List.getLast?_eq_some_iff.mpr ⟨bytes ++ front, (List.append_assoc ..).symm⟩

/-- Behind a line feed a new line begins. -/
theorem lines_terminated_append (h : Terminated bytes) :
    (ofBytes (bytes ++ more)).lines = (ofBytes bytes).lines ++ (ofBytes more).lines := by
  obtain ⟨front, rfl⟩ := h.exists_eq
  exact Text.splitAfter_closed_append lineFeed front more

/-- The lines of terminated bytes are terminated. -/
theorem Terminated.of_mem_lines (h : Terminated bytes) (hline : line ∈ (ofBytes bytes).lines) :
    Terminated line := by
  obtain ⟨front, rfl⟩ := h.exists_eq
  exact List.getLast?_eq_some_iff.mpr (Text.exists_of_mem_splitAfter_closed hline)

/-- A line is one line. -/
theorem lines_of_mem (hline : line ∈ (ofBytes bytes).lines) : (ofBytes line).lines = [line] :=
  Text.splitAfter_of_mem hline

end ByteSource

namespace Recording

/-- The samples of two recordings one behind the other, and their rows taken together. -/
instance : Append Recording where
  append r r' := ⟨r.send ++ r'.send, r.receive ++ r'.receive, r.rowsParsed + r'.rowsParsed,
    r.rowsSkipped + r'.rowsSkipped⟩

theorem ofRows_append (rows rows' : List Row) :
    ofRows (rows ++ rows') = ofRows rows ++ ofRows rows' := by
  unfold ofRows
  simp only [List.filterMap_append, List.map_append, List.length_append]
  rfl

/-- Bytes that are read: behind blank lines there are a header, which locates the columns, and the
lines below it. -/
structure Headed (c : Config) (bytes header : List UInt8) (below : List (List UInt8))
    (layout : ColumnLayout) : Prop where
  lines : (ByteSource.ofBytes bytes).lines.dropWhile isBlankLine = header :: below
  columns : ColumnLayout.ofNames c (columnNames header) = .ok layout

theorem parse_eq_ok_iff {c : Config} {bytes : List UInt8} {r : Recording} :
    (parse c (.ofBytes bytes)).value = .ok r ↔ ∃ header below layout,
      Headed c bytes header below layout ∧ r = ofRows (below.map (Row.ofLine layout c)) := by
  constructor
  · intro h
    unfold parse at h
    dsimp only at h
    split at h
    · exact nomatch h
    · next header below hlines =>
      split at h
      · exact nomatch h
      · next layout hlayout =>
        exact ⟨header, below, layout, ⟨hlines, hlayout⟩, (Except.ok.inj h).symm⟩
  · rintro ⟨header, below, layout, hheaded, rfl⟩
    unfold parse
    dsimp only
    rw [hheaded.lines]
    dsimp only
    rw [hheaded.columns]
    rfl

namespace Headed

variable {c : Config} {bytes header : List UInt8} {below : List (List UInt8)}
  {layout : ColumnLayout}

theorem notBlank (h : Headed c bytes header below layout) : isBlankLine header = false := by
  have hhead := List.head?_dropWhile_not isBlankLine (ByteSource.ofBytes bytes).lines
  rwa [h.lines] at hhead

theorem mem_lines (h : Headed c bytes header below layout) :
    header ∈ (ByteSource.ofBytes bytes).lines :=
  (List.dropWhile_sublist isBlankLine).subset (h.lines ▸ List.mem_cons_self ..)

/-- The header is the first line that is not blank. -/
theorem find? (h : Headed c bytes header below layout) :
    (ByteSource.ofBytes bytes).lines.find? (fun line => !isBlankLine line) = some header := by
  rw [List.find?_eq_some_iff_append]
  refine ⟨by simp [h.notBlank], (ByteSource.ofBytes bytes).lines.takeWhile isBlankLine, below,
    ?_, ?_⟩
  · rw [← h.lines]
    exact List.takeWhile_append_dropWhile.symm
  · intro line hline
    simpa using List.all_eq_true.mp List.all_takeWhile line hline

/-- More lines stand below those that are there. -/
theorem append (h : Headed c bytes header below layout) (hend : ByteSource.Terminated bytes)
    (more : List UInt8) :
    Headed c (bytes ++ more) header (below ++ (ByteSource.ofBytes more).lines) layout where
  lines := by
    rw [ByteSource.lines_terminated_append hend, List.dropWhile_append, h.lines]
    rfl
  columns := h.columns

/-- More lines stand below the header. -/
theorem header_append (h : Headed c bytes header below layout)
    (hend : ByteSource.Terminated bytes) (more : List UInt8) :
    Headed c (header ++ more) header (ByteSource.ofBytes more).lines layout where
  lines := by
    rw [ByteSource.lines_terminated_append (hend.of_mem_lines h.mem_lines),
      ByteSource.lines_of_mem h.mem_lines, List.singleton_append,
      List.dropWhile_cons_of_neg (by simp [h.notBlank])]
  columns := h.columns

end Headed

/-- What stands behind the rows of a recording is read as it is read below the header alone, and
whatever rows come in between do not change that. -/
theorem parse_append (c : Config) (h : List UInt8) (r : Recording)
    (hend : h.getLast? = some ByteSource.lineFeed)
    (hread : (parse c (.ofBytes h)).value = .ok r) :
    ∃ header, (ByteSource.ofBytes h).lines.find? (fun line => !isBlankLine line) = some header
    ∧ ∀ b : List UInt8, ∃ r', (parse c (.ofBytes (header ++ b))).value = .ok r'
      ∧ (parse c (.ofBytes (h ++ b))).value = .ok (r ++ r')
      ∧ ∀ rows : List UInt8, rows.getLast? = some ByteSource.lineFeed →
        ∃ r'', (parse c (.ofBytes (header ++ rows))).value = .ok r''
          ∧ (parse c (.ofBytes (h ++ rows ++ b))).value = .ok (r ++ r'' ++ r') := by
  obtain ⟨header, below, layout, hheaded, rfl⟩ := parse_eq_ok_iff.mp hread
  -- what is read below the header alone
  have halone : ∀ more, (parse c (.ofBytes (header ++ more))).value
      = .ok (ofRows ((ByteSource.ofBytes more).lines.map (Row.ofLine layout c))) := fun more =>
    parse_eq_ok_iff.mpr ⟨header, _, layout, hheaded.header_append hend more, rfl⟩
  refine ⟨header, hheaded.find?, fun b => ⟨_, halone b, ?_, fun rows hrows => ⟨_, halone rows, ?_⟩⟩⟩
  · rw [← ofRows_append, ← List.map_append]
    exact parse_eq_ok_iff.mpr ⟨header, _, layout, hheaded.append hend b, rfl⟩
  · rw [← ofRows_append, ← List.map_append, ← ofRows_append, ← List.map_append]
    have hrows : ByteSource.Terminated (h ++ rows) := ByteSource.Terminated.append hrows
    exact parse_eq_ok_iff.mpr
      ⟨header, _, layout, (hheaded.append hend rows).append hrows b, rfl⟩

/-- A recording with a blank line, an accepted row, and a row that is too short. -/
theorem parse_append_of_broken_row :
    let h := Text.Utf8.encode "Timestamp(ms),D0,D1\n\n0.5,0,1\nabc,1\n"
    let r : Recording := ⟨[⟨0.5, .low⟩], [⟨0.5, .high⟩], 1, 1⟩
    h.getLast? = some ByteSource.lineFeed
    ∧ (parse {} (.ofBytes h)).value = .ok r
    ∧ ∃ header, (ByteSource.ofBytes h).lines.find? (fun line => !isBlankLine line) = some header
      ∧ ∀ b : List UInt8, ∃ r', (parse {} (.ofBytes (header ++ b))).value = .ok r'
        ∧ (parse {} (.ofBytes (h ++ b))).value = .ok (r ++ r')
        ∧ ∀ rows : List UInt8, rows.getLast? = some ByteSource.lineFeed →
          ∃ r'', (parse {} (.ofBytes (header ++ rows))).value = .ok r''
            ∧ (parse {} (.ofBytes (h ++ rows ++ b))).value = .ok (r ++ r'' ++ r') := by
  intro h r
  have hend : h.getLast? = some ByteSource.lineFeed := by decide +kernel
  have hread : (parse {} (.ofBytes h)).value = .ok r := by rfl
  exact ⟨hend, hread, parse_append {} h r hend hread⟩

end Recording

end TriggerLatency
