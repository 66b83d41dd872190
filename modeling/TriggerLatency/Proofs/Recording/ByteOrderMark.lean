import TriggerLatency.Proofs.Recording.Accounting
import TriggerLatency.Proofs.Recording.Header
import TriggerLatency.Proofs.Recording.Lines

/-!
# Byte-order marks in front of a recording

A byte-order mark is dropped from the header, but it is no white space, so the line that it stands
on is never blank: it is the header. A recording is therefore read as it is without the mark if its
header stands on the first line. If there are blank lines above the header, the mark makes a header
with one empty name out of the first of them, and what is read is another recording or another
error; the error only is the same if the other header consists of nothing but marks as well
(`parse_byteOrderMark_iff`).
-/

namespace TriggerLatency

namespace ByteSource

/-- The bytes of a byte-order mark. -/
def byteOrderMark : List UInt8 := [0xEF, 0xBB, 0xBF]

variable {bytes line : List UInt8}

theorem decodeLossy_byteOrderMark_append (line : List UInt8) :
    Text.Utf8.decodeLossy (byteOrderMark ++ line)
      = TriggerLatency.byteOrderMark :: Text.Utf8.decodeLossy line :=
  Text.Utf8.decodeLossy_encode_append "\uFEFF" line

/-- A mark in front goes to the first line, or is the only one. -/
theorem lines_byteOrderMark_append (bytes : List UInt8) :
    (ofBytes (byteOrderMark ++ bytes)).lines
      = (byteOrderMark ++ (ofBytes bytes).lines.headD []) :: (ofBytes bytes).lines.tail := by
  have hmark : lineFeed ∉ byteOrderMark ∧ byteOrderMark ≠ [] := by decide
  rw [lines_ofBytes, lines_ofBytes, Text.splitAfter_append_of_not_mem hmark.1 hmark.2]
  cases Text.splitAfter lineFeed bytes with
  | nil => rw [List.headD_nil, List.tail_nil, List.append_nil]
  | cons line lines => rfl

end ByteSource

open ByteSource

namespace Recording

variable {c : Config} {line header : List UInt8} {lines above below : List (List UInt8)}

/-- The line of a mark is not blank. -/
theorem isBlankLine_byteOrderMark_append (line : List UInt8) :
    isBlankLine (ByteSource.byteOrderMark ++ line) = false := by
  rw [← Bool.not_eq_true, isBlankLine_iff, decodeLossy_byteOrderMark_append]
  intro h
  exact absurd (h _ (List.mem_cons_self ..)) (by decide)

theorem columnNames_byteOrderMark_append (line : List UInt8) :
    columnNames (ByteSource.byteOrderMark ++ line) = columnNames line := by
  unfold columnNames
  rw [decodeLossy_byteOrderMark_append, Text.trimEnd_cons (by decide)]
  dsimp only
  rw [List.dropWhile_cons_of_pos (by decide)]

/-- A blank line has one name as a header, and that is empty. -/
theorem columnNames_of_blank (h : isBlankLine line = true) : columnNames line = [""] := by
  have hnil : Text.trimEnd (Text.Utf8.decodeLossy line) = [] := by
    rw [Text.trimEnd_eq_nil_iff]
    exact isBlankLine_iff.mp h
  unfold columnNames
  rw [hnil]
  rfl

/-- Behind a mark, the first line is the header, blank or not. -/
theorem value_parse_byteOrderMark_append (c : Config) (bytes : List UInt8) :
    (parse c (.ofBytes (ByteSource.byteOrderMark ++ bytes))).value
      = (ColumnLayout.ofNames c (columnNames ((ofBytes bytes).lines.headD []))).map fun layout =>
        ofRows ((ofBytes bytes).lines.tail.map (Row.ofLine layout c)) := by
  rw [value_parse, lines_byteOrderMark_append,
    readLines_cons_of_header (isBlankLine_byteOrderMark_append _), columnNames_byteOrderMark_append]

/-- What is read of lines is not what is read of those below one of them that is not blank: that one
is counted. -/
theorem ofRows_ne_of_line (h : ¬ IsBlankText line) (l l' : ColumnLayout) (c : Config)
    (front below : List (List UInt8)) :
    ofRows ((front ++ line :: below).map (Row.ofLine l c))
      ≠ ofRows (below.map (Row.ofLine l' c)) := by
  intro heq
  have hmore := (tells_ofRows (l := l) (c := c) (front ++ line :: below)).counted
  have hfewer := (tells_ofRows (l := l') (c := c) below).counted
  rw [heq, hfewer, List.countP_append, List.countP_cons_of_pos (by simpa using h)] at hmore
  omega

/-- A header with one empty name is at fault unless all columns are without a name. -/
theorem exists_ofNames_empty_eq_error (h : ∃ column ∈ c.columns, column ≠ "") :
    ∃ e, ColumnLayout.ofNames c [""] = .error e := by
  obtain ⟨column, hcolumn, hne⟩ := h
  cases hnames : ColumnLayout.ofNames c [""] with
  | error e => exact ⟨e, rfl⟩
  | ok l =>
    have hfound := ColumnLayout.exists_ofNames_eq_ok_iff.mp ⟨l, hnames⟩ column hcolumn
    exact absurd (List.mem_singleton.mp hfound) hne

/-- A header makes no recording without one. -/
theorem map_ofNames_ne_missingHeader {names : List String} {f : ColumnLayout → Recording} :
    (ColumnLayout.ofNames c names).map f ≠ .error .missingHeader := by
  cases hnames : ColumnLayout.ofNames c names with
  | ok l => exact nofun
  | error e =>
    obtain ⟨column, -, -, rfl⟩ := ColumnLayout.exists_of_ofNames_eq_error hnames
    intro h
    exact nomatch Except.error.inj h

/-- With a blank line above the header, the mark is not noticed exactly if both headers are at
fault, and in the same way. -/
theorem value_parse_byteOrderMark_append_iff_of_blank (c : Config) {bytes first : List UInt8}
    (h : HeaderAt (ofBytes bytes).lines (first :: above) header below) :
    (parse c (.ofBytes (ByteSource.byteOrderMark ++ bytes))).value
        = (parse c (.ofBytes bytes)).value
      ↔ columnNames header = [""] ∧ ∃ column ∈ c.columns, column ≠ "" := by
  have hfirst : isBlankLine first = true := h.above first (List.mem_cons_self ..)
  rw [value_parse_byteOrderMark_append, value_parse, h.readLines_eq, h.eq_append, List.cons_append,
    List.headD_cons, List.tail_cons, columnNames_of_blank hfirst]
  constructor
  · intro heq
    -- behind the mark, the first line is a header with one empty name
    cases hmark : ColumnLayout.ofNames c [""] with
    | error e =>
      obtain ⟨column, hcolumn, hmissing, rfl⟩ := ColumnLayout.exists_of_ofNames_eq_error hmark
      rw [hmark] at heq
      cases hnames : ColumnLayout.ofNames c (columnNames header) with
      | error e' =>
        obtain ⟨column', -, -, rfl⟩ := ColumnLayout.exists_of_ofNames_eq_error hnames
        rw [hnames] at heq
        have hfound := (RecordingError.missingColumn.inj (Except.error.inj heq)).2
        exact ⟨hfound.symm, column, hcolumn, fun h => hmissing (List.mem_singleton.mpr h)⟩
      | ok layout =>
        rw [hnames] at heq
        exact nomatch heq
    | ok layout =>
      rw [hmark] at heq
      cases hnames : ColumnLayout.ofNames c (columnNames header) with
      | error e =>
        rw [hnames] at heq
        exact nomatch heq
      | ok layout' =>
        rw [hnames] at heq
        -- the header would be one row more below the blank line
        have hblank : ¬ IsBlankText header := by
          intro hblank
          exact nomatch (isBlankLine_of_isBlankText hblank).symm.trans h.header
        exact absurd (Except.ok.inj heq) (ofRows_ne_of_line hblank layout layout' c above below)
  · intro ⟨hnames, hnamed⟩
    obtain ⟨e, he⟩ := exists_ofNames_empty_eq_error hnamed
    rw [hnames, he]
    rfl

/-- A mark in front of a recording is not noticed exactly if the header stands on the first line, or
has nothing but one empty name where a name is looked for. -/
theorem parse_byteOrderMark_iff (c : Config) (bytes : List UInt8) :
    (parse c (.ofBytes (ByteSource.byteOrderMark ++ bytes))).value
        = (parse c (.ofBytes bytes)).value
      ↔ ∃ above header below, HeaderAt (ofBytes bytes).lines above header below
        ∧ (above = [] ∨ columnNames header = [""] ∧ ∃ column ∈ c.columns, column ≠ "") := by
  rcases blank_or_exists_headerAt (ofBytes bytes).lines with hblank | ⟨above, header, below, h⟩
  · refine iff_of_false ?_ ?_
    · rw [value_parse_byteOrderMark_append, value_parse, readLines_of_blank hblank]
      exact map_ofNames_ne_missingHeader
    · exact fun ⟨_, _, _, h, _⟩ => h.not_blank hblank
  · cases above with
    | nil =>
      refine iff_of_true ?_ ⟨[], header, below, h, Or.inl rfl⟩
      rw [value_parse_byteOrderMark_append, value_parse, h.readLines_eq, h.eq_append]
      rfl
    | cons first above =>
      rw [value_parse_byteOrderMark_append_iff_of_blank c h]
      constructor
      · exact fun hfault => ⟨first :: above, header, below, h, Or.inr hfault⟩
      · rintro ⟨above', header', below', h', hfirst | hfault⟩
        · rw [hfirst] at h'
          exact nomatch (h.unique h').1
        · rwa [(h.unique h').2.1]

/-- Behind a mark, a blank line above the header is taken for the header. -/
theorem parse_byteOrderMark_above_blank_line :
    let bytes := Text.Utf8.encode "\nTimestamp(ms),D0,D1\n0.5,1,0\n"
    let marked := ByteSource.byteOrderMark ++ bytes
    (parse {} (.ofBytes bytes)).value = .ok ⟨[⟨0.5, .high⟩], [⟨0.5, .low⟩], 1, 0⟩
    ∧ (parse {} (.ofBytes marked)).value = .error (.missingColumn "Timestamp(ms)" [""])
    ∧ (parse {} (.ofBytes marked)).value ≠ (parse {} (.ofBytes bytes)).value := by
  intro bytes marked
  have hbytes : (parse {} (.ofBytes bytes)).value = .ok ⟨[⟨0.5, .high⟩], [⟨0.5, .low⟩], 1, 0⟩ := by
    rfl
  have hmarked : (parse {} (.ofBytes marked)).value
      = .error (.missingColumn "Timestamp(ms)" [""]) := by
    rfl
  refine ⟨hbytes, hmarked, ?_⟩
  rw [hbytes, hmarked]
  exact nofun

end Recording

end TriggerLatency
