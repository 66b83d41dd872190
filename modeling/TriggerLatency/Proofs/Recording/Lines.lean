import TriggerLatency.Proofs.Recording.Concatenation
import TriggerLatency.Proofs.Text.Cutting
import TriggerLatency.Proofs.Text.Pieces
import Mathlib.Data.List.Forall2

/-!
# What is read from lines

What is read from bytes that are all there depends on their lines alone (`value_parse`), and of each
line only on whether it is blank, on the names that it has as a header, and on the row that it is:
lines that do not differ in these are `Alike`, and are read alike (`readLines_congr`). A line that
is blank text may stand anywhere (`readLines_insert_blank`).
-/

namespace TriggerLatency

namespace ByteSource

variable {body : List UInt8}

theorem lines_ofBytes (bytes : List UInt8) :
    (ofBytes bytes).lines = Text.splitAfter lineFeed bytes := rfl

/-- Up to the first line feed, it is one line. -/
theorem lines_closed_cons (h : lineFeed ∉ body) (rest : List UInt8) :
    (ofBytes (body ++ lineFeed :: rest)).lines = (body ++ [lineFeed]) :: (ofBytes rest).lines :=
  Text.splitAfter_closed_cons h rest

end ByteSource

namespace Recording

variable {c : Config} {line line' header : List UInt8} {lines lines' below : List (List UInt8)}

/-- What is read from lines with nothing missing behind them. -/
def readLines (c : Config) (lines : List (List UInt8)) : Except RecordingError Recording :=
  match lines.dropWhile isBlankLine with
  | [] => .error .missingHeader
  | header :: below => (ColumnLayout.ofNames c (columnNames header)).map fun layout =>
    ofRows (below.map (Row.ofLine layout c))

theorem value_parse (c : Config) (bytes : List UInt8) :
    (parse c (.ofBytes bytes)).value = readLines c (ByteSource.ofBytes bytes).lines := by
  unfold parse readLines
  dsimp only
  cases (ByteSource.ofBytes bytes).lines.dropWhile isBlankLine with
  | nil => rfl
  | cons header below =>
    dsimp only
    cases ColumnLayout.ofNames c (columnNames header) <;> rfl

theorem readLines_cons_of_blank (h : isBlankLine line = true) :
    readLines c (line :: lines) = readLines c lines := by
  unfold readLines
  rw [List.dropWhile_cons_of_pos h]

/-- The first line that is not blank is the header. -/
theorem readLines_cons_of_header (h : isBlankLine header = false) :
    readLines c (header :: below) = (ColumnLayout.ofNames c (columnNames header)).map fun layout =>
      ofRows (below.map (Row.ofLine layout c)) := by
  unfold readLines
  rw [List.dropWhile_cons_of_neg (by simp [h])]

theorem readLines_of_all_blank (h : ∀ line ∈ lines, isBlankLine line = true)
    (more : List (List UInt8)) :
    readLines c (lines ++ more) = readLines c more := by
  induction lines with
  | nil => rfl
  | cons line lines ih =>
    obtain ⟨hline, hlines⟩ := List.forall_mem_cons.mp h
    rw [List.cons_append, readLines_cons_of_blank hline, ih hlines]

/-! ## The header among the lines -/

/-- The header of some lines is the first of them that is not blank. -/
structure HeaderAt (lines above : List (List UInt8)) (header : List UInt8)
    (below : List (List UInt8)) : Prop where
  eq_append : lines = above ++ header :: below
  above : ∀ line ∈ above, isBlankLine line = true
  header : isBlankLine header = false

theorem blank_or_exists_headerAt (lines : List (List UInt8)) :
    (∀ line ∈ lines, isBlankLine line = true) ∨ ∃ above header below,
      HeaderAt lines above header below := by
  induction lines with
  | nil => exact Or.inl fun line hline => absurd hline List.not_mem_nil
  | cons line lines ih =>
    cases hline : isBlankLine line with
    | false =>
      exact Or.inr ⟨[], line, lines, rfl, fun _ hmem => absurd hmem List.not_mem_nil, hline⟩
    | true =>
      rcases ih with hblank | ⟨above, header, below, h⟩
      · exact Or.inl (List.forall_mem_cons.mpr ⟨hline, hblank⟩)
      · exact Or.inr ⟨line :: above, header, below, by rw [h.eq_append, List.cons_append],
          List.forall_mem_cons.mpr ⟨hline, h.above⟩, h.header⟩

namespace HeaderAt

variable {above : List (List UInt8)}

theorem dropWhile_eq (h : HeaderAt lines above header below) :
    lines.dropWhile isBlankLine = header :: below := by
  rw [h.eq_append, List.dropWhile_append_of_pos h.above,
    List.dropWhile_cons_of_neg (by simp [h.header])]

/-- With a header, not every line is blank. -/
theorem not_blank (h : HeaderAt lines above header below) :
    ¬ ∀ line ∈ lines, isBlankLine line = true := by
  intro hblank
  have hheader : isBlankLine header = true := hblank header (by rw [h.eq_append]; simp)
  exact nomatch hheader.symm.trans h.header

/-- There is one header. -/
theorem unique {above' below' : List (List UInt8)} {header' : List UInt8}
    (h : HeaderAt lines above header below) (h' : HeaderAt lines above' header' below') :
    above = above' ∧ header = header' ∧ below = below' := by
  obtain ⟨rfl, rfl⟩ := List.cons.inj (h.dropWhile_eq.symm.trans h'.dropWhile_eq)
  exact ⟨List.append_cancel_right (h.eq_append.symm.trans h'.eq_append), rfl, rfl⟩

theorem readLines_eq (h : HeaderAt lines above header below) :
    readLines c lines = (ColumnLayout.ofNames c (columnNames header)).map fun layout =>
      ofRows (below.map (Row.ofLine layout c)) := by
  unfold readLines
  rw [h.dropWhile_eq]

end HeaderAt

theorem readLines_of_blank (h : ∀ line ∈ lines, isBlankLine line = true) :
    readLines c lines = .error .missingHeader := by
  have hnone := readLines_of_all_blank (c := c) h []
  rwa [List.append_nil] at hnone

/-! ## Blank lines -/

theorem isBlankLine_iff :
    isBlankLine line = true ↔ ∀ ch ∈ Text.Utf8.decodeLossy line, Text.isBlank ch = true := by
  rw [isBlankLine, List.isEmpty_iff, Text.trim_eq_nil_iff]

/-- Above the header too, text of nothing but white space is blank. -/
theorem isBlankLine_of_isBlankText (h : IsBlankText line) : isBlankLine line = true := by
  obtain ⟨text, rfl, hblank⟩ := h
  rw [isBlankLine_iff, Text.Utf8.decodeLossy_encode]
  exact hblank

/-- Blank rows leave no trace. -/
theorem ofRows_of_all_blank {rows : List Row} (h : ∀ row ∈ rows, row = .blank) (more : List Row) :
    ofRows (rows ++ more) = ofRows more := by
  induction rows with
  | nil => rfl
  | cons row rows ih =>
    obtain ⟨rfl, hrows⟩ := List.forall_mem_cons.mp h
    exact ih hrows

/-- Lines of white space may stand anywhere, above the header or below it. -/
theorem readLines_insert_blank (c : Config) {blanks : List (List UInt8)}
    (h : ∀ line ∈ blanks, IsBlankText line) (front back : List (List UInt8)) :
    readLines c (front ++ blanks ++ back) = readLines c (front ++ back) := by
  induction front with
  | nil =>
    exact readLines_of_all_blank (fun line hline => isBlankLine_of_isBlankText (h line hline)) _
  | cons line front ih =>
    rw [List.cons_append, List.cons_append, List.cons_append]
    cases hline : isBlankLine line with
    | true => rw [readLines_cons_of_blank hline, readLines_cons_of_blank hline, ih]
    | false =>
      rw [readLines_cons_of_header hline, readLines_cons_of_header hline]
      congr 1
      funext layout
      have hrows : ∀ row ∈ blanks.map (Row.ofLine layout c), row = .blank := by
        intro row hrow
        obtain ⟨blank, hblank, rfl⟩ := List.mem_map.mp hrow
        exact ofLine_of_isBlankText (h blank hblank)
      rw [List.append_assoc, List.map_append, List.map_append, ofRows_append,
        ofRows_of_all_blank hrows, ← ofRows_append, ← List.map_append]

/-! ## Lines that are read alike -/

/-- Two lines are the same to a reader, wherever they stand. -/
structure Alike (line line' : List UInt8) : Prop where
  blank : isBlankLine line = isBlankLine line'
  names : columnNames line = columnNames line'
  row : ∀ l c, Row.ofLine l c line = Row.ofLine l c line'

namespace Alike

theorem refl (line : List UInt8) : Alike line line := ⟨rfl, rfl, fun _ _ => rfl⟩

theorem symm (h : Alike line line') : Alike line' line :=
  ⟨h.blank.symm, h.names.symm, fun l c => (h.row l c).symm⟩

theorem trans {line'' : List UInt8} (h : Alike line line') (h' : Alike line' line'') :
    Alike line line'' :=
  ⟨h.blank.trans h'.blank, h.names.trans h'.names, fun l c => (h.row l c).trans (h'.row l c)⟩

/-- An ASCII byte of white space at the end of a line does not count. -/
theorem concat {b : UInt8} (hb : b < 0x80) (hblank : Text.isBlank (Char.ofNat b.toNat) = true)
    (line : List UInt8) : Alike (line ++ [b]) line := by
  have hlossy : Text.Utf8.decodeLossy (line ++ [b])
      = Text.Utf8.decodeLossy line ++ [Char.ofNat b.toNat] := Text.Utf8.decodeLossy_ascii hb line []
  refine ⟨?_, ?_, fun l c => ?_⟩
  · unfold isBlankLine
    rw [hlossy, Text.trim_concat hblank]
  · unfold columnNames
    rw [hlossy, Text.trimEnd_concat hblank]
  · have htext : Text.Utf8.IsText (line ++ [b]) ↔ Text.Utf8.IsText line := by
      rw [Text.Utf8.isText_ascii hb]
      exact and_iff_left ⟨"", rfl⟩
    unfold Row.ofLine
    by_cases h : Text.Utf8.IsText line
    · rw [Text.Utf8.decode?_of_isText h, Text.Utf8.decode?_of_isText (htext.mpr h), hlossy]
      dsimp only
      rw [Text.trim_concat hblank]
    · rw [Text.Utf8.decode?_of_not_isText h, Text.Utf8.decode?_of_not_isText (htext.not.mpr h)]

end Alike

theorem readLines_congr (c : Config) (h : List.Forall₂ Alike lines lines') :
    readLines c lines = readLines c lines' := by
  induction h with
  | nil => rfl
  | @cons line line' lines lines' hline hlines ih =>
    have hrows (layout : ColumnLayout) :
        lines.map (Row.ofLine layout c) = lines'.map (Row.ofLine layout c) := by
      rw [← List.forall₂_eq_eq_eq, List.forall₂_map_left_iff, List.forall₂_map_right_iff]
      exact hlines.imp fun _ _ halike => halike.row layout c
    cases hblank : isBlankLine line with
    | true =>
      rw [readLines_cons_of_blank hblank, readLines_cons_of_blank (hline.blank ▸ hblank), ih]
    | false =>
      rw [readLines_cons_of_header hblank, readLines_cons_of_header (hline.blank ▸ hblank),
        hline.names]
      simp only [hrows]

end Recording

end TriggerLatency
