import TriggerLatency.Proofs.Recording.Header
import TriggerLatency.Proofs.Recording.LineEndings
import Mathlib.Data.List.OfFn

/-!
# Tables

A table has equally many cells in its header and in every row. A cell is bytes without commas and
line feeds, text or not, and what is read of it is its text: the fields of a line are the texts of
its cells (`Cell.fields_line`), although the line is decoded and trimmed as a whole.

So where each column has one cell in the header, these are the columns that are located
(`Table.Locates.ofNames_eq_ok`), and a line is a row exactly if all its cells are text and the cells
of these columns hold a reading (`Columns.holdsRow_line_iff`).
-/

namespace TriggerLatency

/-- What stands between commas. -/
structure Cell where
  bytes : List UInt8
  comma_not_mem : 0x2C ∉ bytes
  lineFeed_not_mem : ByteSource.lineFeed ∉ bytes

variable {n : Nat} {cells : Fin n → Cell} {c : Config}

namespace Cell

/-- What is read of a cell. -/
def text (cell : Cell) : List Char := Text.trim (Text.Utf8.decodeLossy cell.bytes)

/-- The cell is text. -/
def IsText (cell : Cell) : Prop := Text.Utf8.IsText cell.bytes

/-- A line of cells. -/
def line (cells : Fin n → Cell) : List UInt8 :=
  [0x2C].intercalate (List.ofFn fun j => (cells j).bytes)

/-- A comma is not decoded out of other bytes. -/
theorem comma_not_mem_decodeLossy (cell : Cell) : ',' ∉ Text.Utf8.decodeLossy cell.bytes := by
  intro h
  have hencoded := Text.Utf8.infix_of_mem_decodeLossy (by decide) h
  exact cell.comma_not_mem (hencoded.subset (by decide))

theorem lineFeed_not_mem_line (cells : Fin n → Cell) : ByteSource.lineFeed ∉ line cells := by
  intro h
  rcases Text.eq_or_mem_of_mem_intercalate h with hcomma | ⟨field, hfield, hmem⟩
  · exact absurd hcomma (by decide)
  · obtain ⟨j, rfl⟩ := List.mem_ofFn.mp hfield
    exact (cells j).lineFeed_not_mem hmem

theorem isText_line_iff : Text.Utf8.IsText (line cells) ↔ ∀ j, (cells j).IsText := by
  rw [line, Text.Utf8.isText_intercalate (by decide), List.forall_mem_ofFn_iff]
  rfl

theorem decodeLossy_line (cells : Fin n → Cell) :
    Text.Utf8.decodeLossy (line cells)
      = [','].intercalate (List.ofFn fun j => Text.Utf8.decodeLossy (cells j).bytes) := by
  rw [line, Text.Utf8.decodeLossy_intercalate (by decide), List.map_ofFn]
  rfl

/-- The fields of a line are its cells. -/
theorem fields_line (hn : n ≠ 0) (cells : Fin n → Cell) :
    fields (Text.Utf8.decodeLossy (line cells)) = List.ofFn fun j => (cells j).text := by
  rw [decodeLossy_line, fields, Text.splitOn_intercalate, List.map_ofFn]
  · rfl
  · rw [List.forall_mem_ofFn_iff]
    exact fun j => (cells j).comma_not_mem_decodeLossy
  · exact mt List.ofFn_eq_nil_iff.mp hn

/-- What is not blank, nor a comma, is read of some cell. -/
theorem exists_mem_text {ch : Char} (hblank : Text.isBlank ch = false) (hcomma : ch ≠ ',')
    (h : ch ∈ Text.Utf8.decodeLossy (line cells)) : ∃ j, ch ∈ (cells j).text := by
  rw [decodeLossy_line] at h
  obtain ⟨field, hfield, hmem⟩ := (Text.eq_or_mem_of_mem_intercalate h).resolve_left hcomma
  obtain ⟨j, rfl⟩ := List.mem_ofFn.mp hfield
  exact ⟨j, Text.mem_trim hblank hmem⟩

/-- Without byte-order marks, the names of a header are the texts of its cells. -/
theorem columnNames_line (hn : n ≠ 0) (hmark : ∀ j, byteOrderMark ∉ (cells j).text) :
    columnNames (line cells) = List.ofFn fun j => String.ofList (cells j).text := by
  have hnone : byteOrderMark ∉ Text.Utf8.decodeLossy (line cells) := by
    intro h
    obtain ⟨j, hj⟩ := exists_mem_text (by decide) (by decide) h
    exact hmark j hj
  have hdrop : (Text.trimEnd (Text.Utf8.decodeLossy (line cells))).dropWhile (· = byteOrderMark)
      = Text.trimEnd (Text.Utf8.decodeLossy (line cells)) := by
    rw [List.dropWhile_eq_self_iff]
    intro hpos hhead
    exact hnone (Text.mem_of_mem_trimEnd (of_decide_eq_true hhead ▸ List.getElem_mem hpos))
  unfold columnNames
  dsimp only
  rw [hdrop, fields, Text.map_trim_splitOn_trimEnd (by decide), ← fields, fields_line hn,
    List.map_ofFn]
  rfl

/-- Only a line of one cell can be blank: there is no comma in it. -/
theorem isBlankLine_line (hn : 1 < n) (cells : Fin n → Cell) :
    isBlankLine (line cells) = false := by
  rw [← Bool.not_eq_true, Recording.isBlankLine_iff]
  intro hblank
  have hlength := congrArg List.length (fields_of_isBlank hblank)
  rw [fields_line (by omega), List.length_ofFn, List.length_singleton] at hlength
  omega

theorem not_isBlankText_line (hn : 1 < n) (cells : Fin n → Cell) : ¬ IsBlankText (line cells) := by
  intro hblank
  exact nomatch (Recording.isBlankLine_of_isBlankText hblank).symm.trans (isBlankLine_line hn cells)

end Cell

/-! ## Where the columns stand -/

/-- The cells of the columns that matter. -/
structure Columns (n : Nat) where
  timestamp : Fin n
  send : Fin n
  receive : Fin n

/-- The cells as positions. -/
def Columns.layout (k : Columns n) : ColumnLayout := ⟨k.timestamp, k.send, k.receive⟩

/-- Three cells hold a reading. -/
structure Cell.Hold (timestamp send receive : Cell) (r : Reading) : Prop where
  timestamp : Decimal.readFloat? timestamp.text = some r.timestamp
  finite : r.timestamp.isFinite = true
  send : WritesLevel send.text r.send
  receive : WritesLevel receive.text r.receive

namespace Columns

theorem textHoldsRow_iff {k : Columns n} {r : Reading} :
    TextHoldsRow k.layout (Text.Utf8.decodeLossy (Cell.line cells)) r
      ↔ Cell.Hold (cells k.timestamp) (cells k.send) (cells k.receive) r := by
  have hn : n ≠ 0 := (Fin.pos k.timestamp).ne'
  have hfield (j : Fin n) :
      (fields (Text.Utf8.decodeLossy (Cell.line cells)))[j.val]? = some (cells j).text := by
    rw [Cell.fields_line hn, List.getElem?_ofFn, dif_pos j.isLt]
  rw [textHoldsRow_iff_fields]
  constructor
  · intro h
    obtain ⟨timestamp, htimestamp, htime⟩ := h.timestamp
    obtain ⟨send, hsend, hsent⟩ := h.send
    obtain ⟨receive, hreceive, hreceived⟩ := h.receive
    obtain rfl := Option.some.inj ((hfield k.timestamp).symm.trans htimestamp)
    obtain rfl := Option.some.inj ((hfield k.send).symm.trans hsend)
    obtain rfl := Option.some.inj ((hfield k.receive).symm.trans hreceive)
    exact ⟨htime, h.finite, hsent, hreceived⟩
  · intro h
    refine ⟨?_, ⟨_, hfield k.timestamp, h.timestamp⟩, h.finite, ⟨_, hfield k.send, h.send⟩,
      ⟨_, hfield k.receive, h.receive⟩⟩
    rw [Cell.fields_line hn, List.length_ofFn]
    show max (max k.timestamp.val k.send.val) k.receive.val + 1 ≤ n
    omega

/-- A line is a row exactly if its cells are text and those of the columns hold a reading. -/
theorem holdsRow_line_iff {k : Columns n} {r : Reading} :
    HoldsRow k.layout (Cell.line cells) r ↔ (∀ j, (cells j).IsText)
      ∧ Cell.Hold (cells k.timestamp) (cells k.send) (cells k.receive) r := by
  rw [← Cell.isText_line_iff, ← textHoldsRow_iff]
  constructor
  · intro ⟨text, htext, hrow⟩
    rw [htext, Text.Utf8.decodeLossy_encode]
    exact ⟨⟨text, rfl⟩, hrow⟩
  · intro ⟨⟨text, htext⟩, hrow⟩
    rw [htext, Text.Utf8.decodeLossy_encode] at hrow
    exact ⟨text, htext, hrow⟩

end Columns

/-! ## Tables -/

/-- A header and rows, with `n` cells each. -/
structure Table (n : Nat) where
  header : Fin n → Cell
  rows : List (Fin n → Cell)
  /-- Whether the last line ends with a line feed. -/
  closed : Bool

namespace Table

variable {t : Table n} {k : Columns n}

/-- The lines of a table, without their line feeds. -/
def lines (t : Table n) : List (List UInt8) := Cell.line t.header :: t.rows.map Cell.line

/-- The table as it is written. -/
def bytes (t : Table n) : List UInt8 :=
  [ByteSource.lineFeed].intercalate t.lines ++ if t.closed then [ByteSource.lineFeed] else []

/-- The name over a column. -/
def name (t : Table n) (j : Fin n) : String := String.ofList (t.header j).text

/-- The columns stand under their names, and nowhere else, and there are no byte-order marks. -/
structure Locates (c : Config) (t : Table n) (k : Columns n) : Prop where
  unmarked : ∀ j, byteOrderMark ∉ (t.name j).toList
  timestamp : ∀ j, t.name j = c.timestampColumn ↔ j = k.timestamp
  send : ∀ j, t.name j = c.sendColumn ↔ j = k.send
  receive : ∀ j, t.name j = c.receiveColumn ↔ j = k.receive

/-- There are no byte-order marks in the names, and every column that matters is there once. -/
structure HasColumns (c : Config) (t : Table n) : Prop where
  unmarked : ∀ j, byteOrderMark ∉ (t.name j).toList
  unique : ∀ column ∈ c.columns, ∃! j, t.name j = column

theorem HasColumns.exists_locates (h : HasColumns c t) : ∃ k, Locates c t k := by
  have hcolumn (column : String) (hmem : column ∈ c.columns) :
      ∃ place, ∀ j, t.name j = column ↔ j = place := by
    obtain ⟨place, hplace, honly⟩ := h.unique column hmem
    exact ⟨place, fun j => ⟨honly j, fun hj => hj ▸ hplace⟩⟩
  obtain ⟨timestamp, htimestamp⟩ := hcolumn c.timestampColumn (by simp [Config.columns])
  obtain ⟨send, hsend⟩ := hcolumn c.sendColumn (by simp [Config.columns])
  obtain ⟨receive, hreceive⟩ := hcolumn c.receiveColumn (by simp [Config.columns])
  exact ⟨⟨timestamp, send, receive⟩, h.unmarked, htimestamp, hsend, hreceive⟩

theorem idxOf?_ofFn {α : Type} [BEq α] [LawfulBEq α] {f : Fin n → α} {x : α} {place : Fin n}
    (h : ∀ j, f j = x ↔ j = place) : (List.ofFn f).idxOf? x = some place.val := by
  rw [List.idxOf?_eq_some_iff]
  refine ⟨by rw [List.length_ofFn]; exact place.isLt, ?_, ?_⟩
  · rw [List.getElem_ofFn]
    exact (h _).mpr rfl
  · intro i hi hx
    rw [List.getElem_ofFn, h] at hx
    exact absurd (congrArg Fin.val hx) hi.ne

/-- The columns are located where they stand. -/
theorem Locates.ofNames_eq_ok (h : Locates c t k) :
    ColumnLayout.ofNames c (columnNames (Cell.line t.header)) = .ok k.layout := by
  have hn : n ≠ 0 := (Fin.pos k.timestamp).ne'
  have hmark (j : Fin n) : byteOrderMark ∉ (t.header j).text := by
    have hname := h.unmarked j
    rwa [name, String.toList_ofList] at hname
  rw [Cell.columnNames_line hn hmark, ColumnLayout.ofNames_eq_ok_iff]
  exact ⟨idxOf?_ofFn h.timestamp, idxOf?_ofFn h.send, idxOf?_ofFn h.receive⟩

/-- What is read of a table is what is read of its lines. -/
theorem value_parse_bytes (c : Config) (t : Table n) :
    (Recording.parse c (.ofBytes t.bytes)).value = Recording.readLines c t.lines := by
  have hclosed : (Recording.parse c (.ofBytes t.bytes)).value
      = (Recording.parse c (.ofBytes
        ([ByteSource.lineFeed].intercalate t.lines ++ [ByteSource.lineFeed]))).value := by
    unfold bytes
    cases t.closed with
    | true => rfl
    | false => rw [if_neg Bool.false_ne_true, List.append_nil, Recording.parse_append_lineFeed]
  have hcells : ∀ line ∈ t.lines, ByteSource.lineFeed ∉ line := by
    rw [lines, List.forall_mem_cons, List.forall_mem_map]
    exact ⟨Cell.lineFeed_not_mem_line t.header, fun row _ => Cell.lineFeed_not_mem_line row⟩
  rw [hclosed, Recording.value_parse, ByteSource.lines_ofBytes,
    Text.splitAfter_intercalate_concat hcells (List.cons_ne_nil _ _)]
  refine Recording.readLines_congr c (List.forall₂_map_left_iff.mpr (List.forall₂_same.mpr ?_))
  exact fun line _ => Recording.Alike.lineFeed line

/-- A table with a header is read row by row. -/
theorem Locates.value_parse (h : Locates c t k)
    (hheader : isBlankLine (Cell.line t.header) = false) :
    (Recording.parse c (.ofBytes t.bytes)).value = .ok (Recording.ofRows
      (t.rows.map fun cells => Row.ofLine k.layout c (Cell.line cells))) := by
  rw [value_parse_bytes, lines, Recording.readLines_cons_of_header hheader, h.ofNames_eq_ok]
  exact congrArg (fun rows => Except.ok (Recording.ofRows rows)) List.map_map

end Table

end TriggerLatency
