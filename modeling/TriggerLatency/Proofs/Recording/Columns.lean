import TriggerLatency.Proofs.Recording.Accounting
import TriggerLatency.Proofs.Recording.Table
import Mathlib.Data.Fintype.Basic
import Mathlib.Logic.Equiv.Fin.Rotate

/-!
# Only the columns matter

A recording is made of the three columns that the settings name, wherever they stand and whatever
stands beside them: a table may be permuted column by column, and in rows that are text the cells of
other columns may be given other texts. Nor does it matter which of two columns is called the
sending one, except for which samples are called sent (`parse_reads_columns`).

All of it is read row by row. Two rows correspond (`Row.Corresponds`) if both are blank, both are
rejected, with one fault or another, or the one holds what is made of the reading of the other. This
is so of lines that hold corresponding readings (`Row.corresponds_ofLine`), and then the recordings
correspond (`Row.readings_of_corresponds`).
-/

namespace TriggerLatency

/-! ## Rows that correspond -/

namespace Row

variable {f : Reading → Reading} {rows rows' : List Row}

/-- A row holds what `f` makes of the reading of another one, or neither holds a reading; which
faults there are does not count. -/
inductive Corresponds (f : Reading → Reading) : Row → Row → Prop
  | blank : Corresponds f .blank .blank
  | accepted (r : Reading) : Corresponds f (.accepted r) (.accepted (f r))
  | rejected (fault fault' : RowFault) : Corresponds f (.rejected fault) (.rejected fault')

theorem corresponds_ofLine {l l' : ColumnLayout} {c c' : Config} {line line' : List UInt8}
    (hf : Function.Surjective f) (hblank : IsBlankText line' ↔ IsBlankText line)
    (hrow : ∀ r, HoldsRow l' line' (f r) ↔ HoldsRow l line r) :
    Corresponds f (ofLine l c line) (ofLine l' c' line') := by
  cases hline : ofLine l c line with
  | blank =>
    rw [ofLine_of_isBlankText (hblank.mpr (ofLine_eq_blank_iff.mp hline))]
    exact .blank
  | accepted r =>
    rw [ofLine_eq_accepted_iff.mpr ((hrow r).mpr (ofLine_eq_accepted_iff.mp hline))]
    exact .accepted r
  | rejected fault =>
    cases hline' : ofLine l' c' line' with
    | blank =>
      have hnone : ofLine l c line = .blank :=
        ofLine_of_isBlankText (hblank.mp (ofLine_eq_blank_iff.mp hline'))
      exact nomatch hnone.symm.trans hline
    | accepted r' =>
      obtain ⟨r, rfl⟩ := hf r'
      have hread : ofLine l c line = .accepted r :=
        ofLine_eq_accepted_iff.mpr ((hrow r).mp (ofLine_eq_accepted_iff.mp hline'))
      exact nomatch hread.symm.trans hline
    | rejected fault' => exact .rejected fault fault'

/-- Rows that correspond have readings that do, and as many faults. -/
theorem readings_of_corresponds (h : List.Forall₂ (Corresponds f) rows rows') :
    rows'.filterMap reading? = (rows.filterMap reading?).map f
    ∧ (rows'.filterMap fault?).length = (rows.filterMap fault?).length := by
  induction h with
  | nil => exact ⟨rfl, rfl⟩
  | cons hrow _ ih =>
    cases hrow with
    | blank => exact ih
    | accepted r => exact ⟨congrArg (f r :: ·) ih.1, ih.2⟩
    | rejected fault fault' => exact ⟨ih.1, congrArg (· + 1) ih.2⟩

end Row

namespace Recording

variable {rows rows' : List Row}

theorem ofRows_of_corresponds (h : List.Forall₂ (Row.Corresponds id) rows rows') :
    ofRows rows' = ofRows rows := by
  obtain ⟨hreadings, hfaults⟩ := Row.readings_of_corresponds h
  unfold ofRows
  rw [hreadings, hfaults, List.map_id]

end Recording

/-! ## Tables -/

section

variable {n : Nat} {c : Config} {cells cells' : Fin n → Cell} {k k' : Columns n}

/-- Lines correspond if the cells of the columns are the same, and both are text or neither is. -/
theorem Columns.corresponds_line (hn : 1 < n)
    (htext : (∀ j, (cells' j).IsText) ↔ ∀ j, (cells j).IsText)
    (htimestamp : cells' k'.timestamp = cells k.timestamp) (hsend : cells' k'.send = cells k.send)
    (hreceive : cells' k'.receive = cells k.receive) :
    Row.Corresponds id (Row.ofLine k.layout c (Cell.line cells))
      (Row.ofLine k'.layout c (Cell.line cells')) := by
  refine Row.corresponds_ofLine Function.surjective_id ?_ fun r => ?_
  · exact iff_of_false (Cell.not_isBlankText_line hn cells') (Cell.not_isBlankText_line hn cells)
  · rw [holdsRow_line_iff, holdsRow_line_iff, htext, htimestamp, hsend, hreceive]
    rfl

namespace Table

variable {t t' : Table n}

/-- The columns in another order. -/
def permute (σ : Equiv.Perm (Fin n)) (t : Table n) : Table n :=
  ⟨t.header ∘ σ, t.rows.map (· ∘ σ), t.closed⟩

theorem Locates.permute (h : Locates c t k) (σ : Equiv.Perm (Fin n)) :
    Locates c (t.permute σ) ⟨σ.symm k.timestamp, σ.symm k.send, σ.symm k.receive⟩ where
  unmarked j := h.unmarked (σ j)
  timestamp j := (h.timestamp (σ j)).trans (Equiv.eq_symm_apply σ).symm
  send j := (h.send (σ j)).trans (Equiv.eq_symm_apply σ).symm
  receive j := (h.receive (σ j)).trans (Equiv.eq_symm_apply σ).symm

/-- The columns may be permuted. -/
theorem HasColumns.value_parse_permute (h : HasColumns c t) (σ : Equiv.Perm (Fin n)) :
    (Recording.parse c (.ofBytes (t.permute σ).bytes)).value
      = (Recording.parse c (.ofBytes t.bytes)).value := by
  obtain ⟨k, hk⟩ := h.exists_locates
  by_cases hn : 1 < n
  · rw [hk.value_parse (Cell.isBlankLine_line hn _),
      (hk.permute σ).value_parse (Cell.isBlankLine_line hn _)]
    refine congrArg Except.ok (Recording.ofRows_of_corresponds ?_)
    rw [permute, List.map_map, List.forall₂_map_left_iff, List.forall₂_map_right_iff,
      List.forall₂_same]
    intro cells _
    have htext : (∀ j, (cells (σ j)).IsText) ↔ ∀ j, (cells j).IsText :=
      σ.forall_congr_right (q := fun j => (cells j).IsText)
    refine Columns.corresponds_line hn htext ?_ ?_ ?_
    · exact congrArg cells (σ.apply_symm_apply k.timestamp)
    · exact congrArg cells (σ.apply_symm_apply k.send)
    · exact congrArg cells (σ.apply_symm_apply k.receive)
  · -- a single column stays where it is
    have hsingle : Subsingleton (Fin n) := Fin.subsingleton_iff_le_one.mpr (Nat.not_lt.mp hn)
    have hid : ⇑σ = id := funext fun j => Subsingleton.elim _ _
    rw [permute, hid]
    simp

/-- A row stays as it is, or is text and gets other texts in columns that do not matter. -/
def RefilledRow (c : Config) (t : Table n) (cells cells' : Fin n → Cell) : Prop :=
  cells' = cells ∨ Text.Utf8.IsText (Cell.line cells)
    ∧ ∀ j, cells' j = cells j ∨ t.name j ∉ c.columns ∧ (cells' j).IsText

/-- A table with other texts in columns that do not matter. -/
structure Refilled (c : Config) (t t' : Table n) : Prop where
  header : t'.header = t.header
  rows : List.Forall₂ (RefilledRow c t) t.rows t'.rows
  closed : t'.closed = t.closed

/-- The columns that matter stay as they are. -/
theorem RefilledRow.eq_of_mem {j : Fin n} (h : RefilledRow c t cells cells')
    (hj : t.name j ∈ c.columns) : cells' j = cells j := by
  rcases h with rfl | ⟨-, hcells⟩
  · rfl
  · exact (hcells j).resolve_right fun hother => hother.1 hj

/-- What was text stays text, and what was not stays as it was. -/
theorem RefilledRow.isText_iff (h : RefilledRow c t cells cells') :
    (∀ j, (cells' j).IsText) ↔ ∀ j, (cells j).IsText := by
  rcases h with rfl | ⟨htext, hcells⟩
  · exact Iff.rfl
  · rw [Cell.isText_line_iff] at htext
    refine iff_of_true (fun j => ?_) htext
    rcases hcells j with hsame | ⟨-, hother⟩
    · exact hsame ▸ htext j
    · exact hother

theorem Locates.mem_columns (h : Locates c t k) :
    t.name k.timestamp ∈ c.columns ∧ t.name k.send ∈ c.columns ∧ t.name k.receive ∈ c.columns := by
  rw [(h.timestamp _).mpr rfl, (h.send _).mpr rfl, (h.receive _).mpr rfl]
  simp [Config.columns]

theorem Locates.of_header_eq (h : Locates c t k) (hheader : t'.header = t.header) :
    Locates c t' k := by
  have hname (j : Fin n) : t'.name j = t.name j := by rw [name, name, hheader]
  exact ⟨fun j => hname j ▸ h.unmarked j, fun j => hname j ▸ h.timestamp j,
    fun j => hname j ▸ h.send j, fun j => hname j ▸ h.receive j⟩

/-- Other columns may hold other texts. -/
theorem HasColumns.value_parse_refilled (h : HasColumns c t) (hrefilled : Refilled c t t') :
    (Recording.parse c (.ofBytes t'.bytes)).value
      = (Recording.parse c (.ofBytes t.bytes)).value := by
  obtain ⟨k, hk⟩ := h.exists_locates
  obtain ⟨htimestamp, hsend, hreceive⟩ := hk.mem_columns
  by_cases hn : 1 < n
  · rw [hk.value_parse (Cell.isBlankLine_line hn _),
      (hk.of_header_eq hrefilled.header).value_parse (Cell.isBlankLine_line hn _)]
    refine congrArg Except.ok (Recording.ofRows_of_corresponds ?_)
    rw [List.forall₂_map_left_iff, List.forall₂_map_right_iff]
    refine hrefilled.rows.imp fun cells cells' hrow => ?_
    exact Columns.corresponds_line hn hrow.isText_iff (hrow.eq_of_mem htimestamp)
      (hrow.eq_of_mem hsend) (hrow.eq_of_mem hreceive)
  · -- there are no other columns
    have hsingle : Subsingleton (Fin n) := Fin.subsingleton_iff_le_one.mpr (Nat.not_lt.mp hn)
    have hrows : List.Forall₂ Eq t.rows t'.rows := by
      refine hrefilled.rows.imp fun cells cells' hrow => (funext fun j => ?_).symm
      exact hrow.eq_of_mem (Subsingleton.elim k.timestamp j ▸ htimestamp)
    have hsame : t' = t := by
      rw [List.forall₂_eq_eq_eq] at hrows
      cases t
      cases t'
      rw [mk.injEq]
      exact ⟨hrefilled.header, hrows.symm, hrefilled.closed⟩
    rw [hsame]

end Table

end

/-! ## The two channels -/

/-- The settings with the sending and the receiving column exchanged. -/
def Config.swapChannels (c : Config) : Config :=
  { c with sendColumn := c.receiveColumn, receiveColumn := c.sendColumn }

/-- A layout with the two levels exchanged. -/
def ColumnLayout.swap (l : ColumnLayout) : ColumnLayout := ⟨l.timestamp, l.receive, l.send⟩

/-- A reading with the two levels exchanged. -/
def Reading.swap (r : Reading) : Reading := ⟨r.timestamp, r.receive, r.send⟩

/-- A recording with what was sent taken for what was received. -/
def Recording.swap (r : Recording) : Recording := ⟨r.receive, r.send, r.rowsParsed, r.rowsSkipped⟩

section

variable {c : Config} {l : ColumnLayout} {line : List UInt8} {r : Reading}

theorem ColumnLayout.ofNames_swap {names : List String} (h : ofNames c names = .ok l) :
    ofNames c.swapChannels names = .ok l.swap := by
  obtain ⟨htimestamp, hsend, hreceive⟩ := ofNames_eq_ok_iff.mp h
  exact ofNames_eq_ok_iff.mpr ⟨htimestamp, hreceive, hsend⟩

theorem FieldsHoldRow.swap {row : List (List Char)} (h : FieldsHoldRow l row r) :
    FieldsHoldRow l.swap row r.swap where
  wide := by
    have hwide := h.wide
    show max (max l.timestamp l.receive) l.send + 1 ≤ _
    omega
  timestamp := h.timestamp
  finite := h.finite
  send := h.receive
  receive := h.send

theorem holdsRow_swap_iff : HoldsRow l.swap line r.swap ↔ HoldsRow l line r :=
  exists_congr fun _ => and_congr_right fun _ => exists_congr fun _ => and_congr_right fun _ =>
    ⟨FieldsHoldRow.swap, FieldsHoldRow.swap⟩

end

namespace Recording

variable {c : Config} {source : ByteSource} {r : Recording} {rows rows' : List Row}

theorem ofRows_swap (h : List.Forall₂ (Row.Corresponds Reading.swap) rows rows') :
    ofRows rows' = (ofRows rows).swap := by
  obtain ⟨hreadings, hfaults⟩ := Row.readings_of_corresponds h
  unfold ofRows swap
  dsimp only
  rw [hreadings, hfaults, List.length_map, List.map_map, List.map_map]
  rfl

/-- With the columns exchanged in the settings, the samples are exchanged. -/
theorem parse_swapChannels (h : (parse c source).value = .ok r) :
    (parse c.swapChannels source).value = .ok r.swap := by
  have hsource : source = .ofBytes source.bytes := by
    rw [ByteSource.ofBytes, ← failure_eq_none_of_parse h]
  rw [hsource] at h ⊢
  obtain ⟨header, below, layout, hheaded, rfl⟩ := parse_eq_ok_iff.mp h
  refine parse_eq_ok_iff.mpr ⟨header, below, layout.swap,
    ⟨hheaded.lines, ColumnLayout.ofNames_swap hheaded.columns⟩, (ofRows_swap ?_).symm⟩
  rw [List.forall₂_map_left_iff, List.forall₂_map_right_iff, List.forall₂_same]
  intro line _
  exact Row.corresponds_ofLine (fun r => ⟨r.swap, rfl⟩) Iff.rfl fun r => holdsRow_swap_iff

/-- Of a table with the columns that matter, read as a recording unless its header is blank, only
these are read, wherever they stand: it may be permuted column by column, and in rows that are text
other columns may hold other texts. And with the sending and the receiving column exchanged in the
settings, whatever is read as a recording is read as one with its samples exchanged. -/
theorem parse_reads_columns (c : Config) :
    (∀ {n : Nat} (t : Table n), t.HasColumns c →
      (isBlankLine (Cell.line t.header) = false → ∃ r, (parse c (.ofBytes t.bytes)).value = .ok r)
      ∧ (∀ σ : Equiv.Perm (Fin n),
        (parse c (.ofBytes (t.permute σ).bytes)).value = (parse c (.ofBytes t.bytes)).value)
      ∧ ∀ t' : Table n, t.Refilled c t' →
        (parse c (.ofBytes t'.bytes)).value = (parse c (.ofBytes t.bytes)).value)
    ∧ ∀ source r, (parse c.swapChannels source).value = .ok (swap r)
      ↔ (parse c source).value = .ok r := by
  refine ⟨fun t h => ⟨fun hheader => ?_, h.value_parse_permute, fun t' => h.value_parse_refilled⟩,
    fun source r => ⟨parse_swapChannels, parse_swapChannels⟩⟩
  obtain ⟨k, hk⟩ := h.exists_locates
  exact ⟨_, hk.value_parse hheader⟩

/-- A column of notes in front, of which one is no text, put to the end; and a note that is
changed. -/
theorem parse_reads_columns_beside_notes :
    let cell (bytes : List UInt8) (h : 0x2C ∉ bytes ∧ ByteSource.lineFeed ∉ bytes) : Cell :=
      ⟨bytes, h.1, h.2⟩
    let title := cell (Text.Utf8.encode "note") (by decide +kernel)
    let timestamp := cell (Text.Utf8.encode "Timestamp(ms) ") (by decide +kernel)
    let send := cell (Text.Utf8.encode "D0") (by decide +kernel)
    let receive := cell (Text.Utf8.encode "D1\r") (by decide +kernel)
    let first := cell (Text.Utf8.encode "0.5") (by decide +kernel)
    let second := cell (Text.Utf8.encode " 0.75") (by decide +kernel)
    let low := cell (Text.Utf8.encode "0") (by decide +kernel)
    let high := cell (Text.Utf8.encode "+1") (by decide +kernel)
    let broken := cell [0xC3] (by decide +kernel)
    let accent := cell (Text.Utf8.encode "é") (by decide +kernel)
    let table (note : Cell) : Table 4 := ⟨![title, timestamp, send, receive],
      [![note, first, low, high], ![broken, second, high, low]], false⟩
    let back : Equiv.Perm (Fin 4) := finRotate 4
    let r : Recording := ⟨[⟨0.5, .low⟩], [⟨0.5, .high⟩], 1, 1⟩
    (table title).HasColumns {}
    ∧ (table title).Refilled {} (table accent)
    ∧ (parse {} (.ofBytes (table title).bytes)).value = .ok r
    ∧ (parse {} (.ofBytes ((table title).permute back).bytes)).value = .ok r
    ∧ (parse {} (.ofBytes (table accent).bytes)).value = .ok r := by
  intro cell title timestamp send receive first second low high broken accent table back r
  have hcolumns : (table title).HasColumns {} := by
    refine ⟨by decide +kernel, ?_⟩
    unfold ExistsUnique
    decide +kernel
  have hrefilled : (table title).Refilled {} (table accent) := by
    have htext : Text.Utf8.IsText (Cell.line ![title, first, low, high]) :=
      ⟨"note,0.5,0,+1", by decide +kernel⟩
    refine ⟨rfl, .cons (Or.inr ⟨htext, fun j => ?_⟩) (.cons (Or.inl rfl) .nil), rfl⟩
    cases j using Fin.cases with
    | zero => exact Or.inr ⟨by decide +kernel, "é", rfl⟩
    | succ j => exact Or.inl rfl
  have hread : (parse {} (.ofBytes (table title).bytes)).value = .ok r := by rfl
  obtain ⟨-, hpermute, hrefill⟩ := (parse_reads_columns {}).1 (table title) hcolumns
  exact ⟨hcolumns, hrefilled, hread, (hpermute back).trans hread,
    (hrefill (table accent) hrefilled).trans hread⟩

end Recording

end TriggerLatency
