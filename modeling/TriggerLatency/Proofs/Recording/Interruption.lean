import TriggerLatency.Proofs.Recording.Header
import TriggerLatency.Proofs.Recording.Lines

/-!
# Sources that fail

A source that fails gives no recording. Its lines are those of all the bytes of which the line feed
was handed out before (`lines_failingAfter`); a line that was broken off is none of them, neither a
header nor a row. So the error is that of the source, unless the header was among them and lacks a
column, which is then the error that all the bytes have; and the rows that are skipped on the way
are those among them that are skipped anyway (`parse_failingAfter`).

For that, the warnings of skipped rows are picked out of the log: they come row by row, whatever is
logged of progress in between (`skippedRows_notes`), so fewer lines give fewer of them and change
none (`filter_skips`).
-/

namespace TriggerLatency

/-! ## Lines that are handed out -/

namespace ByteSource

variable {bytes : List UInt8} {n line : Nat}

/-- The line feed that ends a line, counted from one, is among the first `n` bytes. -/
def EndsWithin (bytes : List UInt8) (n line : Nat) : Prop :=
  ∃ p < n, bytes[p]? = some lineFeed ∧ (bytes.take p).count lineFeed + 1 = line

/-- As many lines end as there are line feeds. -/
theorem endsWithin_iff :
    EndsWithin bytes n line ↔ 0 < line ∧ line ≤ (bytes.take n).count lineFeed := by
  induction n with
  | zero =>
    rw [List.take_zero, List.count_nil]
    refine iff_of_false ?_ (by omega)
    intro ⟨p, hp, _⟩
    exact absurd hp (Nat.not_lt_zero p)
  | succ n ih =>
    have hstep : EndsWithin bytes (n + 1) line ↔ EndsWithin bytes n line
        ∨ bytes[n]? = some lineFeed ∧ (bytes.take n).count lineFeed + 1 = line := by
      constructor
      · intro ⟨p, hp, hends⟩
        rcases Nat.lt_succ_iff_lt_or_eq.mp hp with hlt | rfl
        · exact Or.inl ⟨p, hlt, hends⟩
        · exact Or.inr hends
      · rintro (⟨p, hp, hends⟩ | hends)
        · exact ⟨p, Nat.lt_succ_of_lt hp, hends⟩
        · exact ⟨n, Nat.lt_succ_self n, hends⟩
    have hcount : (bytes.take (n + 1)).count lineFeed
        = (bytes.take n).count lineFeed + if bytes[n]? = some lineFeed then 1 else 0 := by
      rw [List.take_add_one, List.count_append]
      cases bytes[n]? with
      | none => rfl
      | some b => simp [List.count_singleton]
    rw [hstep, ih, hcount]
    by_cases hbyte : bytes[n]? = some lineFeed
    · rw [if_pos hbyte, and_iff_right hbyte]
      omega
    · rw [if_neg hbyte, or_iff_left (fun h => hbyte h.1), Nat.add_zero]

instance : Decidable (EndsWithin bytes n line) := decidable_of_iff' _ endsWithin_iff

theorem failure_failingAfter (h : n ≤ bytes.length) (cause : String) :
    (failingAfter bytes n cause).failure = some cause := by
  rw [failingAfter, if_pos h]

/-- A failing source hands out the lines that end before it fails. -/
theorem lines_failingAfter (h : n ≤ bytes.length) (cause : String) :
    (failingAfter bytes n cause).lines
      = (ofBytes bytes).lines.take ((bytes.take n).count lineFeed) := by
  have hclosed := Text.filter_closed_splitAfter lineFeed (bytes.take n)
  have hwhole := Text.take_splitAfter_append lineFeed (bytes.take n) (bytes.drop n)
  rw [List.take_append_drop] at hwhole
  rw [failingAfter, if_pos h, lines_ofBytes, hwhole]
  exact hclosed

end ByteSource

/-! ## Warnings -/

/-- The line of a row that was skipped, and why. -/
def LogEvent.skip? : LogEvent → Option (Nat × RowFault)
  | .rowSkipped line fault => some (line, fault)
  | _ => none

/-- The rows that were skipped, as a log tells it. -/
def skippedRows (log : List LogEvent) : List (Nat × RowFault) := log.filterMap LogEvent.skip?

namespace Row

/-- The rejected ones of rows that stand on consecutive lines from line `first` on. -/
def skips (first : Nat) (rows : List Row) : List (Nat × RowFault) :=
  (rows.zipIdx first).filterMap fun numbered => numbered.1.fault?.map (numbered.2, ·)

@[simp] theorem skips_nil (first : Nat) : skips first [] = [] := rfl

theorem skips_cons (first : Nat) (row : Row) (rows : List Row) :
    skips first (row :: rows) = (row.fault?.map (first, ·)).toList ++ skips (first + 1) rows := by
  unfold skips
  rw [List.zipIdx_cons, List.filterMap_cons]
  cases row.fault? <;> rfl

/-- What is logged on a row tells whether it was skipped. -/
theorem skippedRows_note (accepted : Nat) (row : Row) (line : Nat) :
    skippedRows (note accepted (row, line)).1 = (row.fault?.map (line, ·)).toList := by
  cases row with
  | blank => rfl
  | rejected fault => rfl
  | accepted r =>
    unfold note
    dsimp only
    split <;> rfl

/-- The log of rows tells which were skipped. -/
theorem skippedRows_notes (first : Nat) (rows : List Row) :
    skippedRows (notes first rows) = skips first rows := by
  have hrun (accepted : Nat) :
      skippedRows (Transducer.run note accepted (rows.zipIdx first)).1.flatten
        = skips first rows := by
    induction rows generalizing first accepted with
    | nil => rfl
    | cons row rows ih =>
      rw [List.zipIdx_cons, Transducer.run_cons, List.flatten_cons, skippedRows,
        List.filterMap_append, skips_cons]
      exact congrArg₂ (· ++ ·) (skippedRows_note accepted row first) (ih (first + 1) _)
  exact hrun 0

/-- Of fewer rows, fewer are skipped, and the same. -/
theorem filter_skips {p : Nat → Prop} [DecidablePred p] {limit first : Nat}
    (hp : ∀ line, first ≤ line → (p line ↔ line < limit)) (rows : List Row) :
    (skips first rows).filter (fun skip => p skip.1) = skips first (rows.take (limit - first)) := by
  induction rows generalizing first with
  | nil =>
    rw [List.take_nil]
    rfl
  | cons row rows ih =>
    rw [skips_cons, List.filter_append, ih fun line hline => hp line (by omega)]
    have hfirst := hp first (Nat.le_refl first)
    by_cases hlt : first < limit
    · obtain ⟨m, hm⟩ : ∃ m, limit - first = m + 1 := ⟨limit - first - 1, by omega⟩
      have hrest : limit - (first + 1) = m := by omega
      rw [hm, hrest, List.take_succ_cons, skips_cons]
      congr 1
      cases row.fault? <;> simp [hfirst, hlt]
    · have hnone : limit - first = 0 := by omega
      have hrest : limit - (first + 1) = 0 := by omega
      rw [hnone, hrest, List.take_zero, List.take_zero]
      cases row.fault? <;> simp [hfirst, hlt]

end Row

namespace Recording

open ByteSource

variable {c : Config} {source : ByteSource} {header : List UInt8}
  {lines above below : List (List UInt8)} {k : Nat}

/-! ## Lines up to some line -/

/-- The header is found among the first lines if they go so far. -/
theorem HeaderAt.take (h : HeaderAt lines above header below) (hk : above.length < k) :
    HeaderAt (lines.take k) above header (below.take (k - (above.length + 1))) where
  eq_append := by
    obtain ⟨m, rfl⟩ : ∃ m, k = above.length + (m + 1) := ⟨k - above.length - 1, by omega⟩
    have hm : above.length + (m + 1) - (above.length + 1) = m := by omega
    rw [h.eq_append, List.take_length_add_append, List.take_succ_cons, hm]
  above := h.above
  header := h.header

/-- The lines above the header are blank. -/
theorem HeaderAt.blank_of_mem_take (h : HeaderAt lines above header below) (hk : k ≤ above.length) :
    ∀ line ∈ lines.take k, isBlankLine line = true := by
  rw [h.eq_append, List.take_append_of_le_length hk]
  exact fun line hline => h.above line (List.mem_of_mem_take hline)

/-! ## What a source comes to -/

/-- Without a header nothing is logged. -/
theorem parse_of_blank (h : ∀ line ∈ source.lines, isBlankLine line = true) :
    parse c source = ⟨.error (source.failure.elim .missingHeader .interrupted), []⟩ := by
  have hnil : source.lines.dropWhile isBlankLine = [] := List.dropWhile_eq_nil_iff.mpr h
  unfold parse
  dsimp only
  rw [hnil]
  dsimp only
  cases source.failure <;> rfl

/-- A missing column ends the reading, whatever becomes of the source. -/
theorem HeaderAt.parse_of_error {e : RecordingError} (h : HeaderAt source.lines above header below)
    (hnames : ColumnLayout.ofNames c (columnNames header) = .error e) :
    parse c source = ⟨.error e, []⟩ := by
  unfold parse
  dsimp only
  rw [h.dropWhile_eq]
  dsimp only
  rw [hnames]

section

variable {layout : ColumnLayout}

/-- Where the columns are found, only the source can fail. -/
theorem HeaderAt.value_parse_of_failure {cause : String}
    (h : HeaderAt source.lines above header below)
    (hnames : ColumnLayout.ofNames c (columnNames header) = .ok layout)
    (hfailure : source.failure = some cause) :
    (parse c source).value = .error (.interrupted cause) := by
  unfold parse
  dsimp only
  rw [h.dropWhile_eq]
  dsimp only
  rw [hnames, hfailure]

/-- The rejected rows below the header are told with the numbers of their lines. -/
theorem HeaderAt.skippedRows_parse (h : HeaderAt source.lines above header below)
    (hnames : ColumnLayout.ofNames c (columnNames header) = .ok layout) :
    skippedRows (parse c source).log
      = Row.skips (above.length + 2) (below.map (Row.ofLine layout c)) := by
  have hfirst : source.lines.length - below.length + 1 = above.length + 2 := by
    rw [h.eq_append, List.length_append, List.length_cons]
    omega
  unfold parse
  dsimp only
  rw [h.dropWhile_eq]
  dsimp only
  rw [hnames, hfirst, ← Row.skippedRows_notes]
  dsimp only
  cases source.failure with
  | some cause => rfl
  | none =>
    unfold skippedRows
    dsimp only
    rw [List.filterMap_append]
    exact List.append_nil _

end

/-! ## Sources that fail -/

/-- The header ends before a source fails, and lacks a column. -/
def LacksColumnWithin (c : Config) (bytes : List UInt8) (n : Nat) : Prop :=
  ∃ above header below, HeaderAt (ofBytes bytes).lines above header below
    ∧ EndsWithin bytes n (above.length + 1) ∧ ∃ column ∈ c.columns, column ∉ columnNames header

section

variable {bytes : List UInt8} {n : Nat} {cause : String}

theorem lacksColumnWithin_iff (h : HeaderAt (ofBytes bytes).lines above header below) :
    LacksColumnWithin c bytes n ↔ EndsWithin bytes n (above.length + 1)
      ∧ ∃ column ∈ c.columns, column ∉ columnNames header := by
  constructor
  · intro ⟨above', header', below', h', hlacks⟩
    obtain ⟨rfl, rfl, -⟩ := h.unique h'
    exact hlacks
  · exact fun hlacks => ⟨above, header, below, h, hlacks⟩

/-- A source that fails above the header, or has none, gives nothing but its failure. -/
theorem parse_failingAfter_of_blank (hn : n ≤ bytes.length)
    (h : ∀ line ∈ (ofBytes bytes).lines.take ((bytes.take n).count lineFeed),
      isBlankLine line = true) :
    parse c (.failingAfter bytes n cause) = ⟨.error (.interrupted cause), []⟩ := by
  rw [← lines_failingAfter hn cause] at h
  rw [parse_of_blank h, failure_failingAfter hn]
  rfl

/-- The skipped rows that end within some bytes are those of the rows that do. -/
theorem HeaderAt.filter_skippedRows {layout : ColumnLayout}
    (h : HeaderAt (ofBytes bytes).lines above header below)
    (hnames : ColumnLayout.ofNames c (columnNames header) = .ok layout) :
    (skippedRows (parse c (.ofBytes bytes)).log).filter (fun skip => EndsWithin bytes n skip.1)
      = Row.skips (above.length + 2) ((below.take ((bytes.take n).count lineFeed
        - (above.length + 1))).map (Row.ofLine layout c)) := by
  have hlimit (line : Nat) (hline : above.length + 2 ≤ line) :
      EndsWithin bytes n line ↔ line < (bytes.take n).count lineFeed + 1 := by
    rw [endsWithin_iff]
    omega
  rw [h.skippedRows_parse hnames, Row.filter_skips hlimit, List.map_take, Nat.add_sub_add_right]

/-- No row ends before the header does. -/
theorem HeaderAt.filter_skippedRows_eq_nil (h : HeaderAt (ofBytes bytes).lines above header below)
    (hn : (bytes.take n).count lineFeed ≤ above.length) :
    (skippedRows (parse c (.ofBytes bytes)).log).filter (fun skip => EndsWithin bytes n skip.1)
      = [] := by
  cases hnames : ColumnLayout.ofNames c (columnNames header) with
  | error e =>
    rw [h.parse_of_error hnames]
    rfl
  | ok layout =>
    have hnone : (bytes.take n).count lineFeed - (above.length + 1) = 0 := by omega
    rw [h.filter_skippedRows hnames, hnone, List.take_zero]
    rfl

end

/-- A source that fails gives no recording. Its error is that of all its bytes if the header ends
before it fails and lacks a column, and its own otherwise; and the rows that were skipped before are
those that are skipped anyway of which the line ends before it fails. -/
theorem parse_failingAfter (c : Config) (bytes : List UInt8) (n : Nat) (cause : String)
    (hn : n ≤ bytes.length) :
    let whole := parse c (.ofBytes bytes)
    let failed := parse c (.failingAfter bytes n cause)
    (LacksColumnWithin c bytes n → ∃ column found,
      failed.value = .error (.missingColumn column found) ∧ whole.value = failed.value)
    ∧ (¬ LacksColumnWithin c bytes n → failed.value = .error (.interrupted cause))
    ∧ skippedRows failed.log
      = (skippedRows whole.log).filter fun skip => EndsWithin bytes n skip.1 := by
  intro whole failed
  rcases blank_or_exists_headerAt (ofBytes bytes).lines with hblank | ⟨above, header, below, h⟩
  · -- there is no header at all
    have hwhole : whole = _ := parse_of_blank hblank
    have hfailed : failed = _ :=
      parse_failingAfter_of_blank hn fun line hline => hblank line (List.mem_of_mem_take hline)
    rw [hwhole, hfailed]
    exact ⟨fun ⟨_, _, _, h, _⟩ => absurd hblank h.not_blank, fun _ => rfl, rfl⟩
  rw [lacksColumnWithin_iff h, endsWithin_iff]
  by_cases hreached : above.length < (bytes.take n).count lineFeed
  · -- the header is handed out
    have hheader : HeaderAt (failingAfter bytes n cause).lines above header _ :=
      lines_failingAfter hn cause ▸ h.take hreached
    cases hnames : ColumnLayout.ofNames c (columnNames header) with
    | error e =>
      obtain ⟨column, hcolumn, hmissing, rfl⟩ := ColumnLayout.exists_of_ofNames_eq_error hnames
      have hwhole : whole = _ := h.parse_of_error hnames
      have hfailed : failed = _ := hheader.parse_of_error hnames
      rw [hwhole, hfailed]
      refine ⟨fun _ => ⟨column, _, rfl, rfl⟩, fun hfine => ?_, rfl⟩
      exact absurd ⟨⟨Nat.succ_pos _, hreached⟩, column, hcolumn, hmissing⟩ hfine
    | ok layout =>
      have hfailed : failed.value = _ :=
        hheader.value_parse_of_failure hnames (failure_failingAfter hn cause)
      refine ⟨?_, fun _ => hfailed, ?_⟩
      · intro ⟨_, column, hcolumn, hmissing⟩
        exact absurd (ColumnLayout.exists_ofNames_eq_ok_iff.mp ⟨layout, hnames⟩ column hcolumn)
          hmissing
      · rw [h.filter_skippedRows hnames]
        exact hheader.skippedRows_parse hnames
  · -- it is not, and what is handed out is blank
    have hfailed : failed = _ :=
      parse_failingAfter_of_blank hn (h.blank_of_mem_take (Nat.not_lt.mp hreached))
    rw [hfailed]
    exact ⟨fun hlacks => absurd hlacks.1.2 hreached, fun _ => rfl,
      (h.filter_skippedRows_eq_nil (Nat.not_lt.mp hreached)).symm⟩

/-- A source that fails in the middle of a bad row, behind another one: with the default columns the
failure is the error, and with a column that the header does not have that is. -/
theorem parse_failingAfter_in_row :
    let bytes := Text.Utf8.encode "\nTimestamp(ms),D0,D1\n0.5,1\n0.75,2,1\n1.0,0,0\n"
    let whole := parse {} (.ofBytes bytes)
    let failed := parse {} (.failingAfter bytes 31 "reset")
    let lacking : Config := { sendColumn := "D7" }
    31 ≤ bytes.length
    ∧ skippedRows whole.log = [(3, .tooShort 3 2), (4, .invalidLevel "D0" "2")]
    ∧ ¬ LacksColumnWithin {} bytes 31
    ∧ failed.value = .error (.interrupted "reset")
    ∧ skippedRows failed.log = [(3, .tooShort 3 2)]
    ∧ skippedRows failed.log
      = (skippedRows whole.log).filter (fun skip => EndsWithin bytes 31 skip.1)
    ∧ LacksColumnWithin lacking bytes 31
    ∧ (parse lacking (.failingAfter bytes 31 "reset")).value
      = .error (.missingColumn "D7" ["Timestamp(ms)", "D0", "D1"]) := by
  intro bytes whole failed lacking
  have hn : 31 ≤ bytes.length := by decide +kernel
  have hheader : HeaderAt (ofBytes bytes).lines [[lineFeed]]
      (Text.Utf8.encode "Timestamp(ms),D0,D1\n") ((ofBytes bytes).lines.drop 2) :=
    ⟨by decide +kernel, by decide +kernel, by decide +kernel⟩
  have hfits : ¬ LacksColumnWithin {} bytes 31 := by
    rw [lacksColumnWithin_iff hheader, endsWithin_iff]
    decide +kernel
  have hlacks : LacksColumnWithin lacking bytes 31 := by
    rw [lacksColumnWithin_iff hheader, endsWithin_iff]
    decide +kernel
  obtain ⟨-, hfailed, hskipped⟩ := parse_failingAfter {} bytes 31 "reset" hn
  exact ⟨hn, by rfl, hfits, hfailed hfits, by rfl, hskipped, hlacks, by rfl⟩

end Recording

end TriggerLatency
