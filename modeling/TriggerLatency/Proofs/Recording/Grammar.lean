import TriggerLatency.Proofs.Except
import TriggerLatency.Proofs.Recording.Level
import TriggerLatency.Proofs.Text.Cutting
import TriggerLatency.Proofs.Text.Trim
import TriggerLatency.Proofs.Text.Utf8

/-!
# The grammar of rows

What a line below the header is can be told without reading it step by step. A text `HasFields`
if it is made of them with commas between and white space around, and a line `HoldsRow` with some
contents if it is the encoding of a text that has fields enough, a finite time in one of them and
levels in two. A line that is neither blank nor a row is rejected with the fault of the first check
that it fails (`RowCheck.inOrder`), each check being stated by itself (`ofLine_follows_grammar`).

Three things make the reader and the grammar agree: bytes decode exactly if they encode a text, a
text has the fields that are cut from it and no others (`hasFields_iff`), and these are the same
whether it is trimmed first or not (`fields_trim`).
-/

namespace TriggerLatency

/-! ## Rows and blank lines -/

/-- A text is made of fields, with commas between them and white space around them. -/
inductive HasFields : List Char → List (List Char) → Prop
  | last {piece field : List Char} :
      ',' ∉ piece → Text.Trims piece field → HasFields piece [field]
  | cons {piece field rest : List Char} {row : List (List Char)} :
      ',' ∉ piece → Text.Trims piece field → HasFields rest row →
      HasFields (piece ++ ',' :: rest) (field :: row)

/-- Fields hold a row with the contents `r`. -/
structure FieldsHoldRow (l : ColumnLayout) (row : List (List Char)) (r : Reading) : Prop where
  wide : max (max l.timestamp l.send) l.receive + 1 ≤ row.length
  timestamp : ∃ field, row[l.timestamp]? = some field
    ∧ Decimal.readFloat? field = some r.timestamp
  finite : r.timestamp.isFinite = true
  send : ∃ field, row[l.send]? = some field ∧ WritesLevel field r.send
  receive : ∃ field, row[l.receive]? = some field ∧ WritesLevel field r.receive

/-- The text of a line holds a row with the contents `r`. -/
def TextHoldsRow (l : ColumnLayout) (text : List Char) (r : Reading) : Prop :=
  ∃ row, HasFields text row ∧ FieldsHoldRow l row r

/-- A line is a row with the contents `r`. -/
def HoldsRow (l : ColumnLayout) (line : List UInt8) (r : Reading) : Prop :=
  ∃ text : String, line = Text.Utf8.encode text ∧ TextHoldsRow l text.toList r

/-- A line is text, but nothing except white space. -/
def IsBlankText (line : List UInt8) : Prop :=
  ∃ text : String, line = Text.Utf8.encode text ∧ ∀ c ∈ text.toList, Text.isBlank c = true

/-! ## Checks -/

/-- What a line has to pass to be a row. -/
inductive RowCheck
  | encoding
  | width
  | timestamp
  | level (channel : Channel)

/-- The checks in the order in which they are made. -/
def RowCheck.inOrder : List RowCheck :=
  [.encoding, .width, .timestamp, .level .send, .level .receive]

/-- Where the level of a channel stands. -/
def ColumnLayout.position (l : ColumnLayout) : Channel → Nat
  | .send => l.send
  | .receive => l.receive

/-- The column of a channel. -/
def Config.levelColumn (c : Config) : Channel → String
  | .send => c.sendColumn
  | .receive => c.receiveColumn

/-- A text has a field that is no good, and the fault reports it. -/
def FieldFails (line : List UInt8) (i : Nat) (bad : List Char → Prop) (report : String → RowFault)
    (fault : RowFault) : Prop :=
  ∃ text : String, line = Text.Utf8.encode text ∧ ∃ row, HasFields text.toList row
    ∧ ∃ field, row[i]? = some field ∧ bad field ∧ fault = report (String.ofList field)

/-- A line fails a check, with the fault that tells so. -/
def RowCheck.Fails (l : ColumnLayout) (c : Config) (line : List UInt8) :
    RowCheck → RowFault → Prop
  | .encoding, fault => (∀ text : String, line ≠ Text.Utf8.encode text) ∧ fault = .notText
  | .width, fault => ∃ text : String, line = Text.Utf8.encode text
      ∧ ∃ row, HasFields text.toList row
        ∧ row.length < max (max l.timestamp l.send) l.receive + 1
        ∧ fault = .tooShort (max (max l.timestamp l.send) l.receive + 1) row.length
  | .timestamp, fault => FieldFails line l.timestamp
      (fun field => ∀ t, Decimal.readFloat? field = some t → t.isFinite = false)
      .invalidTimestamp fault
  | .level channel, fault => FieldFails line (l.position channel)
      (fun field => ∀ level, ¬ WritesLevel field level)
      (.invalidLevel (c.levelColumn channel)) fault

/-! ## Fields -/

section

variable {piece rest text : List Char} {row row' : List (List Char)}

theorem fields_of_not_mem (h : ',' ∉ piece) : fields piece = [Text.trim piece] := by
  rw [fields, Text.splitOn_of_not_mem h, List.map_singleton]

theorem fields_append_cons (h : ',' ∉ piece) (rest : List Char) :
    fields (piece ++ ',' :: rest) = Text.trim piece :: fields rest := by
  rw [fields, Text.splitOn_append_cons h, List.map_cons, ← fields]

/-- The fields of a text are those that are cut from it. -/
theorem hasFields_iff : HasFields text row ↔ fields text = row := by
  constructor
  · intro h
    induction h with
    | last hpiece hfield => rw [fields_of_not_mem hpiece, Text.trims_iff.mp hfield]
    | cons hpiece hfield _ ih => rw [fields_append_cons hpiece, Text.trims_iff.mp hfield, ih]
  · rintro rfl
    induction text using Text.pieceInduction ',' with
    | broken piece hpiece =>
      rw [fields_of_not_mem hpiece]
      exact .last hpiece (Text.trims_trim piece)
    | closed piece rest hpiece ih =>
      rw [fields_append_cons hpiece]
      exact .cons hpiece (Text.trims_trim piece) ih

theorem HasFields.unique (h : HasFields text row) (h' : HasFields text row') : row = row' :=
  (hasFields_iff.mp h).symm.trans (hasFields_iff.mp h')

theorem textHoldsRow_iff_fields {l : ColumnLayout} {r : Reading} :
    TextHoldsRow l text r ↔ FieldsHoldRow l (fields text) r := by
  constructor
  · rintro ⟨row, hrow, hholds⟩
    rwa [hasFields_iff.mp hrow]
  · exact fun h => ⟨_, hasFields_iff.mpr rfl, h⟩

end

theorem fields_trim (text : List Char) : fields (Text.trim text) = fields text :=
  Text.map_trim_splitOn_trim (by decide) text

/-- A blank line is one empty field. -/
theorem fields_of_isBlank {text : List Char} (h : ∀ c ∈ text, Text.isBlank c = true) :
    fields text = [[]] := by
  rw [← fields_trim, Text.trim_eq_nil_iff.mpr h]
  rfl

/-! ## One fault for each check -/

theorem FieldFails.unique {line : List UInt8} {i : Nat} {bad : List Char → Prop}
    {report : String → RowFault} {fault fault' : RowFault}
    (h : FieldFails line i bad report fault) (h' : FieldFails line i bad report fault') :
    fault = fault' := by
  obtain ⟨text, rfl, row, hrow, field, hfield, -, rfl⟩ := h
  obtain ⟨text', htext, row', hrow', field', hfield', -, rfl⟩ := h'
  obtain rfl := Text.Utf8.encode_injective htext
  obtain rfl := hrow.unique hrow'
  rw [Option.some.inj (hfield.symm.trans hfield')]

/-- A check fails with one fault. -/
theorem RowCheck.Fails.unique {l : ColumnLayout} {c : Config} {line : List UInt8} {check : RowCheck}
    {fault fault' : RowFault} (h : check.Fails l c line fault) (h' : check.Fails l c line fault') :
    fault = fault' := by
  cases check with
  | encoding => exact h.2.trans h'.2.symm
  | width =>
    obtain ⟨text, rfl, row, hrow, -, rfl⟩ := h
    obtain ⟨text', htext, row', hrow', -, rfl⟩ := h'
    obtain rfl := Text.Utf8.encode_injective htext
    rw [hrow.unique hrow']
  | timestamp => exact FieldFails.unique h h'
  | level channel => exact FieldFails.unique h h'

/-! ## Reading fields -/

section

variable {column : String} {field : List Char} {fault : RowFault}

theorem readTimestamp_eq_elim :
    readTimestamp field = (timestamp? field).elim
      (Except.error (.invalidTimestamp (String.ofList field))) Except.ok := by
  unfold readTimestamp
  cases timestamp? field <;> rfl

theorem readLevel_eq_elim :
    readLevel column field = (level? field).elim
      (Except.error (.invalidLevel column (String.ofList field))) Except.ok := by
  unfold readLevel
  cases level? field <;> rfl

theorem readTimestamp_eq_ok_iff {t : Float} :
    readTimestamp field = .ok t ↔ Decimal.readFloat? field = some t ∧ t.isFinite = true := by
  rw [readTimestamp_eq_elim, elim_eq_ok_iff, timestamp?, Option.filter_eq_some_iff]

theorem readTimestamp_eq_error_iff :
    readTimestamp field = .error fault ↔
      (∀ t, Decimal.readFloat? field = some t → t.isFinite = false)
      ∧ fault = .invalidTimestamp (String.ofList field) := by
  rw [readTimestamp_eq_elim, elim_eq_error_iff, timestamp?, Option.filter_eq_none_iff]
  simp only [Bool.not_eq_true]

theorem readLevel_eq_ok_iff {level : Level} :
    readLevel column field = .ok level ↔ WritesLevel field level := by
  rw [readLevel_eq_elim, elim_eq_ok_iff, level?_eq_some_iff]

theorem readLevel_eq_error_iff :
    readLevel column field = .error fault ↔
      (∀ level, ¬ WritesLevel field level)
      ∧ fault = .invalidLevel column (String.ofList field) := by
  rw [readLevel_eq_elim, elim_eq_error_iff, Option.eq_none_iff_forall_ne_some]
  simp only [ne_eq, level?_eq_some_iff]

end

/-! ## Rows -/

section

variable {l : ColumnLayout} {c : Config} {line : List UInt8}

/-- A field that is there is the one that is read. -/
theorem getElem?_of_lt {row : List (List Char)} {i : Nat} (h : i < row.length) :
    row[i]? = some (row.getD i []) := by
  rw [List.getD_eq_getElem?_getD, List.getElem?_eq_getElem h]
  rfl

/-- The width is that of the column that stands furthest right. -/
theorem ColumnLayout.width_le_iff {n : Nat} :
    l.width ≤ n ↔ l.timestamp < n ∧ ∀ channel, l.position channel < n := by
  unfold width
  constructor
  · intro h
    refine ⟨by omega, fun channel => ?_⟩
    cases channel with
    | send => show l.send < n; omega
    | receive => show l.receive < n; omega
  · intro ⟨ht, hlevels⟩
    have hsend : l.send < n := hlevels .send
    have hreceive : l.receive < n := hlevels .receive
    omega

/-- Fields are read exactly if they hold a row. -/
theorem readFields_eq_ok_iff {row : List (List Char)} {r : Reading} :
    l.readFields c row = .ok r ↔ FieldsHoldRow l row r := by
  unfold ColumnLayout.readFields
  by_cases hwidth : row.length < l.width
  · rw [if_pos hwidth]
    exact ⟨fun h => (nomatch h), fun h => absurd h.wide (Nat.not_le.mpr hwidth)⟩
  · rw [if_neg hwidth]
    obtain ⟨ht, hlevels⟩ := ColumnLayout.width_le_iff.mp (Nat.not_lt.mp hwidth)
    have hsend : row[l.send]? = _ := getElem?_of_lt (hlevels .send)
    have hreceive : row[l.receive]? = _ := getElem?_of_lt (hlevels .receive)
    constructor
    · -- the timestamp is read first, and then the two levels
      intro h
      obtain ⟨t, htime, h⟩ := exists_of_bind_eq_ok h
      obtain ⟨send, hsent, h⟩ := exists_of_bind_eq_ok h
      obtain ⟨receive, hreceived, h⟩ := exists_of_bind_eq_ok h
      obtain rfl := Except.ok.inj h
      obtain ⟨htime, hfinite⟩ := readTimestamp_eq_ok_iff.mp htime
      exact ⟨Nat.not_lt.mp hwidth, ⟨_, getElem?_of_lt ht, htime⟩, hfinite,
        ⟨_, hsend, readLevel_eq_ok_iff.mp hsent⟩, ⟨_, hreceive, readLevel_eq_ok_iff.mp hreceived⟩⟩
    · intro h
      obtain ⟨field, hfield, htime⟩ := h.timestamp
      obtain ⟨sent, hsent, hlow⟩ := h.send
      obtain ⟨received, hreceived, hhigh⟩ := h.receive
      obtain rfl := Option.some.inj ((getElem?_of_lt ht).symm.trans hfield)
      obtain rfl := Option.some.inj (hsend.symm.trans hsent)
      obtain rfl := Option.some.inj (hreceive.symm.trans hreceived)
      rw [bind_eq_of_eq_ok (readTimestamp_eq_ok_iff.mpr ⟨htime, h.finite⟩),
        bind_eq_of_eq_ok (readLevel_eq_ok_iff.mpr hlow),
        bind_eq_of_eq_ok (readLevel_eq_ok_iff.mpr hhigh)]

/-- Reading a field is one check. -/
theorem staged_field {α : Type} {check : RowCheck} {i : Nat} {bad : List Char → Prop}
    {report : String → RowFault} {text : String} {read : List Char → Except RowFault α}
    (hcheck : ∀ fault, check.Fails l c (Text.Utf8.encode text) fault ↔
      FieldFails (Text.Utf8.encode text) i bad report fault)
    (hread : ∀ field fault,
      read field = .error fault ↔ bad field ∧ fault = report (String.ofList field))
    (hi : i < (fields text.toList).length) :
    Staged (RowCheck.Fails l c (Text.Utf8.encode text)) [check]
      (read ((fields text.toList).getD i [])) := by
  refine Staged.one fun fault => ?_
  rw [hcheck, hread]
  constructor
  · intro ⟨text', htext, row, hrow, field, hfield, hfails⟩
    obtain rfl := Text.Utf8.encode_injective htext
    obtain rfl := hasFields_iff.mp hrow
    obtain rfl := Option.some.inj ((getElem?_of_lt hi).symm.trans hfield)
    exact hfails
  · intro hfails
    exact ⟨text, rfl, _, hasFields_iff.mpr rfl, _, getElem?_of_lt hi, hfails⟩

theorem staged_readTimestamp {text : String} (ht : l.timestamp < (fields text.toList).length) :
    Staged (RowCheck.Fails l c (Text.Utf8.encode text)) [.timestamp]
      (readTimestamp ((fields text.toList).getD l.timestamp [])) :=
  staged_field (fun _ => Iff.rfl) (fun _ _ => readTimestamp_eq_error_iff) ht

theorem staged_readLevel {text : String} {channel : Channel}
    (hlevel : l.position channel < (fields text.toList).length) :
    Staged (RowCheck.Fails l c (Text.Utf8.encode text)) [.level channel]
      (readLevel (c.levelColumn channel) ((fields text.toList).getD (l.position channel) [])) :=
  staged_field (fun _ => Iff.rfl) (fun _ _ => readLevel_eq_error_iff) hlevel

/-- The fields of a text are read check by check. -/
theorem staged_readFields (text : String) :
    Staged (RowCheck.Fails l c (Text.Utf8.encode text)) RowCheck.inOrder
      (l.readFields c (fields text.toList)) := by
  refine Staged.cons (fun fault hfails => hfails.1 text rfl) ?_
  unfold ColumnLayout.readFields
  by_cases hwidth : (fields text.toList).length < l.width
  · rw [if_pos hwidth]
    exact FirstFailure.here ⟨text, rfl, _, hasFields_iff.mpr rfl, hwidth, rfl⟩
  · rw [if_neg hwidth]
    refine Staged.cons (fun fault hfails => ?_) ?_
    · obtain ⟨text', htext, row, hrow, hshort, -⟩ := hfails
      obtain rfl := Text.Utf8.encode_injective htext
      obtain rfl := hasFields_iff.mp hrow
      exact hwidth hshort
    · -- with fields enough, every check that is left reads a field of its own
      obtain ⟨ht, hlevels⟩ := ColumnLayout.width_le_iff.mp (Nat.not_lt.mp hwidth)
      refine (staged_readTimestamp ht).bind fun t _ => ?_
      refine (staged_readLevel (hlevels .send)).bind fun send _ => ?_
      exact (staged_readLevel (hlevels .receive)).bind fun receive _ => Staged.nil _

/-- What a line holds if it is not blank. -/
def ColumnLayout.readLine (l : ColumnLayout) (c : Config) (line : List UInt8) :
    Except RowFault Reading :=
  match Text.Utf8.decode? line with
  | none => .error .notText
  | some text => l.readFields c (fields text)

theorem readLine_encode (text : String) :
    l.readLine c (Text.Utf8.encode text) = l.readFields c (fields text.toList) := by
  unfold ColumnLayout.readLine
  rw [Text.Utf8.decode?_encode]

theorem readLine_eq_ok_iff {r : Reading} : l.readLine c line = .ok r ↔ HoldsRow l line r := by
  constructor
  · intro h
    unfold ColumnLayout.readLine at h
    cases htext : Text.Utf8.decode? line with
    | none =>
      rw [htext] at h
      exact nomatch h
    | some text =>
      rw [htext] at h
      refine ⟨String.ofList text, Text.Utf8.decode?_eq_some_iff.mp htext, ?_⟩
      rw [String.toList_ofList]
      exact textHoldsRow_iff_fields.mpr (readFields_eq_ok_iff.mp h)
  · intro h
    obtain ⟨text, rfl, hrow⟩ := h
    rw [readLine_encode]
    exact readFields_eq_ok_iff.mpr (textHoldsRow_iff_fields.mp hrow)

/-- A line is read check by check. -/
theorem staged_readLine :
    Staged (RowCheck.Fails l c line) RowCheck.inOrder (l.readLine c line) := by
  cases htext : Text.Utf8.decode? line with
  | none =>
    unfold ColumnLayout.readLine
    rw [htext]
    exact FirstFailure.here ⟨Text.Utf8.decode?_eq_none_iff.mp htext, rfl⟩
  | some text =>
    obtain rfl := Text.Utf8.decode?_eq_some_iff.mp htext
    rw [readLine_encode]
    exact staged_readFields _

/-! ## Lines -/

theorem ofLine_of_isBlankText (h : IsBlankText line) : Row.ofLine l c line = .blank := by
  obtain ⟨text, rfl, hblank⟩ := h
  unfold Row.ofLine
  rw [Text.Utf8.decode?_encode]
  dsimp only
  rw [Text.trim_eq_nil_iff.mpr hblank]

/-- A line that is not blank is read as it stands. -/
theorem ofLine_of_not_isBlankText (h : ¬ IsBlankText line) :
    Row.ofLine l c line = Row.ofFields (l.readLine c line) := by
  unfold Row.ofLine ColumnLayout.readLine
  cases htext : Text.Utf8.decode? line with
  | none => rfl
  | some text =>
    dsimp only
    cases htrim : Text.trim text with
    | nil =>
      refine absurd ⟨String.ofList text, Text.Utf8.decode?_eq_some_iff.mp htext, ?_⟩ h
      rw [String.toList_ofList]
      exact Text.trim_eq_nil_iff.mp htrim
    | cons first rest =>
      dsimp only
      rw [← htrim, fields_trim]

theorem HoldsRow.isFinite {r : Reading} (h : HoldsRow l line r) : r.timestamp.isFinite = true := by
  obtain ⟨text, -, row, -, hrow⟩ := h
  exact hrow.finite

/-- The one field of a blank line is no time, whatever the layout. -/
theorem HoldsRow.not_isBlankText {r : Reading} (h : HoldsRow l line r) : ¬ IsBlankText line := by
  intro ⟨text, htext, hblank⟩
  obtain ⟨text', htext', hrow⟩ := h
  obtain rfl := Text.Utf8.encode_injective (htext.symm.trans htext')
  obtain ⟨field, hfield, htime⟩ := (textHoldsRow_iff_fields.mp hrow).timestamp
  rw [fields_of_isBlank hblank] at hfield
  obtain rfl := List.mem_singleton.mp (List.mem_of_getElem? hfield)
  have hnone : Decimal.readFloat? [] = none := rfl
  exact nomatch hnone.symm.trans htime

theorem ofFields_eq_accepted_iff {read : Except RowFault Reading} {r : Reading} :
    Row.ofFields read = .accepted r ↔ read = .ok r := by
  cases read <;> simp [Row.ofFields]

theorem ofFields_eq_rejected_iff {read : Except RowFault Reading} {fault : RowFault} :
    Row.ofFields read = .rejected fault ↔ read = .error fault := by
  cases read <;> simp [Row.ofFields]

theorem ofFields_ne_blank {read : Except RowFault Reading} : Row.ofFields read ≠ .blank := by
  cases read <;> simp [Row.ofFields]

theorem ofLine_eq_blank_iff : Row.ofLine l c line = .blank ↔ IsBlankText line := by
  refine ⟨fun h => ?_, ofLine_of_isBlankText⟩
  by_contra hblank
  rw [ofLine_of_not_isBlankText hblank] at h
  exact ofFields_ne_blank h

theorem ofLine_eq_accepted_iff {r : Reading} :
    Row.ofLine l c line = .accepted r ↔ HoldsRow l line r := by
  by_cases hblank : IsBlankText line
  · rw [ofLine_of_isBlankText hblank]
    exact ⟨fun h => (nomatch h), fun h => absurd hblank h.not_isBlankText⟩
  · rw [ofLine_of_not_isBlankText hblank, ofFields_eq_accepted_iff, readLine_eq_ok_iff]

theorem ofLine_eq_rejected_iff {fault : RowFault} :
    Row.ofLine l c line = .rejected fault ↔
      ¬ IsBlankText line ∧ FirstFailure (RowCheck.Fails l c line) RowCheck.inOrder fault := by
  by_cases hblank : IsBlankText line
  · rw [ofLine_of_isBlankText hblank]
    exact ⟨fun h => (nomatch h), fun h => absurd hblank h.1⟩
  · rw [ofLine_of_not_isBlankText hblank, ofFields_eq_rejected_iff,
      Staged.eq_error_iff (fun _ _ _ h h' => h.unique h') staged_readLine]
    exact ⟨fun h => ⟨hblank, h⟩, And.right⟩

end

/-- Every line below the header is what its grammar says: accepted with certain contents exactly if
it holds them, blank exactly if it is text of nothing but white space, and rejected with a fault
exactly if it is not blank and this is the fault of the first check that it fails. -/
theorem ofLine_follows_grammar (l : ColumnLayout) (c : Config) (line : List UInt8) :
    (∀ r, Row.ofLine l c line = .accepted r ↔ HoldsRow l line r)
    ∧ (Row.ofLine l c line = .blank ↔ IsBlankText line)
    ∧ ∀ fault, Row.ofLine l c line = .rejected fault ↔
        ¬ IsBlankText line ∧ FirstFailure (RowCheck.Fails l c line) RowCheck.inOrder fault :=
  ⟨fun _ => ofLine_eq_accepted_iff, ofLine_eq_blank_iff, fun _ => ofLine_eq_rejected_iff⟩

/-- A row with white space around some of its fields, and a comma at its end. -/
def paddedRow : String := " 12.5\t,noise,+0001 ,\u2003-00,\r\n"

/-- The row is accepted, whatever its other fields hold. Each check is failed by a line that also
fails those later ones that it has fields for. -/
theorem ofLine_follows_grammar_padded :
    HasFields paddedRow.toList
        ["12.5".toList, "noise".toList, "+0001".toList, "-00".toList, "".toList]
    ∧ HoldsRow ⟨0, 2, 3⟩ (Text.Utf8.encode paddedRow) ⟨12.5, .high, .low⟩
    ∧ Row.ofLine ⟨0, 2, 3⟩ {} (Text.Utf8.encode paddedRow) = .accepted ⟨12.5, .high, .low⟩
    ∧ IsBlankText (Text.Utf8.encode "\u3000\n")
    ∧ FirstFailure (RowCheck.Fails ⟨0, 2, 3⟩ {} [0x31, 0x2C, 0xFF]) RowCheck.inOrder .notText
    ∧ FirstFailure (RowCheck.Fails ⟨0, 2, 3⟩ {} (Text.Utf8.encode "inf,7")) RowCheck.inOrder
        (.tooShort 4 2)
    ∧ FirstFailure (RowCheck.Fails ⟨0, 2, 3⟩ {} (Text.Utf8.encode "inf,,2,x")) RowCheck.inOrder
        (.invalidTimestamp "inf")
    ∧ FirstFailure (RowCheck.Fails ⟨0, 2, 3⟩ {} (Text.Utf8.encode "1,,2,x")) RowCheck.inOrder
        (.invalidLevel "D0" "2")
    ∧ FirstFailure (RowCheck.Fails ⟨0, 2, 3⟩ {} (Text.Utf8.encode "1,,-0,-1")) RowCheck.inOrder
        (.invalidLevel "D1" "-1") := by
  have hfields : HasFields paddedRow.toList
      ["12.5".toList, "noise".toList, "+0001".toList, "-00".toList, "".toList] :=
    hasFields_iff.mpr (by decide +kernel)
  have hholds : HoldsRow ⟨0, 2, 3⟩ (Text.Utf8.encode paddedRow) ⟨12.5, .high, .low⟩ := by
    refine ⟨paddedRow, rfl, _, hfields, by decide, ⟨_, rfl, by decide +kernel⟩, by decide +kernel,
      ⟨_, rfl, ?_⟩, ⟨_, rfl, ?_⟩⟩
    · exact .plus 3 .high
    · exact .minus 1
  have hrejected (line : List UInt8) {fault : RowFault}
      (h : Row.ofLine ⟨0, 2, 3⟩ {} line = .rejected fault) :
      FirstFailure (RowCheck.Fails ⟨0, 2, 3⟩ {} line) RowCheck.inOrder fault :=
    (((ofLine_follows_grammar ⟨0, 2, 3⟩ {} line).2.2 fault).mp h).2
  refine ⟨hfields, hholds, ((ofLine_follows_grammar _ _ _).1 _).mpr hholds,
    (ofLine_follows_grammar ⟨0, 2, 3⟩ {} _).2.1.mp (by decide +kernel), ?_, ?_, ?_, ?_, ?_⟩
  · exact hrejected _ (by decide +kernel)
  · exact hrejected _ (by decide +kernel)
  · exact hrejected _ (by decide +kernel)
  · exact hrejected _ (by decide +kernel)
  · exact hrejected _ (by decide +kernel)

end TriggerLatency
