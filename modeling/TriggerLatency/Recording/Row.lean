import TriggerLatency.Config.Basic
import TriggerLatency.Decimal.Reader
import TriggerLatency.Recording.Basic
import TriggerLatency.Text.Utf8

/-!
# The header and the rows

The header is the first line that is not all white space. Its names tell where the
three columns are; of a repeated name the first position counts (`ColumnLayout::from_header`).
Bytes that are not UTF-8 are shown as U+FFFD, and byte-order marks at the very start are
dropped.

A row is a line of fields between commas. Three of its fields matter: a finite
timestamp and the levels of the two channels. A row that lacks them, or is not
UTF-8, is rejected with the first fault found, in the order encoding, number of
fields, timestamp, send level, receive level (`ColumnLayout::parse_row`, `parse_level`). A line
of white space is no row.
-/

namespace TriggerLatency

/-- The positions of the columns that matter. -/
structure ColumnLayout where
  timestamp : Nat
  send : Nat
  receive : Nat
  deriving DecidableEq

/-- The fields of a line, without the white space around them. -/
def fields (line : List Char) : List (List Char) := (Text.splitOn ',' line).map Text.trim

/-- Why a row is skipped: a `RowError`. -/
inductive RowFault
  | notText
  | tooShort (expected got : Nat)
  | invalidTimestamp (field : String)
  | invalidLevel (column field : String)
  deriving DecidableEq

/-- A row fault in words. -/
def RowFault.message : RowFault → String
  | .notText => "row is not valid UTF-8"
  | .tooShort expected got =>
    "expected at least " ++ toString expected ++ " fields, got " ++ toString got
  | .invalidTimestamp field => "invalid timestamp '" ++ field ++ "'"
  | .invalidLevel column field => "invalid level '" ++ field ++ "' in column '" ++ column ++ "'"

/-- The contents of an accepted row. -/
structure Reading where
  timestamp : Float
  send : Level
  receive : Level
  deriving DecidableEq

/-- The send sample of a reading. -/
def Reading.sendSample (r : Reading) : Sample := ⟨r.timestamp, r.send⟩

/-- The receive sample of a reading. -/
def Reading.receiveSample (r : Reading) : Sample := ⟨r.timestamp, r.receive⟩

/-- The finite float that a field writes. -/
def timestamp? (field : List Char) : Option Float :=
  (Decimal.readFloat? field).filter Float.isFinite

/-- The level that a field writes: an integer, and that zero or one. -/
def level? (field : List Char) : Option Level :=
  (Decimal.readInt? field).bind Level.ofInt?

/-- Reads a timestamp field. -/
def readTimestamp (field : List Char) : Except RowFault Float :=
  match timestamp? field with
  | some t => .ok t
  | none => .error (.invalidTimestamp (String.ofList field))

/-- Reads a level field of a named column: `parse_level`. -/
def readLevel (column : String) (field : List Char) : Except RowFault Level :=
  match level? field with
  | some l => .ok l
  | none => .error (.invalidLevel column (String.ofList field))

namespace ColumnLayout

/-- How many fields a row needs: `ColumnLayout::min_fields`. -/
def width (l : ColumnLayout) : Nat := max (max l.timestamp l.send) l.receive + 1

/-- Reads the fields of a row: `ColumnLayout::parse_row`. -/
def readFields (l : ColumnLayout) (c : Config) (row : List (List Char)) :
    Except RowFault Reading := do
  if row.length < l.width then .error (.tooShort l.width row.length)
  else
    let timestamp ← readTimestamp (row.getD l.timestamp [])
    let send ← readLevel c.sendColumn (row.getD l.send [])
    let receive ← readLevel c.receiveColumn (row.getD l.receive [])
    .ok ⟨timestamp, send, receive⟩

end ColumnLayout

/-- What a line below the header is. -/
inductive Row
  | blank
  | accepted (reading : Reading)
  | rejected (fault : RowFault)
  deriving DecidableEq

namespace Row

/-- The row that the fields of a line make. -/
def ofFields (read : Except RowFault Reading) : Row :=
  match read with
  | .ok r => .accepted r
  | .error f => .rejected f

/-- Reads a line. -/
def ofLine (l : ColumnLayout) (c : Config) (line : List UInt8) : Row :=
  match Text.Utf8.decode? line with
  | none => .rejected .notText
  | some text =>
    match Text.trim text with
    | [] => .blank
    | row => ofFields (l.readFields c (fields row))

/-- The reading of an accepted row. -/
def reading? : Row → Option Reading
  | .accepted r => some r
  | _ => none

/-- The fault of a rejected row. -/
def fault? : Row → Option RowFault
  | .rejected f => some f
  | _ => none

end Row

/-! ## The header -/

/-- The byte-order mark as a character. -/
def byteOrderMark : Char := '\uFEFF'

/-- Whether a line above the header is passed over. -/
def isBlankLine (line : List UInt8) : Bool := (Text.trim (Text.Utf8.decodeLossy line)).isEmpty

/-- The column names of a header line. -/
def columnNames (line : List UInt8) : List String :=
  let text := Text.trimEnd (Text.Utf8.decodeLossy line)
  (fields (text.dropWhile (· = byteOrderMark))).map String.ofList

namespace ColumnLayout

/-- The position of a column. -/
def locate (names : List String) (column : String) : Except RecordingError Nat :=
  match names.idxOf? column with
  | some i => .ok i
  | none => .error (.missingColumn column names)

/-- The positions of the three columns of interest, looked for in the order timestamp, send,
receive: `ColumnLayout::from_header`. -/
def ofNames (c : Config) (names : List String) : Except RecordingError ColumnLayout := do
  let timestamp ← locate names c.timestampColumn
  let send ← locate names c.sendColumn
  let receive ← locate names c.receiveColumn
  .ok ⟨timestamp, send, receive⟩

end ColumnLayout

end TriggerLatency
