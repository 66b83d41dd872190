import TriggerLatency.Log

/-!
# Reading a recording

A recording is read line by line (`parse_recording`): blank lines, the header, then rows.
Rejected rows are counted and warned of, with the number of their line among all lines of the
source; they never end the reading. What does end it is a missing header, a missing
column, or a source that fails.

The log comes in the order of the lines. Every so many accepted rows it tells how
many there are.
-/

namespace TriggerLatency

/-- How many accepted rows lie between two progress messages. -/
def progressInterval : Nat := 100000

namespace Row

/-- What is logged on a row, given its line number and the number of rows accepted before it; and
the number accepted after it. -/
def note (accepted : Nat) (numbered : Row × Nat) : List LogEvent × Nat :=
  match numbered with
  | (.blank, _) => ([], accepted)
  | (.rejected fault, line) => ([.rowSkipped line fault], accepted)
  | (.accepted _, _) =>
    (if (accepted + 1) % progressInterval = 0 then [.rowsProcessed (accepted + 1)] else [],
      accepted + 1)

/-- What is logged on rows that stand on consecutive lines from line `first` on. -/
def notes (first : Nat) (rows : List Row) : List LogEvent :=
  (Transducer.run note 0 (rows.zipIdx first)).1.flatten

end Row

namespace Recording

/-- The recording that rows make. -/
def ofRows (rows : List Row) : Recording :=
  let readings := rows.filterMap Row.reading?
  { send := readings.map Reading.sendSample
    receive := readings.map Reading.receiveSample
    rowsParsed := readings.length
    rowsSkipped := (rows.filterMap Row.fault?).length }

/-- Reads a recording from a source: `parse_recording`. -/
def parse (c : Config) (source : ByteSource) : Logged (Except RecordingError Recording) :=
  let lines := source.lines
  match lines.dropWhile isBlankLine with
  | [] =>
    match source.failure with
    | some cause => ⟨.error (.interrupted cause), []⟩
    | none => ⟨.error .missingHeader, []⟩
  | header :: below =>
    let names := columnNames header
    match ColumnLayout.ofNames c names with
    | .error e => ⟨.error e, []⟩
    | .ok layout =>
      let rows := below.map (Row.ofLine layout c)
      let log := .columnsFound names :: Row.notes (lines.length - below.length + 1) rows
      match source.failure with
      | some cause => ⟨.error (.interrupted cause), log⟩
      | none =>
        let r := ofRows rows
        ⟨.ok r, log ++ [.recordingRead r.rowsParsed r.rowsSkipped]⟩

/-- Reads a recording from a file: `read_recording`. -/
def load (c : Config) (t : FileTree) (path : String) : Logged (Except RecordingError Recording) :=
  match t.openPath path with
  | .error f => ⟨.error (.access path f), []⟩
  | .ok node =>
    let r := parse c (ByteSource.ofNode node)
    ⟨r.value, .readingFile path :: r.log⟩

end Recording

end TriggerLatency
