import TriggerLatency.FileTree.Access
import TriggerLatency.Text.Quoted
import TriggerLatency.Text.Split
import TriggerLatency.Trigger.Edge

/-!
# Recordings and where they come from

A recording is one list of samples for each channel, with a count of the rows that
were taken and of the rows that were skipped on the way. Reading one can fail in
four ways; a bad row is not one of them.

Its bytes come from a source, which hands them out and, behind the last one, either ends or
fails. A line is complete when its line feed has been handed out; at the end of a source, what
is left behind the last line feed is a line too, but a source that fails loses it
(`next_line`). Opening a directory succeeds and gives a source that fails at once.
-/

namespace TriggerLatency

/-- The samples of both channels. -/
structure Recording where
  send : List Sample
  receive : List Sample
  /-- Data rows accepted. -/
  rowsParsed : Nat
  /-- Data rows skipped as malformed. -/
  rowsSkipped : Nat
  deriving DecidableEq

namespace Recording

/-- A recording made of samples that are already separated: `Recording::from_samples`. -/
def ofSamples (send receive : List Sample) : Recording :=
  ⟨send, receive, max send.length receive.length, 0⟩

/-- Whether no row was accepted. -/
def isEmpty (r : Recording) : Bool := r.rowsParsed = 0

end Recording

/-- Why there is no recording. -/
inductive RecordingError
  /-- The file could not be opened. -/
  | access (path : String) (cause : FileFault)
  /-- The data could not be read to their end. -/
  | interrupted (cause : String)
  | missingHeader
  | missingColumn (column : String) (found : List String)
  deriving DecidableEq

/-- The cause of a recording error, where it has one. -/
def RecordingError.cause? : RecordingError → Option String
  | .access _ cause => some cause.message
  | .interrupted cause => some cause
  | _ => none

/-- A recording error in words. -/
def RecordingError.message : RecordingError → String
  | .access path cause => "Failed to read recording " ++ path ++ ": " ++ cause.message
  | .interrupted cause => "Failed to read recording data: " ++ cause
  | .missingHeader => "Recording has no column headers"
  | .missingColumn column found =>
    "Recording must contain a '" ++ column ++ "' column (found: "
      ++ Text.Quoted.quoteList found ++ ")"

/-! ## Sources -/

/-- Bytes, and what comes behind them. -/
structure ByteSource where
  bytes : List UInt8
  /-- Why the source fails behind its bytes; `none` if it just ends. -/
  failure : Option String
  deriving DecidableEq

namespace ByteSource

/-- The byte that ends a line. -/
def lineFeed : UInt8 := 0x0A

/-- A source that ends behind its bytes. -/
def ofBytes (bytes : List UInt8) : ByteSource := ⟨bytes, none⟩

/-- A source of `bytes` that fails once it has handed out `limit` of them. It fails even if they
are all there are, but not if there are fewer. -/
def failingAfter (bytes : List UInt8) (limit : Nat) (cause : String) : ByteSource :=
  if limit ≤ bytes.length then ⟨bytes.take limit, some cause⟩ else ofBytes bytes

/-- What an open file or directory hands out. -/
def ofNode : Node → ByteSource
  | .file bytes => ofBytes bytes
  | .directory => ⟨[], some FileFault.isADirectory.message⟩

/-- Whether a line has its line feed. -/
def isTerminated (line : List UInt8) : Bool := line.getLast? = some lineFeed

/-- The lines that `next_line` gets one by one, each with its line feed if it has one. -/
def lines (s : ByteSource) : List (List UInt8) :=
  let all := Text.splitAfter lineFeed s.bytes
  if s.failure.isSome then all.filter isTerminated else all

end ByteSource

end TriggerLatency
