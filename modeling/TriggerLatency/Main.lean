import TriggerLatency.CommandLine.Help
import TriggerLatency.CommandLine.Run
import TriggerLatency.CommandLine.Scan

/-!
# The program

Reads what the command line names from the disk into a tree of files, runs the
invocation on the tree, and puts the result back: the log on standard error, the
report on standard output or in a file. Everything is decided by `Invocation.run`.
-/

namespace TriggerLatency.CommandLine

/-- A path as the disk knows it. -/
def diskName : Path → String
  | "/" :: names => "/" ++ "/".intercalate names
  | names => "/".intercalate names

/-- Adds what the disk holds at a path, if it holds anything. -/
def probe (t : FileTree) (path : Path) : IO FileTree := do
  let name := diskName path
  let isDirectory ← try (← IO.FS.realPath name).isDir catch _ => pure false
  if isDirectory then return t.put path .directory
  try
    let bytes ← IO.FS.readBinFile name
    return t.put path (.file bytes.toList)
  catch _ => return t

/-- Adds what the disk holds at a written path and on the way to it. -/
def survey (t : FileTree) (text : String) : IO FileTree :=
  ((Route.ofString text).places.filter fun p => !Path.isOutside p).foldlM probe t

/-- Writes the output file of a run to the disk and gives the exit code. -/
def store (t : FileTree) (text : String) : IO UInt32 := do
  match t.read text with
  | .error _ => return 0
  | .ok bytes =>
    try
      IO.FS.writeBinFile text (ByteArray.mk bytes.toArray)
      return 0
    catch e =>
      IO.eprintln ("Error: Error writing output file " ++ text ++ ": " ++ toString e)
      return 1

/-- Runs an invocation on the disk and gives the exit code. -/
def execute (i : Invocation) : IO UInt32 := do
  let named := i.configFile.toList ++ [i.input] ++ i.output.toList
  let r := i.run (← named.foldlM survey .empty)
  for e in r.log do
    if e.record.severity.isShown i.verbose then IO.eprintln e.record.line
  match r.failure with
  | some f =>
    IO.eprint f.text
    return 1
  | none =>
    IO.print r.stdout
    match i.output with
    | some path => store r.tree path
    | none => return 0

end TriggerLatency.CommandLine

/-- Reads the command line and runs it. -/
def main (args : List String) : IO UInt32 :=
  match TriggerLatency.CommandLine.parse args with
  | .ok i => TriggerLatency.CommandLine.execute i
  | .error .help => do
    IO.print TriggerLatency.CommandLine.help
    return 0
  | .error .summary => do
    IO.print TriggerLatency.CommandLine.summary
    return 0
  | .error .version => do
    IO.print TriggerLatency.CommandLine.versionLine
    return 0
  | .error (.usage e) => do
    IO.eprintln ("error: " ++ e.message)
    return 2
