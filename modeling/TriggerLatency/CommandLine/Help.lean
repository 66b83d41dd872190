import TriggerLatency.CommandLine.Arguments
import TriggerLatency.Text.Split

/-!
# Help

What the program says about its command line: a summary, in which each switch has its
description beside it, and a help text, in which it has a paragraph. Both tell first
what the program is for and last what it reads.
-/

namespace TriggerLatency.CommandLine

/-- What is told about a switch. -/
structure HelpEntry where
  /-- The names, and what the switch takes. -/
  names : String
  about : String
  /-- The values that can be given, and what each stands for. -/
  values : List (String × String) := []
  /-- The value that is taken if none is given. -/
  standard : Option String := none

/-- What is told about each switch; `more` says where more is told. -/
def helpEntries (more : String) : List HelpEntry := [
  { names := "-i, --input <FILE>", about := "Input CSV file path (PPK2 recording)" },
  { names := "-m, --max-latency <MS>"
    about := "Maximum expected latency in ms [default: 300.0]" },
  { names := "-o, --output <FILE>", about := "Output file for the report (default: stdout)" },
  { names := "    --format <FORMAT>", about := "Report format"
    values := [("markdown", "Markdown summary and table (default)"),
      ("json", "JSON for machine parsing")]
    standard := some "markdown" },
  { names := "-c, --config <FILE>", about := "JSON config file with column names and threshold" },
  { names := "    --timestamp-column <NAME>", about := "Timestamp column header" },
  { names := "    --send-column <NAME>", about := "TX trigger column header" },
  { names := "    --receive-column <NAME>", about := "RX trigger column header" },
  { names := "    --count-leading-high"
    about := "Count a channel that is already high at the first sample as a trigger" },
  { names := "-v, --verbose", about := "Enable debug logging" },
  { names := "-h, --help", about := "Print help (" ++ more ++ ")" },
  { names := "-V, --version", about := "Print version" }]

/-- What stands above the switches. -/
def helpHead : List String := [
  "Analyze PPK2 CSV recordings for UDP latency measurement", "",
  "Usage: ppk-latency [OPTIONS] --input <FILE>", "", "Options:"]

/-- What stands below the switches. -/
def helpFoot : List String := ["",
  "The input CSV is expected to have columns:",
  "    Timestamp(ms), D0, D1, D2, D3, D4, D5, D6, D7", "",
  "Where:",
  "    - D0: TX trigger channel (0 -> 1 transition indicates packet transmission)",
  "    - D1: RX trigger channel (0 -> 1 transition indicates packet reception)", "",
  "Examples:",
  "    ppk-latency -i udp_softap.csv",
  "    ppk-latency -i my_recording.csv -m 50.0 -o results.md"]

/-- Blanks. -/
def blanks (n : Nat) : String := String.ofList (List.replicate n ' ')

/-- Appends a word to the last of some lines if it fits into the width there, and as a line of its
own otherwise. The last line comes first. -/
def addWord (width : Nat) (lines : List String) (word : String) : List String :=
  match lines with
  | [] => [word]
  | line :: above =>
    if line.length + 1 + word.length ≤ width then (line ++ " " ++ word) :: above
    else word :: line :: above

/-- A text in lines of some width, broken at blanks. -/
def fill (width : Nat) (text : String) : List String :=
  let words := (Text.splitOn ' ' text.toList).map String.ofList
  (words.foldl (addWord width) []).reverse

/-- The value that is taken if none is given, in brackets. -/
def HelpEntry.standardNote (e : HelpEntry) : List String :=
  e.standard.toList.map fun v => "[default: " ++ v ++ "]"

/-- The width of the summary. -/
def summaryWidth : Nat := 100

/-- The column in which descriptions begin in the summary. -/
def summaryColumn : Nat := 33

/-- The lines of the summary for a switch. -/
def HelpEntry.summaryLines (e : HelpEntry) : List String :=
  let values := if e.values = [] then []
    else ["[possible values: " ++ ", ".intercalate (e.values.map (·.1)) ++ "]"]
  let about := " ".intercalate ([e.about] ++ e.standardNote ++ values)
  let names := "  " ++ e.names
  (fill (summaryWidth - summaryColumn) about).mapIdx fun i line =>
    if i = 0 then names ++ blanks (summaryColumn - names.length) ++ line
    else blanks summaryColumn ++ line

/-- The column in which descriptions begin in the help text. -/
def helpColumn : Nat := 10

/-- The values that can be given, each with what it stands for, in the help text. -/
def HelpEntry.valueLines (e : HelpEntry) : List String :=
  let width := e.values.foldl (fun w v => max w v.1.length) 0
  if e.values = [] then []
  else "" :: (blanks helpColumn ++ "Possible values:") :: e.values.map fun v =>
    blanks helpColumn ++ "- " ++ v.1 ++ ": " ++ blanks (width - v.1.length) ++ v.2

/-- The lines of the help text for a switch. -/
def HelpEntry.helpLines (e : HelpEntry) : List String :=
  ["  " ++ e.names, blanks helpColumn ++ e.about] ++ e.valueLines
    ++ e.standardNote.flatMap fun note => [blanks helpColumn, blanks helpColumn ++ note]

/-- A text from its lines. -/
def ofLines (lines : List String) : String := String.join (lines.map (· ++ "\n"))

/-- The summary. -/
def summary : String :=
  ofLines (helpHead
    ++ (helpEntries "see more with '--help'").flatMap HelpEntry.summaryLines ++ helpFoot)

/-- The help text. -/
def help : String :=
  ofLines (helpHead
    ++ [""].intercalate ((helpEntries "see a summary with '-h'").map HelpEntry.helpLines)
    ++ helpFoot)

end TriggerLatency.CommandLine
