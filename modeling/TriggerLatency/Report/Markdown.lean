import TriggerLatency.Decimal.Layout
import TriggerLatency.Report.Basic

/-!
# Markdown reports

A report as a markdown document of lines: the summary as a list, a table with one
row for each measurement and three closing rows for the statistics, and, if there
are any, a second table of the sends without a partner. Statistics have three
decimal places in the list, and everything in a table has two. A report without
statistics is a single sentence.
-/

namespace TriggerLatency.Report

/-- What is written when there is nothing to summarise. -/
def noData : String := "No measurements available."

/-- The head of the measurement table. -/
def tableHeader : String :=
  "| Packet Number | TX Trigger Time (ms) | RX Trigger Time (ms) | Latency (ms) |"

/-- The rule under the head and under the last measurement. -/
def tableRule : String :=
  "|---------------|---------------------|---------------------|-------------|"

/-- A table row of plain cells. -/
def row (cells : List String) : String :=
  "|" ++ String.join (cells.map fun c => " " ++ c ++ " |")

/-- The row of a measurement. -/
def measurementRow (m : Measurement) : String :=
  row [toString m.index, Decimal.fixed 2 m.sendTime, Decimal.fixed 2 m.receiveTime,
    Decimal.fixed 2 m.latency]

/-- The row of a statistic, in bold: `summary_row`. -/
def summaryRow (label : String) (value : Float) : String :=
  row ["**" ++ label ++ "**", "-", "-", "**" ++ Decimal.fixed 2 value ++ "**"]

/-- The row of an unmatched send. -/
def unmatchedRow (u : UnmatchedSend) : String :=
  row [toString u.index, Decimal.fixed 2 u.sendTime]

/-- The list of statistics, with the headings around it. -/
def summaryLines (s : Summary) : List String :=
  ["## UDP Latency Analysis Results", "", "**Summary Statistics:**",
    "- Total Packets: " ++ toString s.count,
    "- Average Latency: " ++ Decimal.fixed 3 s.mean ++ " ms",
    "- Minimum Latency: " ++ Decimal.fixed 3 s.min ++ " ms",
    "- Maximum Latency: " ++ Decimal.fixed 3 s.max ++ " ms", ""]

/-- The measurement table. -/
def tableLines (s : Summary) (measurements : List Measurement) : List String :=
  [tableHeader, tableRule] ++ measurements.map measurementRow
    ++ [tableRule, summaryRow "Average" s.mean, summaryRow "Minimum" s.min,
      summaryRow "Maximum" s.max]

/-- The table of unmatched sends, if there are any. -/
def unmatchedLines (unmatched : List UnmatchedSend) : List String :=
  if unmatched = [] then []
  else ["", "### Unmatched TX Triggers", "", "| Packet Number | TX Trigger Time (ms) |",
    "|---------------|---------------------|"] ++ unmatched.map unmatchedRow

/-- A report as a markdown document: `markdown::render`. -/
def markdown (r : Report) : String :=
  match r.summary with
  | none => noData
  | some s =>
    String.join ((summaryLines s ++ tableLines s r.measurements ++ unmatchedLines r.unmatched).map
      (· ++ "\n"))

/-- A report in the given form: `LatencyReport::render`. -/
def render (r : Report) : ReportFormat → String
  | .markdown => r.markdown
  | .json => r.toJson.pretty

end TriggerLatency.Report
