import TriggerLatency.Analysis.Reader
import TriggerLatency.CommandLine.Run
import TriggerLatency.CommandLine.Scan
import TriggerLatency.Main
import TriggerLatency.Proofs.Decimal.HalfEven
import TriggerLatency.Proofs.Double.Grain
import TriggerLatency.Proofs.Double.Rounding
import TriggerLatency.Proofs.Double.Quotient
import TriggerLatency.Proofs.Double.Scientific
import TriggerLatency.Proofs.Double.Sum
import TriggerLatency.Proofs.Decimal.Shortest
import TriggerLatency.Proofs.Decimal.Interval
import TriggerLatency.Proofs.Decimal.Fewest
import TriggerLatency.Proofs.Extremes
import TriggerLatency.Proofs.Mean
import TriggerLatency.Proofs.Matching.Nearest
import TriggerLatency.Proofs.Matching.Serves
import TriggerLatency.Proofs.Matching.Cardinality
import TriggerLatency.Proofs.Matching.Greedy
import TriggerLatency.Proofs.Matching.Outcome
import TriggerLatency.Proofs.Matching.Insertion
import TriggerLatency.Proofs.Matching.Threshold
import TriggerLatency.Proofs.Matching.Lexicographic
import TriggerLatency.Proofs.Matching.Bursts
import TriggerLatency.Proofs.Matching.ArrivalOrder
import TriggerLatency.Proofs.Matching.Maximality
import TriggerLatency.Proofs.Matching.Causality
import TriggerLatency.Proofs.Matching.Accounting
import TriggerLatency.Proofs.Matching.Refusal
import TriggerLatency.Proofs.Trigger.RisingEdge
import TriggerLatency.Proofs.Trigger.Feeding
import TriggerLatency.Proofs.Trigger.Demand
import TriggerLatency.Proofs.Recording.Accepted
import TriggerLatency.Proofs.Recording.Concatenation
import TriggerLatency.Proofs.Analysis.Soundness
import TriggerLatency.Proofs.Analysis.RoundTrip
import TriggerLatency.Proofs.Json.Digits
import TriggerLatency.Proofs.Json.Numeral
import TriggerLatency.Proofs.Json.Number
import TriggerLatency.Proofs.Json.Quoted
import TriggerLatency.Proofs.Json.Grammar
import TriggerLatency.Proofs.Json.Skip
import TriggerLatency.Proofs.Json.Unambiguous
import TriggerLatency.Proofs.Json.Fields
import TriggerLatency.Proofs.Json.Written
import TriggerLatency.Proofs.Json.Record
import TriggerLatency.Proofs.Json.Reread
import TriggerLatency.Proofs.Json.Scaling
import TriggerLatency.Proofs.Report.RoundTrip
import TriggerLatency.Proofs.FileTree.Write
import TriggerLatency.Proofs.FileTree.Names
import TriggerLatency.Proofs.FileTree.Directories
import TriggerLatency.Proofs.FileTree.Saving
import TriggerLatency.Proofs.Slots
import TriggerLatency.Proofs.CommandLine.Stages
import TriggerLatency.Proofs.CommandLine.Scan
import TriggerLatency.Proofs.CommandLine.Help
import TriggerLatency.Proofs.Text.Utf8
import TriggerLatency.Proofs.Config.Saving
import TriggerLatency.Proofs.Config.RoundTrip
import TriggerLatency.Proofs.Config.Given
import TriggerLatency.Proofs.Trigger.HighRuns
import TriggerLatency.Proofs.Analysis.IdleRows
import TriggerLatency.Proofs.Text.Trim
import TriggerLatency.Proofs.Text.Pieces
import TriggerLatency.Proofs.Recording.Grammar
import TriggerLatency.Proofs.Recording.Accounting
import TriggerLatency.Proofs.Text.Cutting
import TriggerLatency.Proofs.Recording.Lines
import TriggerLatency.Proofs.Recording.Header
import TriggerLatency.Proofs.Recording.LineEndings
import TriggerLatency.Proofs.Recording.ByteOrderMark
import TriggerLatency.Proofs.Recording.Interruption
import TriggerLatency.Proofs.Recording.Table
import TriggerLatency.Proofs.Recording.Columns
import TriggerLatency.Proofs.Recording.Diagnostics
import TriggerLatency.Proofs.Attainment
import TriggerLatency.Proofs.Decimal.Places
import TriggerLatency.Proofs.Decimal.Reading
import TriggerLatency.Proofs.Decimal.Signed
import TriggerLatency.Proofs.Report.Table
import TriggerLatency.Proofs.Report.Markdown
import TriggerLatency.Proofs.Report.Lossless
import TriggerLatency.Proofs.Report.PrintedExtremes
