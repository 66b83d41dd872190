import TriggerLatency.Analysis.Basic
import TriggerLatency.CommandLine.Arguments
import TriggerLatency.Config.Store
import TriggerLatency.Recording.Reader
import TriggerLatency.Report.Markdown

/-!
# A run

A run loads the settings, checks them, reads the recording, analyses it and delivers
the report. The stages up to the report only look at the files; the report is
delivered in one step, to standard output or to one file. So a run that fails leaves
nothing behind.

Why a run ends without a report is told in a headline, followed by its chain of causes. Causes
are numbered when there are several, and all lines of a cause are indented alike.
-/

namespace TriggerLatency

/-! ## Failures -/

/-- Why a run ends without a report. -/
inductive Failure
  | config (error : ConfigError)
  | invalidConfig (error : ConfigError)
  | recording (error : RecordingError)
  | analysis (error : AnalysisError)
  | output (path : String) (cause : FileFault)
  deriving DecidableEq

namespace Failure

/-- What went wrong, in one sentence. -/
def headline : Failure → String
  | .config e => e.message
  | .invalidConfig _ => "Invalid configuration"
  | .recording _ => "Error reading CSV file"
  | .analysis e => e.message
  | .output path _ => "Error writing output file " ++ path

/-- What caused it, and what caused that. -/
def causes : Failure → List String
  | .config e => e.cause?.toList
  | .invalidConfig e => e.message :: e.cause?.toList
  | .recording e => e.message :: e.cause?.toList
  | .analysis _ => []
  | .output _ cause => [cause.message]

/-- A failure and its causes on one line. -/
def oneLine (f : Failure) : String := ": ".intercalate (f.headline :: f.causes)

/-- A cause, with `mark` in front of its first line and `margin` in front of the others. -/
def indented (mark margin cause : String) : String :=
  mark ++ ("\n" ++ margin).intercalate ((Text.splitOn '\n' cause.toList).map String.ofList)

/-- The number of a cause, in five columns. -/
def number (n : Nat) : String :=
  let digits := Nat.toDigits 10 n
  String.ofList (List.replicate (5 - digits.length) ' ' ++ digits) ++ ": "

/-- The lines below the headline. -/
def causeLines : List String → List String
  | [] => []
  | [cause] => ["", "Caused by:", indented "    " "    " cause]
  | causes =>
    "" :: "Caused by:" :: causes.zipIdx.map fun c => indented (number c.2) "       " c.1

/-- A failure as it is told to the user. -/
def text (f : Failure) : String :=
  String.join ((("Error: " ++ f.headline) :: causeLines f.causes).map (· ++ "\n"))

end Failure

/-! ## Stages -/

namespace Invocation

/-- The settings of a run: those of the config file, or the default ones, with those of the command
line in place of their own. -/
def settings (i : Invocation) (t : FileTree) : Logged (Except Failure Config) :=
  let base := match i.configFile with
    | some path => (Config.load t path).mapError Failure.config
    | none => ⟨.ok {}, []⟩
  ⟨base.value.map i.override, base.log⟩

/-- The analyzer of a run. -/
def analyzer (c : Config) : Logged (Except Failure Analyzer) :=
  match Analyzer.ofConfig c with
  | .error e => ⟨.error (.invalidConfig e), []⟩
  | .ok a => ⟨.ok a, [.analysisStarted CommandLine.version c.maxLatencyMs]⟩

/-- The analysis of a run. -/
def analysis (a : Analyzer) (r : Recording) : Logged (Except Failure Analysis) :=
  let w := a.analyze r .warning
  ⟨w.value.mapError Failure.analysis, w.log⟩

/-- The text of the report that a run delivers. -/
def reportText (i : Invocation) (t : FileTree) : Logged (Except Failure String) :=
  (i.settings t).onSuccess fun c =>
  (analyzer c).onSuccess fun a =>
  ((Recording.load c t i.input).mapError Failure.recording).onSuccess fun r =>
  (analysis a r).onSuccess fun found =>
  ⟨.ok (found.report.render i.format), []⟩

end Invocation

/-- What a run leaves behind. -/
structure RunResult where
  stdout : String
  tree : FileTree
  failure : Option Failure
  log : List LogEvent

/-- Delivers a report. -/
def Invocation.deliver (i : Invocation) (t : FileTree) (log : List LogEvent) (text : String) :
    RunResult :=
  match i.output with
  | none => ⟨i.format.printed text, t, none, log⟩
  | some path =>
    let saved := saveReport t path text
    match saved.value with
    | .error cause => ⟨"", t, some (.output path cause), log ++ saved.log⟩
    | .ok t' => ⟨"", t', none, log ++ saved.log⟩

/-- Runs an invocation on a tree of files: `run`, with all that it reads and leaves behind. -/
def Invocation.run (i : Invocation) (t : FileTree) : RunResult :=
  let text := i.reportText t
  match text.value with
  | .error failure => ⟨"", t, some failure, text.log⟩
  | .ok text' => i.deliver t text.log text'

end TriggerLatency
