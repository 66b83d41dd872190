import TriggerLatency.Config.Basic
import TriggerLatency.Report.Basic

/-!
# The command line's vocabulary

Switches are options, which take a value, and flags, which do not. Every switch has
a long name and some have a short one; names are never abbreviated and case counts.
An `Invocation` is what a valid command line asks for, the parsed `Cli`.
-/

namespace TriggerLatency

/-- A switch that takes a value. -/
inductive OptionKey
  | input
  | maxLatency
  | output
  | format
  | config
  | timestampColumn
  | sendColumn
  | receiveColumn
  deriving DecidableEq

/-- A switch that takes none. -/
inductive Flag
  | countLeadingHigh
  | verbose
  | help
  | summary
  | version
  deriving DecidableEq

/-- A switch. -/
inductive Switch
  | option (key : OptionKey)
  | flag (flag : Flag)
  deriving DecidableEq

namespace Switch

/-- The long names. -/
def longNames : List (String × Switch) :=
  [("input", .option .input), ("max-latency", .option .maxLatency), ("output", .option .output),
    ("format", .option .format), ("config", .option .config),
    ("timestamp-column", .option .timestampColumn), ("send-column", .option .sendColumn),
    ("receive-column", .option .receiveColumn), ("count-leading-high", .flag .countLeadingHigh),
    ("verbose", .flag .verbose), ("help", .flag .help), ("version", .flag .version)]

/-- The short names. -/
def shortNames : List (Char × Switch) :=
  [('i', .option .input), ('m', .option .maxLatency), ('o', .option .output),
    ('c', .option .config), ('v', .flag .verbose), ('h', .flag .summary), ('V', .flag .version)]

/-- The long name of a switch. -/
def longName (s : Switch) : String :=
  ((longNames.find? (·.2 = s)).map (·.1)).getD ""

end Switch

/-- What a valid command line asks for: a `Cli`. -/
structure Invocation where
  input : String
  maxLatencyMs : Option Float
  output : Option String
  format : ReportFormat
  configFile : Option String
  timestampColumn : Option String
  sendColumn : Option String
  receiveColumn : Option String
  countLeadingHigh : Bool
  verbose : Bool
  deriving DecidableEq

/-- Settings with those of the command line put in place of their own: `Cli::apply_overrides`. -/
def Invocation.override (i : Invocation) (c : Config) : Config where
  maxLatencyMs := i.maxLatencyMs.getD c.maxLatencyMs
  timestampColumn := i.timestampColumn.getD c.timestampColumn
  sendColumn := i.sendColumn.getD c.sendColumn
  receiveColumn := i.receiveColumn.getD c.receiveColumn
  edgePolicy := if i.countLeadingHigh then .assumeLow else c.edgePolicy

/-- What is wrong with a command line. -/
inductive UsageError
  | missingInput
  | unknownArgument (argument : String)
  | missingValue (key : OptionKey)
  | emptyPath (key : OptionKey)
  | unknownFormat (value : String)
  | malformedNumber (value : String)
  | repeated (switch : Switch)
  | unwantedValue (flag : Flag)
  deriving DecidableEq

/-- A usage error in words. -/
def UsageError.message : UsageError → String
  | .missingInput => "an input file is required: --input FILE"
  | .unknownArgument argument => "unexpected argument '" ++ argument ++ "'"
  | .missingValue key => "a value is required for --" ++ (Switch.option key).longName
  | .emptyPath key => "the path for --" ++ (Switch.option key).longName ++ " must not be empty"
  | .unknownFormat value => "'" ++ value ++ "' is not a format: markdown or json"
  | .malformedNumber value => "'" ++ value ++ "' is not a number"
  | .repeated switch => "--" ++ switch.longName ++ " cannot be used more than once"
  | .unwantedValue flag => "--" ++ (Switch.flag flag).longName ++ " takes no value"

/-- Why a command line asks for no analysis. -/
inductive Refusal
  | help
  | summary
  | version
  | usage (error : UsageError)
  deriving DecidableEq

namespace CommandLine

/-- The version of the program. -/
def version : String := "0.1.0"

/-- What the program says when it is asked for its version. -/
def versionLine : String := "ppk-latency " ++ version ++ "\n"

end CommandLine

end TriggerLatency
