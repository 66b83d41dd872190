import TriggerLatency.CommandLine.Arguments
import TriggerLatency.Decimal.Reader
import TriggerLatency.Report.Reader

/-!
# Reading a command line

Arguments are read from left to right and the first problem decides. An option whose
value is still to come, or has come as an argument of its own, is *pending*: it is
settled, and its value looked at, when the next switch is reached or the arguments
end. So an unknown argument behind a pending option is reported before anything that
is wrong with the option.

A value may be attached to its option, behind an equals sign or, for a short name,
directly. Several short names may stand in one cluster. A lone `-` is a value; behind
`--` nothing may follow.
-/

namespace TriggerLatency.CommandLine

/-- The switches accepted so far. -/
structure Draft where
  input : Option String := none
  maxLatencyMs : Option Float := none
  output : Option String := none
  format : Option ReportFormat := none
  configFile : Option String := none
  timestampColumn : Option String := none
  sendColumn : Option String := none
  receiveColumn : Option String := none
  countLeadingHigh : Bool := false
  verbose : Bool := false

/-- Refuses a command line. -/
def refuse {α : Type} (e : UsageError) : Except Refusal α := .error (.usage e)

/-- A switch may be given once. -/
def once (switch : Switch) (given : Bool) : Except Refusal Unit :=
  if given then refuse (.repeated switch) else .ok ()

/-- A path value. -/
def pathValue (key : OptionKey) (value : String) : Except Refusal String :=
  if value = "" then refuse (.emptyPath key) else .ok value

/-- A number value. -/
def numberValue (value : String) : Except Refusal Float :=
  match Decimal.readFloat? value.toList with
  | some x => .ok x
  | none => refuse (.malformedNumber value)

/-- A format value. -/
def formatValue (value : String) : Except Refusal ReportFormat :=
  match ReportFormat.names.lookup value with
  | some f => .ok f
  | none => refuse (.unknownFormat value)

namespace Draft

/-- Whether an option has been given. -/
def has (d : Draft) : OptionKey → Bool
  | .input => d.input.isSome
  | .maxLatency => d.maxLatencyMs.isSome
  | .output => d.output.isSome
  | .format => d.format.isSome
  | .config => d.configFile.isSome
  | .timestampColumn => d.timestampColumn.isSome
  | .sendColumn => d.sendColumn.isSome
  | .receiveColumn => d.receiveColumn.isSome

/-- Gives an option its value. -/
def set (d : Draft) (key : OptionKey) (value : String) : Except Refusal Draft := do
  match key with
  | .input => return { d with input := some (← pathValue .input value) }
  | .maxLatency => return { d with maxLatencyMs := some (← numberValue value) }
  | .output => return { d with output := some (← pathValue .output value) }
  | .format => return { d with format := some (← formatValue value) }
  | .config => return { d with configFile := some (← pathValue .config value) }
  | .timestampColumn => return { d with timestampColumn := some value }
  | .sendColumn => return { d with sendColumn := some value }
  | .receiveColumn => return { d with receiveColumn := some value }

/-- Accepts an option with its value. -/
def accept (d : Draft) (key : OptionKey) (value : String) : Except Refusal Draft := do
  once (.option key) (d.has key)
  d.set key value

/-- Accepts a flag. -/
def raise (d : Draft) : Flag → Except Refusal Draft
  | .help => .error .help
  | .summary => .error .summary
  | .version => .error .version
  | .countLeadingHigh => do
    once (.flag .countLeadingHigh) d.countLeadingHigh
    return { d with countLeadingHigh := true }
  | .verbose => do
    once (.flag .verbose) d.verbose
    return { d with verbose := true }

/-- The invocation, once all arguments have been read. -/
def finish (d : Draft) : Except Refusal Invocation :=
  match d.input with
  | none => refuse .missingInput
  | some input => .ok
    { input := input
      maxLatencyMs := d.maxLatencyMs
      output := d.output
      format := d.format.getD .markdown
      configFile := d.configFile
      timestampColumn := d.timestampColumn
      sendColumn := d.sendColumn
      receiveColumn := d.receiveColumn
      countLeadingHigh := d.countLeadingHigh
      verbose := d.verbose }

end Draft

/-- Where the reader stands between two arguments. -/
structure Scan where
  draft : Draft := {}
  /-- The pending option, with its value if that has come. -/
  pending : Option (OptionKey × Option String) := none

namespace Scan

/-- Settles the pending option. -/
def settle (s : Scan) : Except Refusal Draft :=
  match s.pending with
  | none => .ok s.draft
  | some (key, none) => refuse (.missingValue key)
  | some (key, some value) => s.draft.accept key value

/-- A flag. -/
def flag (s : Scan) (f : Flag) : Except Refusal Scan := do
  let d ← s.settle
  return ⟨← d.raise f, none⟩

/-- An option with its value attached. -/
def attached (s : Scan) (key : OptionKey) (value : String) : Except Refusal Scan := do
  let d ← s.settle
  return ⟨← d.accept key value, none⟩

/-- An option whose value is to come. -/
def named (s : Scan) (key : OptionKey) : Except Refusal Scan := do
  return ⟨← s.settle, some (key, none)⟩

/-- An argument that begins with two dashes: a long name, and the value behind an equals sign. -/
def long (s : Scan) (name : String) (value : Option String) : Except Refusal Scan :=
  match Switch.longNames.lookup name with
  | none => refuse (.unknownArgument ("--" ++ name))
  | some (.flag f) =>
    match value with
    | none => s.flag f
    | some _ => refuse (.unwantedValue f)
  | some (.option key) =>
    match value with
    | none => s.named key
    | some v => s.attached key v

/-- The value that the rest of a cluster attaches to an option. -/
def clusterValue : List Char → List Char
  | '=' :: cs => cs
  | cs => cs

/-- An argument that begins with one dash: a cluster of short names, of which the first option
takes what is left as its value. -/
def cluster (s : Scan) : List Char → Except Refusal Scan
  | [] => .ok s
  | c :: cs =>
    match Switch.shortNames.lookup c with
    | none => refuse (.unknownArgument (String.ofList ['-', c]))
    | some (.flag f) => do cluster (← s.flag f) cs
    | some (.option key) =>
      if cs = [] then s.named key
      else s.attached key (String.ofList (clusterValue cs))

/-- An argument that is no switch: the value of the pending option. -/
def word (s : Scan) (text : String) : Except Refusal Scan :=
  match s.pending with
  | some (key, none) => .ok { s with pending := some (key, some text) }
  | _ => refuse (.unknownArgument text)

/-- One argument. -/
def argument (s : Scan) (text : String) : Except Refusal Scan :=
  match text.toList with
  | '-' :: '-' :: cs =>
    let value := match cs.dropWhile (· ≠ '=') with
      | [] => none
      | _ :: v => some (String.ofList v)
    s.long (String.ofList (cs.takeWhile (· ≠ '='))) value
  | '-' :: c :: cs => s.cluster (c :: cs)
  | _ => s.word text

/-- All arguments. -/
def arguments : Scan → List String → Except Refusal Scan
  | s, [] => .ok s
  | s, text :: rest =>
    if text = "--" then
      match rest with
      | [] => .ok s
      | next :: _ => refuse (.unknownArgument next)
    else do arguments (← s.argument text) rest

end Scan

/-- Reads a command line. -/
def parse (args : List String) : Except Refusal Invocation := do
  let s ← Scan.arguments {} args
  (← s.settle).finish

end TriggerLatency.CommandLine
