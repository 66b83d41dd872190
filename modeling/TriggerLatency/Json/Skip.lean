import TriggerLatency.Json.Reader
import TriggerLatency.Decimal.Reader

/-!
# Skipping a value

The value of a member that nobody asked for is passed over by an automaton that
reads one character at a time and keeps the brackets that are open, so that values
may be nested to any depth. The automaton checks the form of the value but gives it
no meaning: numbers have no range, and the surrogates of a string need not pair up.

A number ends where the next character cannot go on with it, so the automaton may
stop in front of a character as well as behind one.
-/

namespace TriggerLatency.Json

/-- An open bracket. -/
inductive Bracket
  | square
  | brace
  deriving DecidableEq

/-- Where the automaton stands, apart from the open brackets. -/
inductive SkipState
  /-- A value must begin. -/
  | value
  /-- Behind an opening square bracket: a value or the closing bracket. -/
  | firstItem
  /-- Behind an opening brace: a key or the closing brace. -/
  | firstKey
  /-- A key must begin. -/
  | key
  /-- A colon must follow. -/
  | colon
  /-- Behind a complete value inside a bracket. -/
  | after
  /-- Inside a string; the flag is set for a key. -/
  | string (isKey : Bool)
  /-- Behind a backslash in a string. -/
  | escape (isKey : Bool)
  /-- In a numeric escape that owes digits. -/
  | hex (isKey : Bool) (owed : Nat)
  /-- In a name, with the letters that must follow. -/
  | word (letters : List Char)
  /-- Behind a minus sign. -/
  | minus
  /-- Behind a leading zero. -/
  | zero
  /-- In the digits in front of the point. -/
  | whole
  /-- Behind the point. -/
  | point
  /-- In the digits behind the point. -/
  | fraction
  /-- Behind the mark of a power of ten. -/
  | mark
  /-- Behind the sign of a power of ten. -/
  | markSign
  /-- In the digits of a power of ten. -/
  | exponent

/-- What a character does. -/
inductive SkipMove
  /-- The value goes on. -/
  | more (state : SkipState) (brackets : List Bracket)
  /-- The value ends behind the character. -/
  | doneBehind
  /-- The value ended in front of the character. -/
  | doneBefore
  | fault (f : Fault)

/-- The value that was read is complete, with the character just read. -/
def completed : List Bracket → SkipMove
  | [] => .doneBehind
  | bs => .more .after bs

/-- A character behind a complete value that stands inside brackets. -/
def afterValue (c : Char) : List Bracket → SkipMove
  | [] => .doneBefore
  | b :: bs =>
    if isBlank c then .more .after (b :: bs)
    else if c = ',' then .more (match b with | .square => .value | .brace => .key) (b :: bs)
    else if c = (match b with | .square => ']' | .brace => '\x7d') then completed bs
    else .fault .malformed

/-- A character where a value must begin. -/
def beginValue (c : Char) (brackets : List Bracket) : SkipMove :=
  if isBlank c then .more .value brackets
  else if c = '"' then .more (.string false) brackets
  else if c = '[' then .more .firstItem (.square :: brackets)
  else if c = '\x7b' then .more .firstKey (.brace :: brackets)
  else if c = '-' then .more .minus brackets
  else if c = '0' then .more .zero brackets
  else if Decimal.isDigit c then .more .whole brackets
  else if c = 'n' then .more (.word ['u', 'l', 'l']) brackets
  else if c = 't' then .more (.word ['r', 'u', 'e']) brackets
  else if c = 'f' then .more (.word ['a', 'l', 's', 'e']) brackets
  else .fault .malformed

/-- A character where a key must begin. -/
def beginKey (c : Char) (brackets : List Bracket) (state : SkipState) : SkipMove :=
  if isBlank c then .more state brackets
  else if c = '"' then .more (.string true) brackets
  else .fault .malformed

/-- A string ends. -/
def endString (isKey : Bool) (brackets : List Bracket) : SkipMove :=
  if isKey then .more .colon brackets else completed brackets

/-- Whether a character is the mark of a power of ten. -/
def isMark (c : Char) : Bool := c = 'e' || c = 'E'

/-- One character, with the text behind it for telling a truncated numeric escape from a
malformed one. -/
def skipStep (brackets : List Bracket) (c : Char) (text : List Char) : SkipState → SkipMove
  | .value => beginValue c brackets
  | .firstItem =>
    if c = ']' then completed brackets.tail
    else if isBlank c then .more .firstItem brackets
    else beginValue c brackets
  | .firstKey =>
    if c = '\x7d' then completed brackets.tail else beginKey c brackets .firstKey
  | .key => beginKey c brackets .key
  | .colon =>
    if isBlank c then .more .colon brackets
    else if c = ':' then .more .value brackets
    else .fault .malformed
  | .after => afterValue c brackets
  | .string isKey =>
    if c = '"' then endString isKey brackets
    else if c = '\\' then .more (.escape isKey) brackets
    else if c.toNat < 0x20 then .fault .malformed
    else .more (.string isKey) brackets
  | .escape isKey =>
    if c = 'u' then .more (.hex isKey 4) brackets
    else if (letterEscape? c).isSome then .more (.string isKey) brackets
    else .fault .malformed
  | .hex isKey owed =>
    if (hexValue? c).isNone then .fault (hexFault owed c text)
    else if owed ≤ 1 then .more (.string isKey) brackets
    else .more (.hex isKey (owed - 1)) brackets
  | .word [] => afterValue c brackets
  | .word (l :: ls) =>
    if c = l then (if ls = [] then completed brackets else .more (.word ls) brackets)
    else .fault .malformed
  | .minus =>
    if c = '0' then .more .zero brackets
    else if Decimal.isDigit c then .more .whole brackets
    else .fault .malformed
  | .zero =>
    if Decimal.isDigit c then .fault .malformed
    else if c = '.' then .more .point brackets
    else if isMark c then .more .mark brackets
    else afterValue c brackets
  | .whole =>
    if Decimal.isDigit c then .more .whole brackets
    else if c = '.' then .more .point brackets
    else if isMark c then .more .mark brackets
    else afterValue c brackets
  | .point => if Decimal.isDigit c then .more .fraction brackets else .fault .malformed
  | .fraction =>
    if Decimal.isDigit c then .more .fraction brackets
    else if isMark c then .more .mark brackets
    else afterValue c brackets
  | .mark =>
    if c = '+' ∨ c = '-' then .more .markSign brackets
    else if Decimal.isDigit c then .more .exponent brackets
    else .fault .malformed
  | .markSign => if Decimal.isDigit c then .more .exponent brackets else .fault .malformed
  | .exponent => if Decimal.isDigit c then .more .exponent brackets else afterValue c brackets

/-- What the end of the text does: a number may end there if no bracket is open, and a number that
lacks a digit is malformed rather than truncated. -/
def skipEnd (brackets : List Bracket) : SkipState → Except Fault Unit
  | .zero | .whole | .fraction | .exponent =>
    if brackets = [] then .ok () else .error .truncated
  | .minus | .point | .mark | .markSign => .error .malformed
  | _ => .error .truncated

/-- Runs the automaton. -/
def skipFrom : SkipState → List Bracket → List Char → Except Fault (List Char)
  | state, brackets, [] => (skipEnd brackets state).map fun _ => []
  | state, brackets, c :: text =>
    match skipStep brackets c text state with
    | .more state' brackets' => skipFrom state' brackets' text
    | .doneBehind => .ok text
    | .doneBefore => .ok (c :: text)
    | .fault f => .error f

/-- Passes over one value. -/
def skipValue : Reader Unit := fun text => do .ok ((), ← skipFrom .value [] text)

end TriggerLatency.Json
