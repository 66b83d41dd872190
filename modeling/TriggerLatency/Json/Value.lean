import TriggerLatency.Decimal.Layout

/-!
# JSON values and their text

A value that is written as JSON, and its two written forms: compact on one line,
and pretty with two spaces for each level. Object members keep their order.
Floats are written with the fewest digits that read back; a float that is not
finite has no numeral and is written `null`. Strings escape quotes, backslashes
and control characters and leave everything else as it is.
-/

namespace TriggerLatency.Json

/-- A value to be written. -/
inductive Value
  | null
  | nat (n : Nat)
  | float (x : Float)
  | string (s : String)
  | array (items : List Value)
  | object (members : List (String × Value))

/-- A hexadecimal digit in lower case. -/
def hexDigit (n : Nat) : Char :=
  if n < 10 then Char.ofNat ('0'.toNat + n) else Char.ofNat ('a'.toNat + (n - 10))

/-- One character inside a string. -/
def escapeChar (c : Char) : List Char :=
  if c = '"' then ['\\', '"']
  else if c = '\\' then ['\\', '\\']
  else if c = '\n' then ['\\', 'n']
  else if c = '\r' then ['\\', 'r']
  else if c = '\t' then ['\\', 't']
  else if c = '\x08' then ['\\', 'b']
  else if c = '\x0c' then ['\\', 'f']
  else if c.toNat < 0x20 then
    ['\\', 'u', '0', '0', hexDigit (c.toNat / 16), hexDigit (c.toNat % 16)]
  else [c]

/-- A string between quotes. -/
def stringText (s : String) : List Char :=
  '"' :: (s.toList.flatMap escapeChar ++ ['"'])

/-- A float: its numeral, or `null` where there is none. -/
def floatText (x : Float) : List Char :=
  if x.isFinite then Decimal.Layout.data.chars x else ['n', 'u', 'l', 'l']

/-- How the parts of an array or object are set apart. A layout is given the depth of the parts
and writes what stands before the first, between two, and after the last. -/
structure Spacing where
  newline : Nat → List Char
  colon : List Char

/-- Everything on one line. -/
def Spacing.compact : Spacing where
  newline _ := []
  colon := [':']

/-- Each part on a line of its own, two spaces further in than what holds it. -/
def Spacing.pretty : Spacing where
  newline depth := '\n' :: List.replicate (2 * depth) ' '
  colon := [':', ' ']

mutual

/-- The text of a value at some depth. -/
def Value.chars (sp : Spacing) (depth : Nat) : Value → List Char
  | .null => ['n', 'u', 'l', 'l']
  | .nat n => Decimal.natDigits n
  | .float x => floatText x
  | .string s => stringText s
  | .array [] => ['[', ']']
  | .array (v :: vs) =>
    '[' :: (sp.newline (depth + 1) ++ v.chars sp (depth + 1)
      ++ itemsChars sp (depth + 1) vs ++ sp.newline depth ++ [']'])
  | .object [] => ['\x7b', '\x7d']
  | .object ((k, v) :: ms) =>
    '\x7b' :: (sp.newline (depth + 1) ++ stringText k ++ sp.colon ++ v.chars sp (depth + 1)
      ++ membersChars sp (depth + 1) ms ++ sp.newline depth ++ ['\x7d'])

/-- The items after the first, each with the comma before it. -/
def itemsChars (sp : Spacing) (depth : Nat) : List Value → List Char
  | [] => []
  | v :: vs => ',' :: (sp.newline depth ++ v.chars sp depth ++ itemsChars sp depth vs)

/-- The members after the first, each with the comma before it. -/
def membersChars (sp : Spacing) (depth : Nat) : List (String × Value) → List Char
  | [] => []
  | (k, v) :: ms =>
    ',' :: (sp.newline depth ++ stringText k ++ sp.colon ++ v.chars sp depth
      ++ membersChars sp depth ms)

end

/-- The text of a value on one line. -/
def Value.compact (v : Value) : String := String.ofList (v.chars .compact 0)

/-- The text of a value with a line for each part. -/
def Value.pretty (v : Value) : String := String.ofList (v.chars .pretty 0)

end TriggerLatency.Json
