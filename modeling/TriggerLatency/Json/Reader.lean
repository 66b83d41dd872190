import TriggerLatency.Text.Utf8

/-!
# Reading JSON

A reader takes what it needs from the front of a text and gives back the rest.
Reading stops at the first fault from the left. There are three kinds of fault: the
text ends too early, the text is not JSON, or the text is JSON but not what is
wanted at that place.

A string is read from behind its opening quote to behind its closing quote (`quoted`).
Control characters must be escaped, and a code point above U+FFFF is escaped as a pair of
surrogates; a surrogate on its own is malformed. A numeric escape is looked at as a whole: it
is malformed if four bytes follow that are not four hexadecimal digits, and truncated if
fewer than four bytes follow.
-/

namespace TriggerLatency.Json

/-- Why reading stopped. -/
inductive Fault
  /-- The text ends before the value does. -/
  | truncated
  /-- The text is not JSON. -/
  | malformed
  /-- The text is JSON, but not a value of the wanted type. -/
  | mismatch
  deriving DecidableEq

/-- A fault in words. -/
def Fault.message : Fault → String
  | .truncated => "the text ends too early"
  | .malformed => "the text is not JSON"
  | .mismatch => "a value is missing, repeated or of the wrong type"

/-- Reads a value at the front of a text and gives the rest. -/
abbrev Reader (α : Type) := List Char → Except Fault (α × List Char)

/-- JSON white space. -/
def isBlank (c : Char) : Bool := c = ' ' || c = '\n' || c = '\t' || c = '\r'

/-- Drops white space. -/
def skipBlank (text : List Char) : List Char := text.dropWhile isBlank

/-- Expects the letters of a name, one by one. -/
def literal : List Char → List Char → Except Fault (List Char)
  | [], text => .ok text
  | _ :: _, [] => .error .truncated
  | c :: cs, d :: text => if c = d then literal cs text else .error .malformed

/-- Reads a whole text: a value with nothing but white space around it. -/
def readAll {α : Type} (read : Reader α) (text : List Char) : Except Fault α := do
  let (x, rest) ← read text
  if skipBlank rest = [] then .ok x else .error .malformed

/-! ## Strings -/

/-- The value of a hexadecimal digit in either case. -/
def hexValue? (c : Char) : Option Nat :=
  if '0' ≤ c ∧ c ≤ '9' then some (c.toNat - '0'.toNat)
  else if 'a' ≤ c ∧ c ≤ 'f' then some (c.toNat - 'a'.toNat + 10)
  else if 'A' ≤ c ∧ c ≤ 'F' then some (c.toNat - 'A'.toNat + 10)
  else none

/-- The fault of a character that stands, with `text` behind it, where `owed` more hexadecimal
digits should. -/
def hexFault (owed : Nat) (c : Char) (text : List Char) : Fault :=
  if Text.Utf8.size ((c :: text).take owed) < owed then .truncated else .malformed

/-- The character of a one-letter escape. -/
def letterEscape? : Char → Option Char
  | '"' => some '"'
  | '\\' => some '\\'
  | '/' => some '/'
  | 'b' => some '\x08'
  | 'f' => some '\x0c'
  | 'n' => some '\n'
  | 'r' => some '\r'
  | 't' => some '\t'
  | _ => none

/-- Where in a string the reader stands. -/
inductive QuotedState
  /-- Between characters. -/
  | plain
  /-- Behind a backslash. -/
  | escape
  /-- In a numeric escape that owes digits; `bits` are those read, and `high` is the surrogate
  that the escape before it gave. -/
  | hex (owed bits : Nat) (high : Option Nat)
  /-- Behind the first half of a surrogate pair, whose second half must follow. -/
  | paired (high : Nat)
  /-- Behind the backslash of the second half. -/
  | pairedEscape (high : Nat)

/-- What a complete numeric escape gives: a character, the first half of a pair, or nothing that
can stand there. -/
def unitState (n : Nat) (high : Option Nat) : Option (Option Char × QuotedState) :=
  match high with
  | none =>
    if 0xD800 ≤ n ∧ n < 0xDC00 then some (none, .paired n)
    else if 0xDC00 ≤ n ∧ n < 0xE000 then none
    else some (some (Char.ofNat n), .plain)
  | some h =>
    if 0xDC00 ≤ n ∧ n < 0xE000 then
      some (some (Char.ofNat (0x10000 + (h - 0xD800) * 0x400 + (n - 0xDC00))), .plain)
    else none

/-- Reads on from a state; `acc` holds the characters so far, the last one first. -/
def quotedFrom : QuotedState → List Char → List Char → Except Fault (String × List Char)
  | _, _, [] => .error .truncated
  | .plain, acc, c :: text =>
    if c = '"' then .ok (String.ofList acc.reverse, text)
    else if c = '\\' then quotedFrom .escape acc text
    else if c.toNat < 0x20 then .error .malformed
    else quotedFrom .plain (c :: acc) text
  | .escape, acc, c :: text =>
    if c = 'u' then quotedFrom (.hex 4 0 none) acc text
    else match letterEscape? c with
      | some d => quotedFrom .plain (d :: acc) text
      | none => .error .malformed
  | .hex owed bits high, acc, c :: text =>
    match hexValue? c with
    | none => .error (hexFault owed c text)
    | some d =>
      if owed ≤ 1 then
        match unitState (16 * bits + d) high with
        | none => .error .malformed
        | some (some x, st) => quotedFrom st (x :: acc) text
        | some (none, st) => quotedFrom st acc text
      else quotedFrom (.hex (owed - 1) (16 * bits + d) high) acc text
  | .paired high, acc, c :: text =>
    if c = '\\' then quotedFrom (.pairedEscape high) acc text else .error .malformed
  | .pairedEscape high, acc, c :: text =>
    if c = 'u' then quotedFrom (.hex 4 0 (some high)) acc text else .error .malformed

/-- Reads a string from behind its opening quote. -/
def quoted : Reader String := quotedFrom .plain []

end TriggerLatency.Json
