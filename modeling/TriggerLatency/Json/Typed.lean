import TriggerLatency.Json.Numeral
import TriggerLatency.Json.Skip

/-!
# Reading values of a wanted type

Readers for floats, counts, strings, optional values, lists, names from a fixed
choice, and records. A record is read from an object, whose members may come in any
order and among members that nobody asked for, or from an array of its fields in
their declared order.

A value of another type is read to its end before it is refused, unless it begins
with a bracket; so a fault inside it comes first.
-/

namespace TriggerLatency.Json

/-- The fault of a value of another type that begins with `c`. -/
def wrongType (c : Char) (text : List Char) : Fault :=
  let checked : Except Fault Unit :=
    if c = 'n' then (literal ['u', 'l', 'l'] text).map fun _ => ()
    else if c = 't' then (literal ['r', 'u', 'e'] text).map fun _ => ()
    else if c = 'f' then (literal ['a', 'l', 's', 'e'] text).map fun _ => ()
    else if c = '-' then (numeral true text).map fun _ => ()
    else if Decimal.isDigit c then (numeral false (c :: text)).map fun _ => ()
    else if c = '"' then (quoted text).map fun _ => ()
    else if c = '[' ∨ c = '\x7b' then .ok ()
    else .error .malformed
  match checked with
  | .ok () => .mismatch
  | .error f => f

/-- Reads a number. -/
def readNumeral : Reader Numeral := fun text =>
  match skipBlank text with
  | [] => .error .truncated
  | '-' :: rest => numeral true rest
  | c :: rest =>
    if Decimal.isDigit c then numeral false (c :: rest) else .error (wrongType c rest)

/-- Reads a float: any number. -/
def readFloat : Reader Float := fun text => do
  let (n, rest) ← readNumeral text
  .ok (n.toFloat, rest)

/-- Reads a count: a natural number of at most 64 bits without sign, fraction and power of ten. -/
def readNat : Reader Nat := fun text => do
  match ← readNumeral text with
  | (.natural n, rest) => .ok (n, rest)
  | (.real _, _) => .error .mismatch

/-- Reads a string. -/
def readString : Reader String := fun text =>
  match skipBlank text with
  | [] => .error .truncated
  | '"' :: rest => quoted rest
  | c :: rest => .error (wrongType c rest)

/-- Reads `null`. -/
def readNull : Reader Unit := fun text =>
  match skipBlank text with
  | [] => .error .truncated
  | 'n' :: rest => do .ok ((), ← literal ['u', 'l', 'l'] rest)
  | c :: rest => .error (wrongType c rest)

/-- Reads `null` or a value. -/
def readOption {α : Type} (read : Reader α) : Reader (Option α) := fun text =>
  match skipBlank text with
  | 'n' :: rest => do .ok (none, ← literal ['u', 'l', 'l'] rest)
  | rest => do
    let (x, rest) ← read rest
    .ok (some x, rest)

/-- Expects a colon. -/
def colon (text : List Char) : Except Fault (List Char) :=
  match skipBlank text with
  | [] => .error .truncated
  | ':' :: rest => .ok rest
  | _ => .error .malformed

/-- Whether an array goes on with an item, and the text from there. -/
def nextItem (first : Bool) (text : List Char) : Except Fault (Bool × List Char) :=
  match skipBlank text with
  | [] => .error .truncated
  | ']' :: rest => .ok (false, ']' :: rest)
  | c :: rest =>
    if first then .ok (true, c :: rest)
    else if c = ',' then
      match skipBlank rest with
      | [] => .error .truncated
      | ']' :: _ => .error .malformed
      | rest => .ok (true, rest)
    else .error .malformed

/-- Reads the items of a list; `fuel` bounds their number. -/
def items {α : Type} (read : Reader α) : Nat → Bool → Reader (List α)
  | 0, _, _ => .error .truncated
  | fuel + 1, first, text => do
    match ← nextItem first text with
    | (false, rest) => .ok ([], rest.tail)
    | (true, rest) =>
      let (x, rest) ← read rest
      let (xs, rest) ← items read fuel false rest
      .ok (x :: xs, rest)

/-- Reads a list. No list has more items than its text has characters. -/
def readList {α : Type} (read : Reader α) : Reader (List α) := fun text =>
  match skipBlank text with
  | [] => .error .truncated
  | '[' :: rest => items read (rest.length + 1) true rest
  | c :: rest => .error (wrongType c rest)

/-- Expects a key. -/
def onlyKey : Reader String := fun text =>
  match skipBlank text with
  | [] => .error .truncated
  | '"' :: rest => quoted rest
  | _ => .error .malformed

/-- Reads one of some names, as a string or as an object with that name for its only key and
`null` for its value. -/
def readChoice {α : Type} (names : List (String × α)) : Reader α := fun text =>
  match skipBlank text with
  | [] => .error .truncated
  | '"' :: rest => do
    let (name, rest) ← quoted rest
    match names.lookup name with
    | some x => .ok (x, rest)
    | none => .error .mismatch
  | '\x7b' :: rest => do
    let (name, rest) ← onlyKey rest
    match names.lookup name with
    | none => .error .mismatch
    | some x =>
      let ((), rest) ← readNull (← colon rest)
      match skipBlank rest with
      | [] => .error .truncated
      | '\x7d' :: rest => .ok (x, rest)
      | _ => .error .malformed
  | _ => .error .malformed

/-- A field of a record that is being read into a draft. -/
structure Field (σ : Type) where
  name : String
  /-- Whether the draft already has the field. -/
  filled : σ → Bool
  /-- Reads the field into the draft. -/
  read : σ → Reader σ

/-- A field that is read with `read` and kept in an optional slot of the draft. -/
def Field.slot {σ α : Type} (name : String) (get : σ → Option α) (set : σ → α → σ)
    (read : Reader α) : Field σ where
  name := name
  filled s := (get s).isSome
  read s text := do
    let (x, rest) ← read text
    .ok (set s x, rest)

/-- Whether an object goes on with a member, and the text from behind the quote of its key or from
behind the closing brace. -/
def nextKey (first : Bool) (text : List Char) : Except Fault (Bool × List Char) :=
  match skipBlank text with
  | [] => .error .truncated
  | '\x7d' :: rest => .ok (false, rest)
  | '"' :: rest => if first then .ok (true, rest) else .error .malformed
  | ',' :: rest =>
    if first then .error .malformed
    else match skipBlank rest with
      | [] => .error .truncated
      | '"' :: rest => .ok (true, rest)
      | _ => .error .malformed
  | _ => .error .malformed

/-- Reads the members of an object into a draft; `fuel` bounds their number. -/
def members {σ : Type} (fields : List (Field σ)) : Nat → Bool → σ → Reader σ
  | 0, _, _, _ => .error .truncated
  | fuel + 1, first, s, text => do
    match ← nextKey first text with
    | (false, rest) => .ok (s, rest)
    | (true, rest) =>
      let (name, rest) ← quoted rest
      match fields.find? (·.name = name) with
      | some f =>
        if f.filled s then .error .mismatch
        else
          let (s, rest) ← f.read s (← colon rest)
          members fields fuel false s rest
      | none =>
        let ((), rest) ← skipValue (← colon rest)
        members fields fuel false s rest

/-- Reads the fields of a record from an array, as many as there are; stands then in front of
whatever follows the last. -/
def positional {σ : Type} : List (Field σ) → Bool → σ → Reader σ
  | [], _, s, text => .ok (s, text)
  | f :: fs, first, s, text => do
    match ← nextItem first text with
    | (false, rest) => .ok (s, rest)
    | (true, rest) =>
      let (s, rest) ← f.read s rest
      positional fs false s rest

/-- Expects the end of an array. -/
def endArray (text : List Char) : Except Fault (List Char) :=
  match skipBlank text with
  | [] => .error .truncated
  | ']' :: rest => .ok rest
  | _ => .error .malformed

/-- How a record is read. -/
structure RecordShape (σ α : Type) where
  /-- The fields in their declared order. -/
  fields : List (Field σ)
  /-- The draft without any field. -/
  empty : σ
  /-- The record that the members of an object make, if none is missing. -/
  ofObject : σ → Option α
  /-- The record that the items of an array make, if none is missing. -/
  ofArray : σ → Option α

/-- The record, or the fault of a missing field. -/
def complete {α : Type} : Option α → Except Fault α
  | some x => .ok x
  | none => .error .mismatch

/-- Reads a record. No object has more members than its text has characters. -/
def readRecord {σ α : Type} (shape : RecordShape σ α) : Reader α := fun text =>
  match skipBlank text with
  | [] => .error .truncated
  | '\x7b' :: rest => do
    let (s, rest) ← members shape.fields (rest.length + 1) true shape.empty rest
    .ok (← complete (shape.ofObject s), rest)
  | '[' :: rest => do
    let (s, rest) ← positional shape.fields true shape.empty rest
    let x ← complete (shape.ofArray s)
    .ok (x, ← endArray rest)
  | c :: rest => .error (wrongType c rest)

end TriggerLatency.Json
