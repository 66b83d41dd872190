import TriggerLatency.Transducer

/-!
# UTF-8

Bytes are decoded by a transducer whose state is the sequence it is in the middle
of. It writes *pieces*: a character for each well-formed sequence, and one
malformed mark for each maximal stretch of bytes that begins a sequence and
cannot go on. The byte that cannot go on is read again as the start of something
new, so a line feed always ends what stands before it.

`decode?` refuses text with a malformed piece; `decodeLossy` shows each malformed
piece as U+FFFD.
-/

namespace TriggerLatency.Text.Utf8

/-- A decoded piece: a character, or a malformed stretch of bytes. -/
abbrev Piece := Option Char

/-- A sequence that has begun: how many bytes it still needs, the range of the next
one, and the bits that it has given so far. -/
structure Partial where
  owed : Nat
  low : UInt8
  high : UInt8
  bits : Nat
  deriving DecidableEq

/-- A byte read between sequences. The ranges of the second byte keep out overlong
forms, surrogates and code points above U+10FFFF. -/
def lead (b : UInt8) : List Piece × Option Partial :=
  if b < 0x80 then ([some (Char.ofNat b.toNat)], none)
  else if b < 0xC2 then ([none], none)
  else if b < 0xE0 then ([], some ⟨1, 0x80, 0xBF, b.toNat % 32⟩)
  else if b == 0xE0 then ([], some ⟨2, 0xA0, 0xBF, 0⟩)
  else if b == 0xED then ([], some ⟨2, 0x80, 0x9F, 13⟩)
  else if b < 0xF0 then ([], some ⟨2, 0x80, 0xBF, b.toNat % 16⟩)
  else if b == 0xF0 then ([], some ⟨3, 0x90, 0xBF, 0⟩)
  else if b < 0xF4 then ([], some ⟨3, 0x80, 0xBF, b.toNat % 8⟩)
  else if b == 0xF4 then ([], some ⟨3, 0x80, 0x8F, 4⟩)
  else ([none], none)

/-- One byte: the pieces it completes, and the sequence that is then open. -/
def step : Option Partial → UInt8 → List Piece × Option Partial
  | none, b => lead b
  | some p, b =>
    if p.low ≤ b && b ≤ p.high then
      let bits := p.bits * 64 + b.toNat % 64
      if p.owed ≤ 1 then ([some (Char.ofNat bits)], none)
      else ([], some ⟨p.owed - 1, 0x80, 0xBF, bits⟩)
    else (none :: (lead b).1, (lead b).2)

/-- What the end of the bytes makes of an open sequence. -/
def finish : Option Partial → List Piece
  | none => []
  | some _ => [none]

/-- The pieces of a byte string, in order. -/
def pieces (bytes : List UInt8) : List Piece :=
  let out := Transducer.run step none bytes
  out.1.flatten ++ finish out.2

/-- The text, if every piece is a character. -/
def decode? (bytes : List UInt8) : Option (List Char) :=
  (pieces bytes).mapM id

/-- The text with U+FFFD for each malformed piece. -/
def decodeLossy (bytes : List UInt8) : List Char :=
  (pieces bytes).map (·.getD '\uFFFD')

/-- The bytes of a text. -/
def encode (text : String) : List UInt8 := text.toUTF8.data.toList

/-- How many bytes a list of characters takes. -/
def size (cs : List Char) : Nat := cs.foldl (fun n c => n + c.utf8Size) 0

end TriggerLatency.Text.Utf8
