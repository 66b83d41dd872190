/-!
# Reading a number

The decimal numerals that recordings and command lines hold. A float numeral is an
optional sign, digits with at most one point among or beside them and at least one
digit in all, and an optional power of ten; or, in any mix of cases, a name of
infinity or of not-a-number. Its value is the correctly rounded float, up to a cap on
the power of ten. An integer numeral is an optional sign and at least one digit.
-/

namespace TriggerLatency.Decimal

/-- An ASCII decimal digit. -/
def isDigit (c : Char) : Bool := '0' ≤ c && c ≤ '9'

/-- The value of a digit. -/
def digitValue (c : Char) : Nat := c.toNat - '0'.toNat

/-- A number that is being read from its digits, in two parts: `high * scale + low`. The lower part
takes the digits up as long as `scale`, the power of ten of its length, is small; so a long numeral
does not have its whole value moved up for each of its digits. -/
structure Tally where
  high : Nat
  low : Nat
  scale : Nat

namespace Tally

/-- Nothing read. -/
def zero : Tally := ⟨0, 0, 1⟩

/-- The number read so far. -/
def value (t : Tally) : Nat := t.high * t.scale + t.low

/-- The bits that `scale` may have before the lower part is added to the higher one. -/
def lowBits : Nat := 8192

/-- Reads a digit. -/
def push (t : Tally) (d : Char) : Tally :=
  if t.scale.log2 < lowBits then ⟨t.high, 10 * t.low + digitValue d, 10 * t.scale⟩
  else ⟨t.value, digitValue d, 10⟩

/-- A digit moves the number up by one place. -/
theorem value_push (t : Tally) (d : Char) : (t.push d).value = 10 * t.value + digitValue d := by
  unfold push
  split
  · simp only [value, Nat.mul_add, Nat.mul_left_comm, Nat.add_assoc]
  · simp only [value]
    omega

end Tally

/-- The number that digits write. -/
def ofDigits (ds : List Char) : Nat := (ds.foldl Tally.push .zero).value

private theorem value_foldl_push (ds : List Char) (t : Tally) :
    (ds.foldl Tally.push t).value = ds.foldl (fun n d => 10 * n + digitValue d) t.value := by
  induction ds generalizing t with
  | nil => rfl
  | cons d ds ih => rw [List.foldl_cons, List.foldl_cons, ih, Tally.value_push]

/-- Each digit moves the digits before it up by one place. -/
theorem ofDigits_eq_foldl (ds : List Char) :
    ofDigits ds = ds.foldl (fun n d => 10 * n + digitValue d) 0 :=
  value_foldl_push ds .zero

/-- Takes a sign off; the flag is set by a minus sign. -/
def splitSign : List Char → Bool × List Char
  | '-' :: cs => (true, cs)
  | '+' :: cs => (false, cs)
  | cs => (false, cs)

/-- The integer that an optional sign and digits write, given the value of the digits. -/
def readSigned? (value : List Char → Nat) (cs : List Char) : Option Int :=
  let (negative, ds) := splitSign cs
  if ds ≠ [] ∧ ds.all isDigit = true then
    some (if negative then -(value ds : Int) else value ds)
  else none

/-- The integer that a numeral writes. -/
def readInt? (cs : List Char) : Option Int := readSigned? ofDigits cs

/-- Where the power of ten of a float stops growing. -/
def exponentCap : Nat := 65536

/-- The power of ten that digits write. Once it has reached the cap, further digits do not count.
That far out the power decides the value alone, unless the mantissa has as many digits. -/
def exponentValue (ds : List Char) : Nat :=
  ds.foldl (fun n d => if n < exponentCap then 10 * n + digitValue d else n) 0

/-- `m · 10 ^ e`, correctly rounded. A value of `2 ^ 1024` or more is infinite, and where the length
of `m` alone shows that, since a digit is worth less than four bits, nothing more is computed. -/
def roundDecimal (m : Nat) (e : Int) : Float :=
  if 1024 ≤ m.log2 + 4 * min e 0 then 1.0 / 0.0
  else if 0 ≤ e then Float.ofScientific m false e.toNat
  else Float.ofScientific m true (-e).toNat

/-- The power of ten at the end of a numeral: nothing at all, or a mark and an integer. -/
def readExponent? : List Char → Option Int
  | [] => some 0
  | c :: cs => if c = 'e' ∨ c = 'E' then readSigned? exponentValue cs else none

/-- An unsigned decimal numeral. -/
def readUnsigned? (cs : List Char) : Option Float :=
  let whole := cs.takeWhile isDigit
  let rest := cs.dropWhile isDigit
  let tail := match rest with
    | '.' :: r => r
    | _ => []
  let part := tail.takeWhile isDigit
  let ending := match rest with
    | '.' :: r => r.dropWhile isDigit
    | r => r
  if whole = [] ∧ part = [] then none
  else (readExponent? ending).map fun e =>
    roundDecimal (ofDigits (whole ++ part)) (e - part.length)

/-- The names of the values that are not finite. -/
def readName? (cs : List Char) : Option Float :=
  let name := String.ofList (cs.map Char.toLower)
  if name = "inf" ∨ name = "infinity" then some (1.0 / 0.0)
  else if name = "nan" then some (0.0 / 0.0)
  else none

/-- The float that a numeral writes. -/
def readFloat? (cs : List Char) : Option Float :=
  let (negative, body) := splitSign cs
  let value := (readUnsigned? body).or (readName? body)
  value.map fun x => if negative then -x else x

end TriggerLatency.Decimal
