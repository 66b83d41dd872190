import TriggerLatency.Json.Reader
import TriggerLatency.Decimal.Reader

/-!
# Reading numbers

A number is read into a significand of at most 64 bits and a power of ten, and its
value is the float of the significand multiplied or divided by the float of that
power. The result is not always the float nearest to the decimal: digits that no
longer fit into the significand are dropped, and there are two roundings.

A whole number that fits into the significand keeps its exact value, so counts can
be told from other numbers.
-/

namespace TriggerLatency.Json

/-- A number: a natural number written without fraction, power of ten or sign, or any other. -/
inductive Numeral
  | natural (n : Nat)
  | real (x : Float)
  deriving DecidableEq

/-- The number as a float. -/
def Numeral.toFloat : Numeral → Float
  | .natural n => Float.ofNat n
  | .real x => x

/-- Appends digits to a significand as long as it fits into 64 bits; gives the significand and how
many digits it took. -/
def gather (significand : Nat) : List Char → Nat × Nat
  | [] => (significand, 0)
  | d :: ds =>
    if significand * 10 + Decimal.digitValue d < Nat.pow 2 64 then
      let r := gather (significand * 10 + Decimal.digitValue d) ds
      (r.1, r.2 + 1)
    else (significand, 0)

/-- The float of a power of ten. -/
def powerOfTen (e : Nat) : Float := Float.ofScientific 1 false e

/-- The value of a significand and a power of ten. Powers beyond the table of `1e0` to `1e308` are
taken in two steps; a third would always give zero. A value that grows to infinity is
malformed. -/
def scaled (significand : Nat) (exponent : Int) : Except Fault Float :=
  let f := Float.ofNat significand
  if 308 < exponent then
    if significand = 0 then .ok f else .error .malformed
  else if 0 ≤ exponent then
    let x := f * powerOfTen exponent.toNat
    if x.isInf then .error .malformed else .ok x
  else if -308 ≤ exponent then .ok (f / powerOfTen (-exponent).toNat)
  else if -616 ≤ exponent then
    .ok (f / powerOfTen 308 / powerOfTen (-exponent - 308).toNat)
  else .ok (f / powerOfTen 308 / powerOfTen 308)

/-- The power of ten that a number ends in, if it has one: `none` where no mark stands. -/
def exponentPart : List Char → Except Fault (Option Int × List Char)
  | [] => .ok (none, [])
  | c :: text =>
    if c = 'e' ∨ c = 'E' then
      let (negative, rest) := Decimal.splitSign text
      let ds := rest.takeWhile Decimal.isDigit
      let rest' := rest.dropWhile Decimal.isDigit
      let e : Int := if negative then -Decimal.ofDigits ds else Decimal.ofDigits ds
      if ds = [] then .error (if rest' = [] then .truncated else .malformed)
      else .ok (some e, rest')
    else .ok (none, c :: text)

/-- The digits behind a point, if there is a point. -/
def fractionPart : List Char → Except Fault (Option (List Char) × List Char)
  | '.' :: text =>
    let ds := text.takeWhile Decimal.isDigit
    let rest := text.dropWhile Decimal.isDigit
    if ds = [] then .error (if rest = [] then .truncated else .malformed)
    else .ok (some ds, rest)
  | text => .ok (none, text)

/-- The digits in front of the point: a zero stands alone. -/
def wholePart : List Char → Except Fault (List Char × List Char)
  | [] => .error .truncated
  | '0' :: text =>
    match text with
    | d :: _ => if Decimal.isDigit d then .error .malformed else .ok (['0'], text)
    | [] => .ok (['0'], text)
  | c :: text =>
    if Decimal.isDigit c then
      .ok (c :: text.takeWhile Decimal.isDigit, text.dropWhile Decimal.isDigit)
    else .error .malformed

/-- The value of the parts of a number. -/
def Numeral.ofParts (negative : Bool) (whole : List Char) (fraction : Option (List Char))
    (exponent : Option Int) : Except Fault Numeral := do
  let (significand, taken) := gather 0 whole
  let dropped := whole.length - taken
  if fraction = none ∧ exponent = none ∧ dropped = 0 then
    .ok (if negative then .real (-Float.ofNat significand) else .natural significand)
  else
    let (significand, taken) := gather significand (fraction.getD [])
    let x ← scaled significand (dropped - taken + exponent.getD 0)
    .ok (.real (if negative then -x else x))

/-- Reads a number from behind its sign. -/
def numeral (negative : Bool) : Reader Numeral := fun text => do
  let (whole, text) ← wholePart text
  let (fraction, text) ← fractionPart text
  let (exponent, text) ← exponentPart text
  .ok (← Numeral.ofParts negative whole fraction exponent, text)

end TriggerLatency.Json
