/-!
# The fewest digits that read back

A finite float is `± mantissa · 2 ^ exponent` for a natural mantissa (`Binary`). All decimal
texts of this library are chosen from that exact value by integer arithmetic, so no digit
depends on a rounded intermediate result.

Every decimal in a float's *rounding interval*, between the midpoints to its two
neighbours, reads back as that float; the midpoints themselves belong to it
exactly when the mantissa is even. The shortest decimal of a float is the point
of that interval on the coarsest grid of multiples of a power of ten that meets
it; of two such points the nearer one, and on an exact tie the one that the
caller asks for.

All comparisons are between natural numbers: the interval and the grid are
brought over a common denominator first.
-/

namespace TriggerLatency.Decimal

/-- A float taken apart. Zero is finite with mantissa zero and keeps its sign. -/
inductive Binary
  | nan
  | infinite (negative : Bool)
  | finite (negative : Bool) (mantissa : Nat) (exponent : Int)
  deriving DecidableEq

/-- The parts of `x`. -/
def Binary.ofFloat (x : Float) : Binary :=
  match x.toModel.unpack with
  | .notANumber => .nan
  | .infinity s => .infinite (s == .negative)
  | .zero s => .finite (s == .negative) 0 0
  | .finite s mantissa exponent _ => .finite (s == .negative) mantissa exponent

/-- `n · b ^ e` over a common denominator: what multiplies the numerator. -/
def powerUp (b : Nat) (e : Int) : Nat := Nat.pow b e.toNat

/-- `n · b ^ e` over a common denominator: what multiplies the denominator. -/
def powerDown (b : Nat) (e : Int) : Nat := Nat.pow b (-e).toNat

/-- Which of two equally near decimals is taken: the one with the even last digit,
or the one further from zero. -/
inductive Tie
  | toEven
  | away
  deriving DecidableEq

/-- `digits · 10 ^ exponent`. -/
structure Scaled where
  digits : Nat
  exponent : Int
  deriving DecidableEq

/-- The rounding interval of a positive float in quarters of its last binary place:
`low`, `mid` and `high` stand for `low · 2 ^ exponent` and so on, and `closed` says
whether the ends belong to it. Below a power of two the spacing is halved, so the
lower midpoint is nearer there, except at the bottom of the exponent range. -/
structure Interval where
  low : Nat
  mid : Nat
  high : Nat
  exponent : Int
  closed : Bool

/-- The rounding interval of `mantissa · 2 ^ exponent`. -/
def Interval.ofBinary (mantissa : Nat) (exponent : Int) : Interval where
  low := if mantissa = Nat.pow 2 52 ∧ -1074 < exponent then 4 * mantissa - 1 else 4 * mantissa - 2
  mid := 4 * mantissa
  high := 4 * mantissa + 2
  exponent := exponent - 2
  closed := mantissa % 2 == 0

/-- Whether `n`, a multiple of the grid's unit over the common denominator, lies in the interval
from `low` to `high` over the same denominator. -/
def Interval.holds (closed : Bool) (low n high : Nat) : Bool :=
  if closed then low ≤ n && n ≤ high else low < n && n < high

/-- The point of the grid of multiples of `10 ^ k` that is taken from the interval, if the
grid meets it. Only the two neighbours of the middle need be tried. -/
def Interval.point? (i : Interval) (tie : Tie) (k : Int) : Option Nat :=
  let scale := powerUp 2 i.exponent * powerDown 10 k
  let unit := powerUp 10 k * powerDown 2 i.exponent
  let low := i.low * scale
  let mid := i.mid * scale
  let high := i.high * scale
  let below := mid / unit
  let above := below + 1
  let belowIn := holds i.closed low (below * unit) high
  let aboveIn := holds i.closed low (above * unit) high
  if belowIn && aboveIn then
    let gapBelow := mid - below * unit
    let gapAbove := above * unit - mid
    if gapBelow < gapAbove then some below
    else if gapAbove < gapBelow then some above
    else match tie with
      | .away => some above
      | .toEven => if below % 2 = 0 then some below else some above
  else if belowIn then some below
  else if aboveIn then some above
  else none

/-- Tries the grids of `10 ^ k`, `10 ^ (k - 1)`, … and takes the first hit. -/
def Interval.search (i : Interval) (tie : Tie) : Nat → Int → Scaled
  | 0, k => ⟨i.mid * powerUp 2 i.exponent * powerDown 10 k
      / (powerUp 10 k * powerDown 2 i.exponent), k⟩
  | steps + 1, k =>
    match i.point? tie k with
    | some digits => ⟨digits, k⟩
    | none => i.search tie steps (k - 1)

/-- The exponent of a power of ten above `mantissa · 2 ^ exponent`, three at most above the one
that the first digit has: `30103 / 100000` is just above the logarithm of two. -/
def startExponent (mantissa : Nat) (exponent : Int) : Int :=
  ((mantissa.log2 + 1 : Int) + exponent) * 30103 / 100000 + 2

/-- The shortest decimal of `mantissa · 2 ^ exponent`, for a positive mantissa. Seventeen digits
always suffice, so the search ends well before its bound. -/
def shortest (tie : Tie) (mantissa : Nat) (exponent : Int) : Scaled :=
  (Interval.ofBinary mantissa exponent).search tie 25 (startExponent mantissa exponent)

end TriggerLatency.Decimal
