import TriggerLatency.Decimal.Shortest

/-!
# Writing a float

A `Layout` holds the decisions that a format makes about the shortest decimal of a
float: which magnitudes are written with a power of ten, whether whole numbers end
in `.0`, and how ties between two equally near decimals go. This library writes
two formats, `Layout.data` for JSON and structured records and `Layout.message`
for sentences.

Tables have a fixed number of decimal places instead (`fixed`): the exact value of the
float is rounded to them, a half going to the even neighbour. Never a power of ten there; a
negative sign is kept even where the value rounds to zero.
-/

namespace TriggerLatency.Decimal

/-- The decisions of a format. `scientific e` is asked with the decimal exponent of the first
digit. -/
structure Layout where
  scientific : Int → Bool
  pointZero : Bool
  tie : Tie

/-- Data: positional from `0.00001` up to sixteen integer digits, always with a fraction there;
a power of ten with its sign outside; ties to the even digit. -/
def Layout.data : Layout where
  scientific e := e < -5 || 16 ≤ e
  pointZero := true
  tie := .toEven

/-- Messages: always positional, whole numbers without a fraction; ties away from zero. -/
def Layout.message : Layout where
  scientific _ := false
  pointZero := false
  tie := .away

/-- The decimal digits of a natural number. -/
def natDigits (n : Nat) : List Char := Nat.toDigits 10 n

/-- Digits with a point after the first, and the power of ten. -/
def scientificText (digits : List Char) (e : Int) : List Char :=
  let mantissa := match digits with
    | d :: rest@(_ :: _) => d :: '.' :: rest
    | ds => ds
  let sign := if e < 0 then '-' else '+'
  mantissa ++ 'e' :: sign :: natDigits e.natAbs

/-- Digits with the point where the exponent `e` of the first digit puts it. -/
def positionalText (pointZero : Bool) (digits : List Char) (e : Int) : List Char :=
  if e < 0 then
    '0' :: '.' :: (List.replicate (-e - 1).toNat '0' ++ digits)
  else
    let whole := e.toNat + 1
    if digits.length ≤ whole then
      digits ++ List.replicate (whole - digits.length) '0'
        ++ (if pointZero then ['.', '0'] else [])
    else digits.take whole ++ '.' :: digits.drop whole

/-- The text of a decimal. -/
def Layout.scaledText (l : Layout) (s : Scaled) : List Char :=
  let digits := natDigits s.digits
  let e := s.exponent + digits.length - 1
  if l.scientific e then scientificText digits e else positionalText l.pointZero digits e

/-- The text of a float. -/
def Layout.chars (l : Layout) (x : Float) : List Char :=
  match Binary.ofFloat x with
  | .nan => ['N', 'a', 'N']
  | .infinite negative => (if negative then ['-'] else []) ++ ['i', 'n', 'f']
  | .finite negative mantissa exponent =>
    (if negative then ['-'] else []) ++
      (if mantissa = 0 then positionalText l.pointZero ['0'] 0
        else l.scaledText (shortest l.tie mantissa exponent))

/-- The text of a float as a string. -/
def Layout.text (l : Layout) (x : Float) : String := String.ofList (l.chars x)

/-! ## A fixed number of places -/

/-- The integer nearest to `num / den`, a half going to the even one. -/
def roundHalfEven (num den : Nat) : Nat :=
  let q := num / den
  let r := num % den
  if 2 * r < den then q
  else if den < 2 * r then q + 1
  else if q % 2 = 0 then q else q + 1

/-- `mantissa · 2 ^ exponent` in units of the last of `places` decimal places. -/
def fixedUnits (places mantissa : Nat) (exponent : Int) : Nat :=
  roundHalfEven (mantissa * powerUp 2 exponent * Nat.pow 10 places) (powerDown 2 exponent)

/-- `units` written with `places` digits behind the point. -/
def fixedDigits (places units : Nat) : List Char :=
  let whole := natDigits (units / Nat.pow 10 places)
  let part := natDigits (units % Nat.pow 10 places)
  whole ++ '.' :: (List.replicate (places - part.length) '0' ++ part)

/-- The text of a float with a fixed, positive number of places. -/
def fixedChars (places : Nat) (x : Float) : List Char :=
  match Binary.ofFloat x with
  | .nan => ['N', 'a', 'N']
  | .infinite negative => (if negative then ['-'] else []) ++ ['i', 'n', 'f']
  | .finite negative mantissa exponent =>
    (if negative then ['-'] else []) ++ fixedDigits places (fixedUnits places mantissa exponent)

/-- The text of a float with a fixed, positive number of places, as a string. -/
def fixed (places : Nat) (x : Float) : String := String.ofList (fixedChars places x)

end TriggerLatency.Decimal
