import TriggerLatency.Decimal.Reader
import TriggerLatency.Proofs.Decimal.Fewest
import TriggerLatency.Proofs.Decimal.HalfEven
import TriggerLatency.Proofs.Decimal.Signed

/-!
# Reading a fixed number of places

What rounding to a fixed number of places leaves of a float is its sign and a number of units of the
last place (`Rounded`). That much can be read back from the text, for every float
(`readPlaces?_fixedChars`), and nothing else stands in it (`isPlain_of_mem_fixedChars`).

The units are the nearest ones to the exact value, a half going to the even number of them
(`Rounded.ofFloat_eq_finite_iff`), and a greater value has no fewer
(`unitsOfGrains_mono`). So texts of the same number of places, taken as exact decimals, keep the
order of the floats (`exactValue?_mono`), and two floats may become equal, but not change places.
-/

namespace TriggerLatency.Decimal

open Double Json

variable {places : Nat} {x y : Float}

/-! ## What is left of a float -/

/-- A float rounded to some places: its sign, which a zero has too, and how many units of the last
place it comes to. -/
inductive Rounded
  | nan
  | infinite (negative : Bool)
  | finite (negative : Bool) (units : Nat)
  deriving DecidableEq

/-- What rounding leaves of a float. -/
def Rounded.ofFloat (places : Nat) (x : Float) : Rounded :=
  match Binary.ofFloat x with
  | .nan => .nan
  | .infinite negative => .infinite negative
  | .finite negative mantissa exponent => .finite negative (fixedUnits places mantissa exponent)

/-- The number that is written, exactly, unless it is none. -/
def Rounded.value? (places : Nat) : Rounded → Option ℚ
  | .finite negative units => some ((if negative then -(units : ℚ) else units) / 10 ^ places)
  | _ => none

/-- Takes a minus sign off. -/
def splitMinus : List Char → Bool × List Char
  | '-' :: cs => (true, cs)
  | cs => (false, cs)

/-- Reads digits, a point, and as many digits as there are places. -/
def readUnits? (places : Nat) (cs : List Char) : Option Nat :=
  let whole := cs.takeWhile isDigit
  match cs.dropWhile isDigit with
  | '.' :: part =>
    if whole ≠ [] ∧ part.length = places ∧ part.all isDigit = true then
      some (ofDigits (whole ++ part))
    else none
  | _ => none

/-- Reads a float of a fixed number of places: not-a-number, or, behind a minus sign or none,
infinity or digits. -/
def readPlaces? (places : Nat) (cs : List Char) : Option Rounded :=
  if cs = ['N', 'a', 'N'] then some .nan
  else
    let (negative, body) := splitMinus cs
    if body = ['i', 'n', 'f'] then some (.infinite negative)
    else (readUnits? places body).map (.finite negative)

/-- The number that a text writes, as an exact decimal. -/
def exactValue? (places : Nat) (cs : List Char) : Option ℚ :=
  (readPlaces? places cs).bind (Rounded.value? places)

/-! ## Digits -/

theorem ofDigits_append (ds ds' : List Char) :
    ofDigits (ds ++ ds') = 10 ^ ds'.length * ofDigits ds + ofDigits ds' := by
  simp only [ofDigits_eq_ofDigitChars]
  rw [Nat.ofDigitChars_append, Nat.ofDigitChars_eq_ofDigitChars_zero]

theorem ofDigits_replicate_zero (n : Nat) : ofDigits (List.replicate n '0') = 0 := by
  induction n with
  | zero => rfl
  | succ n ih =>
    rw [List.replicate_succ, ← List.singleton_append, ofDigits_append, ih]
    rfl

/-- The digits behind the point, with zeros in front so that they fill the places. -/
def partDigits (places units : Nat) : List Char :=
  let part := natDigits (units % 10 ^ places)
  List.replicate (places - part.length) '0' ++ part

theorem fixedDigits_eq (places units : Nat) :
    fixedDigits places units = natDigits (units / 10 ^ places) ++ '.' :: partDigits places units :=
  rfl

theorem isDigit_of_mem_partDigits {units : Nat} {c : Char} (hc : c ∈ partDigits places units) :
    isDigit c = true := by
  rcases List.mem_append.mp hc with hzero | hdigit
  · rw [List.eq_of_mem_replicate hzero]
    rfl
  · exact isDigit_of_mem_natDigits hdigit

theorem length_partDigits (hplaces : 0 < places) (units : Nat) :
    (partDigits places units).length = places := by
  have hfits : (natDigits (units % 10 ^ places)).length ≤ places :=
    (length_natDigits_le_iff hplaces).mpr (Nat.mod_lt _ (Nat.pow_pos (by omega)))
  unfold partDigits
  rw [List.length_append, List.length_replicate]
  omega

theorem ofDigits_partDigits (places units : Nat) :
    ofDigits (partDigits places units) = units % 10 ^ places := by
  unfold partDigits
  rw [ofDigits_append, ofDigits_replicate_zero, ofDigits_natDigits, Nat.mul_zero, Nat.zero_add]

/-- The units are found again in their digits. -/
theorem readUnits?_fixedDigits (hplaces : 0 < places) (units : Nat) :
    readUnits? places (fixedDigits places units) = some units := by
  have hwhole : ∀ d ∈ natDigits (units / 10 ^ places), isDigit d = true :=
    fun d hd => isDigit_of_mem_natDigits hd
  have hends : EndsDigits ('.' :: partDigits places units) := by
    intro c hc
    rw [← Option.some.inj hc]
    rfl
  have hpart : (partDigits places units).all isDigit = true :=
    List.all_eq_true.mpr fun c hc => isDigit_of_mem_partDigits hc
  unfold readUnits?
  rw [fixedDigits_eq, takeWhile_digits hwhole hends, dropWhile_digits hwhole hends]
  refine (if_pos ⟨natDigits_ne_nil, length_partDigits hplaces units, hpart⟩).trans ?_
  rw [ofDigits_append, length_partDigits hplaces, ofDigits_natDigits, ofDigits_partDigits,
    Nat.div_add_mod]

/-! ## Texts -/

/-- The digits in front of the point are a number, and a number has at least one digit. -/
theorem exists_fixedDigits (places units : Nat) :
    ∃ d ds, fixedDigits places units = d :: ds ∧ isDigit d = true := by
  obtain ⟨d, ds, hds⟩ := List.exists_cons_of_ne_nil (@natDigits_ne_nil (units / 10 ^ places))
  refine ⟨d, ds ++ '.' :: partDigits places units, ?_, ?_⟩
  · rw [fixedDigits_eq, hds, List.cons_append]
  · exact isDigit_of_mem_natDigits (hds ▸ List.mem_cons_self ..)

theorem splitMinus_of_isDigit {d : Char} (hd : isDigit d = true) (ds : List Char) :
    splitMinus (d :: ds) = (false, d :: ds) := by
  unfold splitMinus
  split
  · next heq =>
    exact absurd (List.cons.inj heq).1 (ne_of_isDigit hd rfl)
  · rfl

/-- Digits with a point are read behind a minus sign or none. -/
theorem readPlaces?_finite (hplaces : 0 < places) (negative : Bool) (units : Nat) :
    readPlaces? places ((if negative then ['-'] else []) ++ fixedDigits places units)
      = some (.finite negative units) := by
  have hunits := readUnits?_fixedDigits hplaces units
  obtain ⟨d, ds, hds, hd⟩ := exists_fixedDigits places units
  rw [hds] at hunits ⊢
  -- no name begins with a digit
  have hname (c : Char) (cs : List Char) (hc : isDigit c = false) : d :: ds ≠ c :: cs :=
    fun heq => ne_of_isDigit hd hc (List.cons.inj heq).1
  have hbody (negative : Bool) : (if d :: ds = ['i', 'n', 'f'] then some (.infinite negative)
      else (readUnits? places (d :: ds)).map (Rounded.finite negative))
        = some (.finite negative units) := by
    rw [if_neg (hname _ _ rfl), hunits, Option.map_some]
  cases negative with
  | true => exact hbody true
  | false =>
    rw [if_neg Bool.false_ne_true, List.nil_append, readPlaces?, if_neg (hname _ _ rfl),
      splitMinus_of_isDigit hd]
    exact hbody false

/-- A number with a fixed number of places is read back as what rounding has left of it. -/
theorem readPlaces?_fixedChars (hplaces : 0 < places) (x : Float) :
    readPlaces? places (fixedChars places x) = some (Rounded.ofFloat places x) := by
  unfold fixedChars Rounded.ofFloat
  cases Binary.ofFloat x with
  | nan => rfl
  | infinite negative => cases negative <;> rfl
  | finite negative mantissa exponent => exact readPlaces?_finite hplaces negative _

/-- The characters of a number: digits, a point, a minus sign, and the letters of the names. -/
def isPlain (c : Char) : Bool := isDigit c || ['.', '-', 'N', 'a', 'i', 'n', 'f'].contains c

theorem isPlain_of_isDigit {c : Char} (hc : isDigit c = true) : isPlain c = true := by
  unfold isPlain
  rw [hc]
  rfl

/-- A text of a float is made of plain characters. -/
theorem isPlain_of_mem_fixedChars {c : Char} (hc : c ∈ fixedChars places x) : isPlain c = true := by
  have hsign (negative : Bool) (hc : c ∈ if negative then ['-'] else []) : isPlain c = true := by
    cases negative with
    | false => exact absurd hc List.not_mem_nil
    | true =>
      rw [List.mem_singleton.mp hc]
      rfl
  unfold fixedChars at hc
  cases hx : Binary.ofFloat x with
  | nan =>
    rw [hx] at hc
    exact List.all_eq_true.mp (show ['N', 'a', 'N'].all isPlain = true from rfl) c hc
  | infinite negative =>
    rw [hx] at hc
    rcases List.mem_append.mp hc with hminus | hname
    · exact hsign negative hminus
    · exact List.all_eq_true.mp (show ['i', 'n', 'f'].all isPlain = true from rfl) c hname
  | finite negative mantissa exponent =>
    rw [hx] at hc
    dsimp only at hc
    rw [fixedDigits_eq, List.mem_append, List.mem_append, List.mem_cons] at hc
    rcases hc with hminus | hwhole | rfl | hpart
    · exact hsign negative hminus
    · exact isPlain_of_isDigit (isDigit_of_mem_natDigits hwhole)
    · rfl
    · exact isPlain_of_isDigit (isDigit_of_mem_partDigits hpart)

/-! ## Order -/

/-- How many units of the last place some grains come to. -/
def unitsOfGrains (places : Nat) (g : Int) : Int :=
  if 0 ≤ g then roundHalfEven (g.toNat * 10 ^ places) grainsOfOne
  else -(roundHalfEven ((-g).toNat * 10 ^ places) grainsOfOne : Int)

theorem unitsOfGrains_mono {g g' : Int} (h : g ≤ g') :
    unitsOfGrains places g ≤ unitsOfGrains places g' := by
  have hround {m n : Nat} (hmn : m ≤ n) : roundHalfEven (m * 10 ^ places) grainsOfOne
      ≤ roundHalfEven (n * 10 ^ places) grainsOfOne :=
    roundHalfEven_mono grainsOfOne_pos grainsOfOne_pos
      (Nat.mul_le_mul_right _ (Nat.mul_le_mul_right _ hmn))
  unfold unitsOfGrains
  split
  · next hg =>
    rw [if_pos (hg.trans h)]
    exact_mod_cast hround (Int.toNat_le_toNat h)
  · next hg =>
    split
    · omega
    · have hle := hround (Int.toNat_le_toNat (neg_le_neg h))
      omega

/-- The units of a magnitude are those of its grains. -/
theorem fixedUnits_eq {m : Nat} {e : Int} (he : -1074 ≤ e) :
    fixedUnits places m e
      = roundHalfEven (m * 2 ^ (e + 1074).toNat * 10 ^ places) grainsOfOne := by
  refine roundHalfEven_congr (Nat.pow_pos (by omega)) grainsOfOne_pos ?_
  unfold grainsOfOne powerUp powerDown
  generalize hg : 1074 = g
  have hexponents : e.toNat + g = (e + 1074).toNat + (-e).toNat := by omega
  calc m * 2 ^ e.toNat * 10 ^ places * 2 ^ g
      = m * 10 ^ places * 2 ^ (e.toNat + g) := by
        rw [Nat.pow_add]
        ring
    _ = m * 2 ^ (e + 1074).toNat * 10 ^ places * 2 ^ (-e).toNat := by
        rw [hexponents, Nat.pow_add]
        ring

theorem unitsOfGrains_natCast (n : Nat) :
    unitsOfGrains places n = roundHalfEven (n * 10 ^ places) grainsOfOne := by
  unfold unitsOfGrains
  rw [if_pos (Int.natCast_nonneg n), Int.toNat_natCast]

theorem unitsOfGrains_neg_natCast (n : Nat) :
    unitsOfGrains places (-n) = -(roundHalfEven (n * 10 ^ places) grainsOfOne : Int) := by
  rcases Nat.eq_zero_or_pos n with rfl | hpos
  · have hzero := roundHalfEven_mul_self 0 grainsOfOne_pos
    rw [Nat.zero_mul] at hzero
    rw [Int.natCast_zero, Int.neg_zero, ← Int.natCast_zero, unitsOfGrains_natCast, Nat.zero_mul,
      hzero]
    rfl
  · unfold unitsOfGrains
    rw [if_neg (by omega), Int.neg_neg, Int.toNat_natCast]

/-- What is left of a finite float is its sign and the number of units nearest to its value, and
the even one if two are as near. -/
theorem Rounded.ofFloat_eq_finite_iff {negative : Bool} {units : Nat} :
    Rounded.ofFloat places x = .finite negative units
      ↔ ∃ n, IsSigned x negative n ∧ IsHalfEven (n * 10 ^ places) grainsOfOne units := by
  constructor
  · intro h
    unfold Rounded.ofFloat at h
    cases hx : Binary.ofFloat x with
    | nan => simp [hx] at h
    | infinite => simp [hx] at h
    | finite s m e =>
      rw [hx] at h
      obtain ⟨rfl, hunits⟩ := Rounded.finite.inj h
      rw [fixedUnits_eq (bounds_of_ofFloat hx).2.1] at hunits
      exact ⟨_, ⟨⟨m, e, hx⟩, grains_of_ofFloat hx⟩,
        (roundHalfEven_eq_iff grainsOfOne_pos).mp hunits⟩
  · rintro ⟨n, ⟨⟨m, e, hx⟩, hgrains⟩, hunits⟩
    -- a float has its grains only
    have hn : m * 2 ^ (e + 1074).toNat = n := by
      rw [grains_of_ofFloat hx] at hgrains
      split_ifs at hgrains <;> omega
    rw [← hn, ← roundHalfEven_eq_iff grainsOfOne_pos, ← fixedUnits_eq (bounds_of_ofFloat hx).2.1]
      at hunits
    unfold Rounded.ofFloat
    rw [hx, ← hunits]

/-- A finite float has the value of the units of its grains. -/
theorem value?_ofFloat (places : Nat) (hx : x.isFinite = true) :
    (Rounded.ofFloat places x).value? places
      = some ((unitsOfGrains places (grains x) : ℚ) / 10 ^ places) := by
  obtain ⟨negative, m, e, hparts⟩ := isFinite_iff_ofFloat.mp hx
  have hunits : fixedUnits places m e = _ := fixedUnits_eq (bounds_of_ofFloat hparts).2.1
  unfold Rounded.ofFloat
  rw [hparts, grains_of_ofFloat hparts]
  show some _ = some _
  rw [hunits]
  cases negative with
  | false =>
    rw [if_neg Bool.false_ne_true, if_neg Bool.false_ne_true, unitsOfGrains_natCast]
    push_cast
    rfl
  | true =>
    rw [if_pos rfl, if_pos rfl, unitsOfGrains_neg_natCast]
    push_cast
    rfl

/-- What a greater float is written as is no lesser number. -/
theorem exactValue?_mono (hplaces : 0 < places) (hx : x.isFinite = true) (hy : y.isFinite = true)
    (h : x ≤ y) : ∃ v w, exactValue? places (fixedChars places x) = some v
      ∧ exactValue? places (fixedChars places y) = some w ∧ v ≤ w := by
  rw [le_iff_grains (isNaN_of_isFinite hx) (isNaN_of_isFinite hy)] at h
  unfold exactValue?
  rw [readPlaces?_fixedChars hplaces, readPlaces?_fixedChars hplaces, Option.bind_some,
    Option.bind_some, value?_ofFloat places hx, value?_ofFloat places hy]
  refine ⟨_, _, rfl, rfl, ?_⟩
  gcongr
  exact unitsOfGrains_mono h

end TriggerLatency.Decimal
