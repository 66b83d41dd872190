import TriggerLatency.Proofs.Decimal.Interval
import TriggerLatency.Proofs.Double.Scientific
import TriggerLatency.Proofs.Json.Number

/-!
# Reading the nearest float

What is read from a number is its value, correctly rounded: `readFloat?_eq` finds the digits and the
power of ten, and `isRounded_roundDecimal` rounds them, for all digits and all powers below the cap.

The text of a finite float is such a number. Its value lies in the rounding interval of the float,
so that the float itself is read, bit for bit (`readFloat?_chars`), and so it would be by anything
else that rounds correctly (`isNearest_iff`).
-/

namespace TriggerLatency.Decimal

open Double Json
open Float.Model (UnpackedFloat)
open Float.Model.UnpackedFloat (Sign)

variable {m : Nat} {e : Int} {x y : Float} {negative : Bool}

/-! ## Rounding -/

/-- Each place behind the point takes less than four bits away. -/
theorem two_pow_mul_ten_pow_le {k n : Nat} (h : n + 4 * k ≤ m.log2) (hm : m ≠ 0) :
    2 ^ n * 10 ^ k ≤ m := by
  calc 2 ^ n * 10 ^ k ≤ 2 ^ n * (2 ^ 4) ^ k :=
        Nat.mul_le_mul_left _ (Nat.pow_le_pow_left (by omega) k)
    _ = 2 ^ (n + 4 * k) := by rw [← Nat.pow_mul, ← Nat.pow_add]
    _ ≤ 2 ^ m.log2 := Nat.pow_le_pow_right (by omega) h
    _ ≤ m := Nat.log2_self_le hm

/-- A decimal is correctly rounded, also where its length alone shows that it is infinite. -/
theorem isRounded_roundDecimal (m : Nat) (e : Int) : IsRounded (roundDecimal m e) m e := by
  unfold roundDecimal
  split_ifs with hgreat hwhole
  · have hinfinity : (1.0 / 0.0 : Float) = infinity := rfl
    have hm : m ≠ 0 := by
      intro hzero
      rw [hzero, Nat.log2_zero] at hgreat
      omega
    have hlarge := two_pow_mul_ten_pow_le (k := (-e).toNat) (n := 1024) (by omega) hm
    rw [hinfinity]
    refine ⟨isNaN_infinity, ?_⟩
    rw [grains_infinity, decimalGrains_of_great]
    exact Nat.le_trans hlarge (Nat.le_mul_of_pos_right m (Nat.pow_pos (by omega)))
  · have h := isRounded_ofScientific m false e.toNat
    rwa [if_neg Bool.false_ne_true, Int.toNat_of_nonneg hwhole] at h
  · have h := isRounded_ofScientific m true (-e).toNat
    rwa [if_pos rfl, Int.toNat_of_nonneg (by omega), Int.neg_neg] at h

/-! ## Numerals -/

/-- Below the cap the power of ten is the number that its digits write. -/
theorem exponentValue_eq {ds : List Char} (h : ofDigits ds < exponentCap) :
    exponentValue ds = ofDigits ds := by
  unfold exponentValue
  rw [ofDigits_eq_foldl] at h ⊢
  induction ds using List.reverseRecOn with
  | nil => rfl
  | append_singleton ds d ih =>
    rw [List.foldl_append, List.foldl_cons, List.foldl_nil] at h
    rw [List.foldl_append, List.foldl_append, ih (by omega), List.foldl_cons, List.foldl_cons,
      List.foldl_nil, List.foldl_nil, if_pos (by omega)]

variable {token ending : List Char} {exponent : Option Int} {p : Parts}

theorem readExponent?_eq (h : SpellsExponent ending exponent)
    (hsmall : ∀ k, exponent = some k → k.natAbs < exponentCap) :
    readExponent? ending = some (exponent.getD 0) := by
  cases h with
  | none => rfl
  | @some mark sign ds negative hmark hsign hne hds =>
    have hvalue : exponentValue ds = Nat.ofDigitChars 10 ds 0 := by
      have hcap := hsmall _ rfl
      have hdigits := ofDigits_eq_ofDigitChars ds
      refine (exponentValue_eq ?_).trans hdigits
      split at hcap <;> omega
    have hsplit : splitSign (sign ++ ds) = (negative, ds) := by
      have h := splitSign_append hsign hne hds []
      rwa [List.append_nil] at h
    rw [readExponent?, if_pos hmark, readSigned?, hsplit]
    dsimp only
    rw [if_pos ⟨hne, List.all_eq_true.mpr hds⟩, hvalue, Option.getD_some]

/-- A numeral without its sign is read as its value, correctly rounded. -/
theorem readUnsigned?_eq (hp : p.WellFormed) (hending : SpellsExponent ending p.exponent)
    (hsmall : ∀ k, p.exponent = some k → k.natAbs < exponentCap) :
    readUnsigned? (p.whole ++ (fractionText p.fraction ++ ending))
      = some (roundDecimal p.significand p.power) := by
  have hends : EndsDigits ending := by
    have h := hending.endsDigits endsNumeral_nil
    rwa [List.append_nil] at h
  have hrest : EndsDigits (fractionText p.fraction ++ ending) := by
    have h := endsDigits_fractionText p.fraction hending endsNumeral_nil
    rwa [List.append_nil] at h
  have hsignificand : ofDigits (p.whole ++ p.fraction.getD []) = p.significand :=
    ofDigits_eq_ofDigitChars _
  have hwhole : ∀ ds : List Char, ¬ (p.whole = [] ∧ ds = []) := fun _ h => hp.whole.ne_nil h.1
  unfold readUnsigned? Parts.power
  rw [takeWhile_digits hp.whole.digits hrest, dropWhile_digits hp.whole.digits hrest,
    ← hsignificand]
  -- the digits end at the point, or else where the number does
  cases hfraction : p.fraction with
  | some ds =>
    have hds := (hp.fraction ds hfraction).2
    simp only [fractionText, List.cons_append, takeWhile_digits hds hends,
      dropWhile_digits hds hends, if_neg (hwhole ds), readExponent?_eq hending hsmall]
    rfl
  | none =>
    have hpoint := hending.ne_point
    have hread := readExponent?_eq hending hsmall
    rw [fractionText, List.nil_append]
    simp [hp.whole.ne_nil, hread]

/-- A number is read as its value, correctly rounded, under its sign. -/
theorem readFloat?_eq (h : SpellsNumber token negative p)
    (hsmall : ∀ k, p.exponent = some k → k.natAbs < exponentCap) :
    readFloat? token = some (if negative then -roundDecimal p.significand p.power
      else roundDecimal p.significand p.power) := by
  obtain ⟨ending, hending, htoken⟩ := h.token_eq
  have hwhole := h.wellFormed.whole
  have hsplit : splitSign token
      = (negative, p.whole ++ (fractionText p.fraction ++ ending)) := by
    rw [htoken]
    cases negative with
    | true => exact splitSign_append .minus hwhole.ne_nil hwhole.digits _
    | false => exact splitSign_append .none hwhole.ne_nil hwhole.digits _
  rw [readFloat?, hsplit]
  dsimp only
  rw [readUnsigned?_eq h.wellFormed hending hsmall]
  rfl

/-! ## Floats by their parts -/

/-- The value that has the parts of a finite float. -/
def unpacked (negative : Bool) (m : Nat) (e : Int) : UnpackedFloat :=
  let sign := if negative then Sign.negative else Sign.positive
  if h : m = 0 then .zero sign else .finite sign m e (Nat.pos_of_ne_zero h)

/-- A finite float unpacks to it. -/
theorem unpack_of_ofFloat (h : Binary.ofFloat x = .finite negative m e) :
    x.toModel.unpack = unpacked negative m e := by
  unfold Binary.ofFloat at h
  unfold unpacked
  cases hx : x.toModel.unpack with
  | notANumber => simp [hx] at h
  | infinity s => simp [hx] at h
  | zero s =>
    rw [hx] at h
    obtain ⟨rfl, rfl, -⟩ := Binary.finite.inj h
    cases s <;> rfl
  | finite s m' e' hm =>
    rw [hx] at h
    obtain ⟨rfl, rfl, rfl⟩ := Binary.finite.inj h
    rw [dif_neg hm.ne']
    cases s <;> rfl

/-- The parts of a finite float tell which it is. -/
theorem eq_of_ofFloat (hx : Binary.ofFloat x = .finite negative m e)
    (hy : Binary.ofFloat y = .finite negative m e) : x = y :=
  float_eq_of_unpack_eq ((unpack_of_ofFloat hx).trans (unpack_of_ofFloat hy).symm)

theorem ofFloat_neg (h : Binary.ofFloat x = .finite negative m e) :
    Binary.ofFloat (-x) = .finite (!negative) m e := by
  have hneg : (-x).toModel.unpack = x.toModel.unpack.neg := by
    have hcanonical : Canonical x.toModel.unpack.neg := by
      have hx := canonical_toModel x
      cases hu : x.toModel.unpack <;> rw [hu] at hx <;> exact hx
    exact unpack_pack hcanonical
  unfold Binary.ofFloat at h ⊢
  rw [hneg]
  cases hx : x.toModel.unpack with
  | notANumber => simp [hx] at h
  | infinity s => simp [hx] at h
  | zero s =>
    rw [hx] at h
    obtain ⟨rfl, rfl, rfl⟩ := Binary.finite.inj h
    cases s <;> rfl
  | finite s m' e' hm =>
    rw [hx] at h
    obtain ⟨rfl, rfl, rfl⟩ := Binary.finite.inj h
    cases s <;> rfl

/-- The grains of a finite float. -/
theorem grains_of_ofFloat (h : Binary.ofFloat x = .finite negative m e) :
    grains x = if negative then -((m * 2 ^ (e + 1074).toNat : Nat) : Int)
      else (m * 2 ^ (e + 1074).toNat : Nat) := by
  rw [grains, unpack_of_ofFloat h, unpacked]
  split_ifs with hzero hneg hneg
  · rw [hzero, Nat.zero_mul]
    rfl
  · rw [hzero, Nat.zero_mul]
    rfl
  · rfl
  · rfl

/-- A positive mantissa is full, unless its exponent is the least one. -/
theorem full_of_ofFloat (h : Binary.ofFloat x = .finite negative m e) (hm : 0 < m) :
    2 ^ 52 ≤ m ∨ e = -1074 := by
  have hcanonical := canonical_toModel x
  rw [unpack_of_ofFloat h, unpacked, dif_neg hm.ne'] at hcanonical
  exact hcanonical.2.2.2

theorem neg_neg_of_ofFloat (h : Binary.ofFloat x = .finite negative m e) : - -x = x := by
  have hneg := ofFloat_neg (ofFloat_neg h)
  rw [Bool.not_not] at hneg
  exact eq_of_ofFloat hneg h

/-- Its sign and its grains tell a finite float. -/
theorem eq_of_grains_eq {m' : Nat} {e' : Int} (hx : Binary.ofFloat x = .finite negative m e)
    (hy : Binary.ofFloat y = .finite negative m' e') (h : grains x = grains y) : x = y := by
  have hnan : ∀ {z : Float} {negative : Bool} {m : Nat} {e : Int},
      Binary.ofFloat z = .finite negative m e → z.isNaN = false := fun hz =>
    isNaN_of_isFinite (isFinite_iff_ofFloat.mpr ⟨_, _, _, hz⟩)
  have hgrains := h
  rw [grains_of_ofFloat hx, grains_of_ofFloat hy] at hgrains
  rcases Nat.eq_zero_or_pos m with rfl | hm
  · -- there is one zero of each sign
    have hzero : m' * 2 ^ (e' + 1074).toNat = 0 := by
      split_ifs at hgrains <;> omega
    obtain rfl := (Nat.mul_eq_zero.mp hzero).resolve_right (Nat.two_pow_pos _).ne'
    refine float_eq_of_unpack_eq ?_
    rw [unpack_of_ofFloat hx, unpack_of_ofFloat hy]
    rfl
  · have hpos : 0 < m * 2 ^ (e + 1074).toNat := Nat.mul_pos hm (Nat.two_pow_pos _)
    cases negative with
    | false =>
      refine float_eq_of_grains_eq (hnan hx) (hnan hy) ?_ h
      rw [grains_of_ofFloat hx, if_neg Bool.false_ne_true]
      omega
    | true =>
      -- below zero their negations are equal
      have hx' := ofFloat_neg hx
      have hy' := ofFloat_neg hy
      rw [if_pos rfl, if_pos rfl] at hgrains
      have hneg : -x = -y := by
        refine float_eq_of_grains_eq (hnan hx') (hnan hy') ?_ ?_
        · rw [grains_of_ofFloat hx', if_neg (by decide)]
          omega
        · rw [grains_of_ofFloat hx', grains_of_ofFloat hy', if_neg (by decide),
            if_neg (by decide)]
          omega
      rw [← neg_neg_of_ofFloat hx, hneg, neg_neg_of_ofFloat hy]

/-! ## The text of a float -/

/-- A zero behind the point changes nothing. -/
theorem decimalGrains_spelled (s : Scaled) :
    decimalGrains (spelled s).digits (spelled s).exponent = decimalGrains s.digits s.exponent := by
  by_cases hwhole : 0 ≤ s.exponent ∧ s.exponent + (natDigits s.digits).length - 1 < 16
  · rw [spelled_of_whole hwhole.1 hwhole.2]
    have hnearest : nearest (s.digits * 10 ^ (s.exponent.toNat + 1) * grainsOfOne) 10
        = nearest (s.digits * 10 ^ s.exponent.toNat * grainsOfOne) 1 :=
      nearest_congr (by omega) Nat.one_pos (by ring)
    have hpower : (-s.exponent).toNat = 0 := by omega
    have hten : (-(-1 : Int)).toNat = 1 := rfl
    have hone : (-1 : Int).toNat = 0 := rfl
    simp only [decimalGrains, hpower, hten, hone, Nat.pow_zero, Nat.pow_one, Nat.mul_one, hnearest]
  · rw [spelled_eq_self (by omega)]

/-- The decimal in the text of a float is rounded to it. -/
theorem decimalGrains_spelledBinary (hx : Binary.ofFloat x = .finite negative m e) :
    decimalGrains (spelledBinary m e).digits (spelledBinary m e).exponent
      = m * 2 ^ (e + 1074).toNat := by
  obtain ⟨hbits, hlow, hhigh⟩ := bounds_of_ofFloat hx
  unfold spelledBinary
  split_ifs with hzero
  · rw [hzero, Nat.zero_mul]
    exact decimalGrains_zero _
  · have hm : 0 < m := Nat.pos_of_ne_zero hzero
    have hnearest := nearest_eq_of_contains hm hbits hlow (full_of_ofFloat hx hm)
      (by omega : (shortest .toEven m e).exponent + ((-(shortest .toEven m e).exponent).toNat : Nat)
        = ((shortest .toEven m e).exponent.toNat : Nat))
      (shortest_contains .toEven hm hbits hlow hhigh)
    rw [decimalGrains_spelled, decimalGrains, hnearest]
    exact Nat.min_eq_left (magnitude_lt hbits hlow hhigh).le

/-- A finite float is the double nearest to `m * 10 ^ e` under a sign, which a zero has as well. -/
structure IsNearestDouble (x : Float) (negative : Bool) (m : Nat) (e : Int) : Prop where
  sign : ∃ mantissa exponent, Binary.ofFloat x = .finite negative mantissa exponent
  grains_eq : grains x = if negative then -(decimalGrains m e : Int) else decimalGrains m e

variable {p : Parts}

/-- What the text of a float spells is nearest to that float alone. -/
theorem isNearest_iff (hx : Binary.ofFloat x = .finite negative m e) (hp : SpellsMagnitude p m e) :
    IsNearestDouble y negative p.significand p.power ↔ y = x := by
  have hgrains := decimalGrains_spelledBinary hx
  rw [← hp.significand, ← hp.power] at hgrains
  constructor
  · intro hy
    obtain ⟨m', e', hy'⟩ := hy.sign
    refine eq_of_grains_eq hy' hx ?_
    rw [hy.grains_eq, grains_of_ofFloat hx, hgrains]
  · intro heq
    refine ⟨⟨m, e, heq ▸ hx⟩, ?_⟩
    rw [heq, grains_of_ofFloat hx, hgrains]

/-- What is read without the sign has none. -/
theorem exists_ofFloat_roundDecimal (hx : Binary.ofFloat x = .finite negative m e)
    (hp : SpellsMagnitude p m e) :
    ∃ m' e', Binary.ofFloat (roundDecimal p.significand p.power) = .finite false m' e' := by
  obtain ⟨hbits, hlow, hhigh⟩ := bounds_of_ofFloat hx
  have hgrains := decimalGrains_spelledBinary hx
  rw [← hp.significand, ← hp.power] at hgrains
  rcases Nat.eq_zero_or_pos m with rfl | hm
  · have hspelled : spelledBinary 0 e = ⟨0, -1⟩ := if_pos rfl
    rw [hp.significand, hp.power, hspelled]
    exact ⟨0, 0, by decide +kernel⟩
  · obtain ⟨hnan, hround⟩ := isRounded_roundDecimal p.significand p.power
    rw [hgrains] at hround
    have hy := hasGrains_of_grains hnan hround (Nat.mul_pos hm (Nat.two_pow_pos _))
      (magnitude_lt hbits hlow hhigh)
    obtain ⟨m', e', hm', hunpack, -⟩ := hy.exists_unpack
    refine ⟨m', e', ?_⟩
    unfold Binary.ofFloat
    rw [hunpack]
    rfl

/-- A finite float is read back from its text, bit for bit. -/
theorem readFloat?_chars (hx : x.isFinite = true) : readFloat? (Layout.data.chars x) = some x := by
  obtain ⟨negative, m, e, p, hparts, hp, hnumber⟩ := exists_spellsNumber hx
  have hsmall : ∀ k, p.exponent = some k → k.natAbs < exponentCap := fun k hk =>
    Nat.lt_trans (hp.exponent_small k hk) (by decide)
  rw [readFloat?_eq hnumber hsmall]
  refine congrArg some ((isNearest_iff hparts hp).mp ?_)
  obtain ⟨m', e', hround⟩ := exists_ofFloat_roundDecimal hparts hp
  have hgrains := (isRounded_roundDecimal p.significand p.power).grains_eq
  cases negative with
  | false => exact ⟨⟨m', e', hround⟩, hgrains⟩
  | true =>
    have hneg := ofFloat_neg hround
    refine ⟨⟨m', e', hneg⟩, ?_⟩
    rw [if_pos rfl, if_pos rfl, ← hgrains, grains_of_ofFloat hneg, grains_of_ofFloat hround]
    rfl

end TriggerLatency.Decimal
