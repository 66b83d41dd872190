import TriggerLatency.Proofs.Decimal.Signed

/-!
# What a number is worth

A number is read into a significand of at most 64 bits, which takes as many of its digits as fit
(`Appends`), and a power of ten. What it is worth is said in exact grains (`Parts.IsWorth`): the
significand and the power are each rounded to a double, and then their product or quotient is; below
`10 ^ -308` there are two quotients (`scaledGrains`). The reader gives that float, with its sign, or
refuses a number that is out of range (`isWorth_iff`).

Where the significand has less than 54 bits and the power is small, all is exact but the last step,
so the float is the nearest one (`isWorth_iff_isNearest`).
-/

namespace TriggerLatency.Json

open Decimal Double

/-! ## The digits that are taken -/

/-- Digits are appended to `n` as long as the number fits into 64 bits: the first `taken` of them
make it `m`. -/
structure Appends (n : Nat) (ds : List Char) (m taken : Nat) : Prop where
  le_length : taken ≤ ds.length
  value : m = Nat.ofDigitChars 10 (ds.take taken) n
  fits : m < 2 ^ 64
  full : taken < ds.length → 2 ^ 64 ≤ Nat.ofDigitChars 10 (ds.take (taken + 1)) n

section

variable {n m taken m' taken' : Nat} {ds : List Char}

/-- The gathered digits are appended. -/
theorem appends_gather (ds : List Char) (hn : n < 2 ^ 64) :
    Appends n ds (gather n ds).1 (gather n ds).2 := by
  induction ds generalizing n with
  | nil => exact ⟨Nat.le_refl 0, rfl, hn, fun h => absurd h (Nat.lt_irrefl 0)⟩
  | cons d ds ih =>
    rw [gather]
    by_cases hd : n * 10 + digitValue d < Nat.pow 2 64
    · obtain ⟨hle, hvalue, hfits, hfull⟩ := ih hd
      rw [if_pos hd]
      refine ⟨Nat.succ_le_succ hle, ?_, hfits, fun h => ?_⟩
      · rw [List.take_succ_cons, ofDigitChars_cons]
        exact hvalue
      · rw [List.take_succ_cons, ofDigitChars_cons]
        exact hfull (Nat.lt_of_succ_lt_succ h)
    · rw [if_neg hd]
      refine ⟨Nat.zero_le _, rfl, hn, fun _ => ?_⟩
      rw [List.take_succ_cons, ofDigitChars_cons]
      exact Nat.not_lt.mp hd

/-- Fewer digits are not enough if one more of them fits. -/
theorem Appends.taken_le (h : Appends n ds m taken) (h' : Appends n ds m' taken') :
    taken' ≤ taken := by
  by_contra hlt
  have hle : taken + 1 ≤ taken' := by omega
  have hfull := h.full (Nat.lt_of_lt_of_le hle h'.le_length)
  have hfits := h'.fits
  rw [h'.value, ← List.take_append_drop (taken + 1) (ds.take taken'), List.take_take,
    Nat.min_eq_left hle, Nat.ofDigitChars_append] at hfits
  exact absurd (Nat.lt_of_le_of_lt (le_ofDigitChars _ _) hfits) (Nat.not_lt.mpr hfull)

theorem appends_iff (hn : n < 2 ^ 64) : Appends n ds m taken ↔ gather n ds = (m, taken) := by
  have hgather := appends_gather ds hn
  constructor
  · intro h
    have htaken : taken = (gather n ds).2 :=
      Nat.le_antisymm (hgather.taken_le h) (h.taken_le hgather)
    have hvalue : m = (gather n ds).1 := by rw [h.value, htaken, ← hgather.value]
    rw [hvalue, htaken]
  · intro h
    rwa [h] at hgather

end

/-! ## The power of ten -/

/-- The grains of the double nearest to a natural number. -/
def natGrains (n : Nat) : Nat := nearest (n * grainsOfOne) 1

/-- The grains of what is read from a significand and a power of ten. -/
def scaledGrains (m : Nat) (k : Int) : Nat :=
  if -308 ≤ k then nearest (natGrains m * natGrains (10 ^ k.toNat)) (natGrains (10 ^ (-k).toNat))
  else nearest (nearest (natGrains m * grainsOfOne) (natGrains (10 ^ 308)) * grainsOfOne)
    (natGrains (10 ^ (-k - 308).toNat))

section

variable {m n : Nat} {k : Int} {x : Float}

theorem natGrains_zero : natGrains 0 = 0 := by
  rw [natGrains, Nat.zero_mul, nearest_eq_zero (by omega)]

theorem natGrains_one : natGrains 1 = grainsOfOne := by
  rw [natGrains, nearest_mul_grainsOfOne Nat.one_pos (by omega), Nat.one_mul]

theorem natGrains_mono (h : m ≤ n) : natGrains m ≤ natGrains n := nearest_natCast_mono h

theorem natGrains_pow_mono {i j : Nat} (h : i ≤ j) : natGrains (10 ^ i) ≤ natGrains (10 ^ j) :=
  natGrains_mono (Nat.pow_le_pow_right Nat.succ_pos' h)

theorem grainsOfOne_le_natGrains (h : 0 < n) : grainsOfOne ≤ natGrains n := grainsOfOne_le_nearest h

theorem isSigned_ofNat (hm : m < 2 ^ 64) : IsSigned (Float.ofNat m) false (natGrains m) := by
  rcases Nat.eq_zero_or_pos m with rfl | hpos
  · rw [natGrains_zero]
    exact isSigned_zero
  · exact (hasGrains_ofNat_nearest hpos hm).isSigned

/-- The powers of ten of the table are the nearest doubles. -/
theorem hasGrains_powerOfTen {k : Nat} (hk : k ≤ 308) :
    HasGrains (powerOfTen k) (natGrains (10 ^ k)) := by
  obtain ⟨hnan, hgrains⟩ := isRounded_ofScientific 1 false k
  -- the greatest power bounds the others
  have hlast : ∀ k < 309, 308 ≤ k → natGrains (10 ^ k) < grainsOfInfinity := by decide +kernel
  have hlt := Nat.lt_of_le_of_lt (natGrains_pow_mono hk) (hlast 308 (by omega) (Nat.le_refl 308))
  have hten : 0 < 10 ^ k := Nat.pow_pos (by omega)
  rw [if_neg Bool.false_ne_true, decimalGrains, Int.toNat_natCast, Nat.one_mul,
    show (-(k : Int)).toNat = 0 by omega, Nat.pow_zero, ← natGrains, Nat.min_eq_left hlt.le]
    at hgrains
  exact hasGrains_of_grains hnan hgrains
    (Nat.lt_of_lt_of_le grainsOfOne_pos (grainsOfOne_le_natGrains hten)) hlt

/-- What is without a minus sign and in range is the float with its grains. -/
theorem ok_iff_isSigned {y : Float} {g : Nat} (h : RoundsTo y g) (hg : g < grainsOfInfinity) :
    (Except.ok y : Except Fault Float) = .ok x ↔ IsSigned x false g := by
  have hy := h.isSigned hg
  rw [Except.ok.injEq]
  exact ⟨fun heq => heq ▸ hy, fun hx => hy.unique hx⟩

/-- Dividing by one or more leaves a number in range. -/
theorem nearest_quotient_lt {a b : Nat} (hx : IsSigned x false a) (hb : grainsOfOne ≤ b) :
    nearest (a * grainsOfOne) b < grainsOfInfinity := by
  refine Nat.lt_of_le_of_lt ?_ hx.lt_infinity
  have hbpos := Nat.lt_of_lt_of_le grainsOfOne_pos hb
  rcases Nat.eq_zero_or_pos a with rfl | ha
  · rw [Nat.zero_mul, nearest_eq_zero hbpos]
  · calc nearest (a * grainsOfOne) b
        ≤ nearest a 1 := nearest_mono hbpos Nat.one_pos
            (by rw [Nat.mul_one]; exact Nat.mul_le_mul_left a hb)
      _ = a := (hx.hasGrains ha).nearest_self

/-- A significand that is not zero is out of range with a greater power than those of the table. -/
theorem le_scaledGrains (hm : 0 < m) (hk : 308 < k) : grainsOfInfinity ≤ scaledGrains m k := by
  have hsame : (-k).toNat = 0 := by omega
  have hpower : grainsOfInfinity ≤ natGrains (10 ^ k.toNat) := by
    have hleast : ∀ k < 310, 309 ≤ k → grainsOfInfinity ≤ natGrains (10 ^ k) := by decide +kernel
    have hmono := natGrains_pow_mono (by omega : 309 ≤ k.toNat)
    exact Nat.le_trans (hleast 309 (by omega) (Nat.le_refl 309)) hmono
  rw [scaledGrains, if_pos (by omega), hsame, Nat.pow_zero, natGrains_one]
  refine grainsOfInfinity_le_nearest grainsOfOne_pos ?_
  rw [Nat.mul_comm]
  exact Nat.mul_le_mul (grainsOfOne_le_natGrains hm) hpower

theorem scaledGrains_zero (k : Int) : scaledGrains 0 k = 0 := by
  have hzero (j : Nat) : nearest 0 (natGrains (10 ^ j)) = 0 := nearest_eq_zero
    (Nat.lt_of_lt_of_le grainsOfOne_pos (grainsOfOne_le_natGrains (Nat.pow_pos Nat.succ_pos')))
  unfold scaledGrains
  simp only [natGrains_zero, Nat.zero_mul, hzero, ite_self]

theorem scaledGrains_natCast (m k : Nat) :
    scaledGrains m k = nearest (natGrains m * natGrains (10 ^ k)) grainsOfOne := by
  rw [scaledGrains, if_pos (by omega), Int.toNat_natCast, show (-(k : Int)).toNat = 0 by omega,
    Nat.pow_zero, natGrains_one]

/-- A first quotient by the greatest power of the table is so small that a second one is nothing. -/
theorem nearest_quotient_quotient_eq_zero (hm : m < 2 ^ 64) {j : Nat} (hj : 308 ≤ j) :
    nearest (nearest (natGrains m * grainsOfOne) (natGrains (10 ^ 308)) * grainsOfOne)
      (natGrains (10 ^ j)) = 0 := by
  have hlast : ∀ k < 309, 308 ≤ k → 2 * (nearest (natGrains (2 ^ 64) * grainsOfOne)
      (natGrains (10 ^ k)) * grainsOfOne) < natGrains (10 ^ k) := by decide +kernel
  have hgreatest := hlast 308 (by omega) (Nat.le_refl 308)
  have hpos : 0 < natGrains (10 ^ 308) := Nat.lt_of_le_of_lt (Nat.zero_le _) hgreatest
  have hmono := natGrains_pow_mono hj
  refine nearest_eq_zero ?_
  calc 2 * (nearest (natGrains m * grainsOfOne) (natGrains (10 ^ 308)) * grainsOfOne)
      ≤ 2 * (nearest (natGrains (2 ^ 64) * grainsOfOne) (natGrains (10 ^ 308)) * grainsOfOne) := by
        refine Nat.mul_le_mul_left _ (Nat.mul_le_mul_right _ (nearest_mono hpos hpos ?_))
        exact Nat.mul_le_mul_right _ (Nat.mul_le_mul_right _ (natGrains_mono hm.le))
    _ < natGrains (10 ^ 308) := hgreatest
    _ ≤ natGrains (10 ^ j) := hmono

/-- A significand and a power of ten are read as the float with their grains, or not at all if that
is out of range. -/
theorem scaled_eq_ok_iff (hm : m < 2 ^ 64) :
    scaled m k = .ok x ↔ IsSigned x false (scaledGrains m k) := by
  have hof := isSigned_ofNat hm
  have hone (j : Nat) : grainsOfOne ≤ natGrains (10 ^ j) :=
    grainsOfOne_le_natGrains (Nat.pow_pos Nat.succ_pos')
  have hfirst := RoundsTo.div hof (hasGrains_powerOfTen (Nat.le_refl 308))
  have hquotient := hfirst.isSigned (nearest_quotient_lt hof (hone 308))
  unfold scaled
  dsimp only
  split_ifs with hgreat hzero hup hinf hdown hfar
  · -- zero, whatever the power
    rw [hzero, scaledGrains_zero]
    exact ok_iff_isSigned (.of_isSigned isSigned_zero) grainsOfInfinity_pos
  · -- too great, whatever the significand
    have hle := le_scaledGrains (Nat.pos_of_ne_zero hzero) hgreat
    exact ⟨nofun, fun h => absurd h.lt_infinity (Nat.not_lt.mpr hle)⟩
  · -- a product that is out of range
    obtain ⟨j, rfl⟩ : ∃ j : Nat, k = j := ⟨k.toNat, by omega⟩
    rw [Int.toNat_natCast] at hinf
    have hproduct := RoundsTo.mul hof (hasGrains_powerOfTen (by omega : j ≤ 308))
    rw [scaledGrains_natCast]
    exact ⟨nofun, fun h => absurd (hproduct.isInf_iff.mp hinf) (Nat.not_le.mpr h.lt_infinity)⟩
  · -- a product in range
    obtain ⟨j, rfl⟩ : ∃ j : Nat, k = j := ⟨k.toNat, by omega⟩
    rw [Int.toNat_natCast] at hinf ⊢
    have hproduct := RoundsTo.mul hof (hasGrains_powerOfTen (by omega : j ≤ 308))
    rw [scaledGrains_natCast]
    exact ok_iff_isSigned hproduct (Nat.not_le.mp (hproduct.isInf_iff.not.mp hinf))
  · -- one quotient
    have hproduct := RoundsTo.div hof (hasGrains_powerOfTen (by omega : (-k).toNat ≤ 308))
    rw [scaledGrains, if_pos hdown, show k.toNat = 0 by omega, Nat.pow_zero, natGrains_one]
    exact ok_iff_isSigned hproduct (nearest_quotient_lt hof (hone _))
  · -- two quotients
    have hsecond := RoundsTo.div hquotient
      (hasGrains_powerOfTen (by omega : (-k - 308).toNat ≤ 308))
    rw [scaledGrains, if_neg hdown]
    exact ok_iff_isSigned hsecond (nearest_quotient_lt hquotient (hone _))
  · -- nothing is left of the number, however small it is
    have hsecond := RoundsTo.div hquotient (hasGrains_powerOfTen (Nat.le_refl 308))
    rw [nearest_quotient_quotient_eq_zero hm (Nat.le_refl 308)] at hsecond
    rw [scaledGrains, if_neg hdown, nearest_quotient_quotient_eq_zero hm (by omega)]
    exact ok_iff_isSigned hsecond grainsOfInfinity_pos

theorem scaledGrains_natCast_zero (hm : m < 2 ^ 64) : scaledGrains m 0 = natGrains m := by
  have hone : natGrains (10 ^ 0) = grainsOfOne := natGrains_one
  have hsame : nearest (natGrains m * grainsOfOne) grainsOfOne = nearest (natGrains m) 1 :=
    nearest_congr grainsOfOne_pos Nat.one_pos (Nat.mul_one _)
  have hcast := scaledGrains_natCast m 0
  rw [hone, hsame] at hcast
  rcases Nat.eq_zero_or_pos m with rfl | hpos
  · rw [natGrains_zero]
    exact scaledGrains_zero 0
  · exact hcast.trans (hasGrains_ofNat_nearest hpos hm).nearest_self

/-- Without a power of ten there is no other rounding than that of the significand. -/
theorem scaled_zero (hm : m < 2 ^ 64) : scaled m 0 = .ok (Float.ofNat m) := by
  rw [scaled_eq_ok_iff hm, scaledGrains_natCast_zero hm]
  exact isSigned_ofNat hm

/-- Where the significand and the power of ten are doubles both, there is one rounding. -/
theorem scaledGrains_of_small (hm : m < 2 ^ 53) (hlow : -23 < k) (hhigh : k < 23) :
    scaledGrains m k = nearest (m * 10 ^ k.toNat * grainsOfOne) (10 ^ (-k).toNat) := by
  have hpower : ∀ j < 23, natGrains (10 ^ j) = 10 ^ j * grainsOfOne := by decide +kernel
  have hten : 0 < 10 ^ (-k).toNat := Nat.pow_pos Nat.succ_pos'
  rcases Nat.eq_zero_or_pos m with rfl | hpos
  · rw [scaledGrains_zero, Nat.zero_mul, Nat.zero_mul, nearest_eq_zero hten]
  · have hself : natGrains m = m * grainsOfOne := nearest_mul_grainsOfOne hpos hm
    rw [scaledGrains, if_pos (by omega), hself, hpower _ (by omega), hpower _ (by omega)]
    exact nearest_congr (Nat.mul_pos hten grainsOfOne_pos) hten (by ring)

end

/-! ## Whole numbers -/

namespace Parts

variable {p : Parts} {negative : Bool} {x : Float}

/-- A float that is read from a number. A digit in front of the point that is not taken any more
makes up for a power of ten, and one behind it that is taken costs one. -/
def IsWorth (p : Parts) (negative : Bool) (x : Float) : Prop :=
  ∃ m taken m' taken', Appends 0 p.whole m taken ∧ Appends m (p.fraction.getD []) m' taken'
    ∧ IsSigned x negative
        (scaledGrains m' ((p.whole.length - taken : Nat) - taken' + p.exponent.getD 0))

/-- A number without fraction and power of ten is scaled by one. -/
theorem ofParts_toFloat {m taken m' taken' : Nat} (hwhole : Appends 0 p.whole m taken)
    (hfraction : Appends m (p.fraction.getD []) m' taken') :
    (Numeral.ofParts negative p.whole p.fraction p.exponent).map Numeral.toFloat
      = (scaled m' ((p.whole.length - taken : Nat) - taken' + p.exponent.getD 0)).map
          fun y => if negative then -y else y := by
  have hgather := (appends_iff (by omega)).mp hwhole
  have hgather' := (appends_iff hwhole.fits).mp hfraction
  unfold Numeral.ofParts
  rw [hgather]
  dsimp only
  by_cases hnatural : p.fraction = none ∧ p.exponent = none ∧ p.whole.length - taken = 0
  · -- the significand is the number
    rw [if_pos hnatural]
    obtain ⟨hnone, hexponent, hdropped⟩ := hnatural
    rw [hnone, Option.getD_none, gather] at hgather'
    obtain ⟨rfl, rfl⟩ := Prod.mk.inj hgather'
    rw [hexponent, hdropped, Option.getD_none]
    show _ = (scaled m 0).map _
    rw [scaled_zero hwhole.fits]
    cases negative <;> rfl
  · rw [if_neg hnatural, hgather']
    dsimp only
    generalize scaled m' _ = y
    cases y <;> rfl

/-- What a number is worth is what is read from it, and nothing is read where that is out of
range. -/
theorem isWorth_iff : p.IsWorth negative x
    ↔ ∃ n, Numeral.ofParts negative p.whole p.fraction p.exponent = .ok n ∧ n.toFloat = x := by
  have hread : ∀ {m taken m' taken' : Nat}, Appends 0 p.whole m taken →
      Appends m (p.fraction.getD []) m' taken' →
      (IsSigned x negative
          (scaledGrains m' ((p.whole.length - taken : Nat) - taken' + p.exponent.getD 0))
        ↔ ∃ n, Numeral.ofParts negative p.whole p.fraction p.exponent = .ok n ∧ n.toFloat = x) := by
    intro m taken m' taken' hwhole hfraction
    have hmap : (Numeral.ofParts negative p.whole p.fraction p.exponent).map Numeral.toFloat = _ :=
      ofParts_toFloat hwhole hfraction
    rw [isSigned_iff]
    simp only [← scaled_eq_ok_iff hfraction.fits]
    generalize scaled m' _ = y at hmap ⊢
    cases y <;> cases hn : Numeral.ofParts negative p.whole p.fraction p.exponent <;>
      simp_all [Except.map]
  constructor
  · rintro ⟨m, taken, m', taken', hwhole, hfraction, hx⟩
    exact (hread hwhole hfraction).mp hx
  · intro h
    have hwhole := appends_gather p.whole (n := 0) (by omega)
    have hfraction := appends_gather (p.fraction.getD []) hwhole.fits
    exact ⟨_, _, _, _, hwhole, hfraction, (hread hwhole hfraction).mpr h⟩

/-- A number whose digits all fit is scaled as it is written. -/
theorem isWorth_iff_isSigned (hfits : p.significand < 2 ^ 64) :
    p.IsWorth negative x ↔ IsSigned x negative (scaledGrains p.significand p.power) := by
  have hsplit : p.significand
      = Nat.ofDigitChars 10 (p.fraction.getD []) (Nat.ofDigitChars 10 p.whole 0) :=
    Nat.ofDigitChars_append ..
  rw [hsplit] at hfits
  have hless := Nat.lt_of_le_of_lt (le_ofDigitChars _ _) hfits
  have hwhole := gather_eq hless
  have hfraction := gather_eq hfits
  rw [← hsplit] at hfraction
  have hpower : ((p.whole.length - p.whole.length : Nat) : Int) - (p.fraction.getD []).length
      + p.exponent.getD 0 = p.power := by
    unfold power
    omega
  -- all digits are taken
  constructor
  · rintro ⟨m, taken, m', taken', hw, hf, hx⟩
    obtain ⟨rfl, rfl⟩ := Prod.mk.inj (hwhole.symm.trans ((appends_iff (by omega)).mp hw))
    obtain ⟨rfl, rfl⟩ := Prod.mk.inj (hfraction.symm.trans ((appends_iff hw.fits).mp hf))
    rwa [hpower] at hx
  · intro hx
    rw [← hpower] at hx
    exact ⟨_, _, _, _, (appends_iff (by omega)).mpr hwhole, (appends_iff hless).mpr hfraction, hx⟩

/-- A number of few digits with a small power of ten is worth the double nearest to it. -/
theorem isWorth_iff_isNearest (hbits : p.significand < 2 ^ 53) (hlow : -23 < p.power)
    (hhigh : p.power < 23) :
    p.IsWorth negative x ↔ IsNearestDouble x negative p.significand p.power := by
  have hmin : decimalGrains p.significand p.power
      = min (scaledGrains p.significand p.power) grainsOfInfinity := by
    rw [scaledGrains_of_small hbits hlow hhigh, decimalGrains]
  rw [isWorth_iff_isSigned (by omega)]
  constructor
  · intro hx
    rw [Nat.min_eq_left hx.lt_infinity.le] at hmin
    exact ⟨hx.sign, hmin ▸ hx.grains_eq⟩
  · intro hx
    have hsigned : IsSigned x negative (decimalGrains p.significand p.power) :=
      ⟨hx.sign, hx.grains_eq⟩
    have hlt := hsigned.lt_infinity
    rwa [show decimalGrains p.significand p.power = scaledGrains p.significand p.power by omega]
      at hsigned

end Parts

end TriggerLatency.Json
