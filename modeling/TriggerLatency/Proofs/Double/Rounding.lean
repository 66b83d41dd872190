import TriggerLatency.Proofs.Decimal.HalfEven
import TriggerLatency.Proofs.Double.Grain

/-!
# Rounding to a double

`nearest num den` is the double nearest to `num / den` grains, as a number of grains:
the quotient rounded half to even at the last of fifty-three places (`lastPlace`), or
at a whole grain if it is small. It never falls when the quotient grows
(`nearest_mono`) and keeps what is a double already (`nearest_eq_self`).

The arithmetic of floats shifts a mantissa to the right and keeps two bits of what
drops out. Those bits are enough (`Represents`): rounding by them gives the nearest
double, or the infinity beyond the finite ones (`grainsOf_roundWithAccuracy`).
-/

namespace TriggerLatency.Double

open Float.Model Float.Model.UnpackedFloat
open TriggerLatency.Decimal (roundHalfEven lt_roundHalfEven_iff roundHalfEven_mono
  roundHalfEven_congr roundHalfEven_mul_self div_le_roundHalfEven roundHalfEven_le)

/-! ## The nearest double -/

/-- The place, counted in doublings of a grain, to which `num / den` grains are rounded. -/
def lastPlace (num den : Nat) : Nat := (num / den).log2 - 52

/-- `num / den` grains at that place, as a whole number of its units. -/
def nearestUnits (num den : Nat) : Nat := roundHalfEven num (den * 2 ^ lastPlace num den)

/-- `num / den` grains rounded to a double with no bound on its exponent, in grains. -/
def nearest (num den : Nat) : Nat := nearestUnits num den * 2 ^ lastPlace num den

private theorem log2_mono {a b : Nat} (h : a ≤ b) : a.log2 ≤ b.log2 := by
  rcases Nat.eq_zero_or_pos a with rfl | ha
  · rw [Nat.log2_zero]
    exact Nat.zero_le _
  · exact (Nat.le_log2 (by omega)).mpr (Nat.le_trans (Nat.log2_self_le ha.ne') h)

private theorem log2_div_two_pow (m k : Nat) : (m / 2 ^ k).log2 = m.log2 - k := by
  rcases Nat.lt_or_ge m.log2 k with hsmall | hlarge
  · -- nothing is left of the whole part
    have hzero : m / 2 ^ k = 0 := by
      rcases Nat.eq_zero_or_pos m with rfl | hm
      · exact Nat.zero_div _
      · exact Nat.div_eq_of_lt ((Nat.log2_lt hm.ne').mp hsmall)
    rw [hzero, Nat.log2_zero]
    omega
  · rcases Nat.eq_zero_or_pos m with rfl | hm
    · rw [Nat.zero_div, Nat.log2_zero]
      omega
    · have h := (Nat.log2_eq_iff hm.ne').mp rfl
      have hlow : 2 ^ (m.log2 - k) ≤ m / 2 ^ k := by
        rw [Nat.le_div_iff_mul_le (Nat.two_pow_pos k), ← Nat.pow_add, Nat.sub_add_cancel hlarge]
        exact h.1
      have hne : m / 2 ^ k ≠ 0 := (Nat.lt_of_lt_of_le (Nat.two_pow_pos _) hlow).ne'
      rw [Nat.log2_eq_iff hne, Nat.div_lt_iff_lt_mul (Nat.two_pow_pos k), ← Nat.pow_add,
        show m.log2 - k + 1 + k = m.log2 + 1 by omega]
      exact ⟨hlow, h.2⟩

/-- Doubling a quotient so many times adds as many bits to its whole part, if it has any. -/
private theorem log2_mul_two_pow_div {num den : Nat} (hd : 0 < den) (hq : 0 < num / den) (k : Nat) :
    (num * 2 ^ k / den).log2 = (num / den).log2 + k := by
  have h := (Nat.log2_eq_iff hq.ne').mp rfl
  have hlow : 2 ^ ((num / den).log2 + k) ≤ num * 2 ^ k / den := by
    rw [Nat.le_div_iff_mul_le hd, Nat.pow_add]
    calc 2 ^ (num / den).log2 * 2 ^ k * den
        = 2 ^ (num / den).log2 * den * 2 ^ k := by ring
      _ ≤ num * 2 ^ k := Nat.mul_le_mul_right _ ((Nat.le_div_iff_mul_le hd).mp h.1)
  have hhigh : num * 2 ^ k / den < 2 ^ ((num / den).log2 + k + 1) := by
    rw [Nat.div_lt_iff_lt_mul hd, show (num / den).log2 + k + 1 = (num / den).log2 + 1 + k by omega,
      Nat.pow_add]
    calc num * 2 ^ k
        < 2 ^ ((num / den).log2 + 1) * den * 2 ^ k :=
          Nat.mul_lt_mul_of_pos_right ((Nat.div_lt_iff_lt_mul hd).mp h.2) (Nat.two_pow_pos k)
      _ = 2 ^ ((num / den).log2 + 1) * 2 ^ k * den := by ring
  exact (Nat.log2_eq_iff (Nat.lt_of_lt_of_le (Nat.two_pow_pos _) hlow).ne').mpr ⟨hlow, hhigh⟩

private theorem unit_pos {den : Nat} (hd : 0 < den) (k : Nat) : 0 < den * 2 ^ k :=
  Nat.mul_pos hd (Nat.two_pow_pos k)

/-- Fifty-three bits hold the rounded mantissa, up to the carry. -/
theorem nearestUnits_le (num den : Nat) : nearestUnits num den ≤ 2 ^ 53 := by
  have hq : num / den < 2 ^ (53 + lastPlace num den) := by
    refine Nat.lt_of_lt_of_le Nat.lt_log2_self (Nat.pow_le_pow_right (by omega) ?_)
    unfold lastPlace
    omega
  have hdiv : num / (den * 2 ^ lastPlace num den) < 2 ^ 53 := by
    rw [← Nat.div_div_eq_div_mul, Nat.div_lt_iff_lt_mul (Nat.two_pow_pos _), ← Nat.pow_add]
    exact hq
  have := roundHalfEven_le num (den * 2 ^ lastPlace num den)
  unfold nearestUnits
  omega

/-- Above the least exponent the rounded mantissa is full. -/
theorem le_nearestUnits {num den : Nat} (h : 0 < lastPlace num den) :
    2 ^ 52 ≤ nearestUnits num den := by
  have hlog : 52 + lastPlace num den = (num / den).log2 := by
    unfold lastPlace at h ⊢
    omega
  have hq : 2 ^ (52 + lastPlace num den) ≤ num / den := by
    rw [hlog]
    refine Nat.log2_self_le ?_
    intro h0
    rw [h0, show Nat.log2 0 = 0 from rfl] at hlog
    omega
  refine Nat.le_trans ?_ (div_le_roundHalfEven _ _)
  rw [← Nat.div_div_eq_div_mul, Nat.le_div_iff_mul_le (Nat.two_pow_pos _), ← Nat.pow_add]
  exact hq

/-- Rounding keeps the order. -/
theorem nearest_mono {a b c d : Nat} (hb : 0 < b) (hd : 0 < d) (h : a * d ≤ c * b) :
    nearest a b ≤ nearest c d := by
  have hfloor : a / b ≤ c / d := by
    rw [Nat.le_div_iff_mul_le hd]
    refine Nat.le_of_mul_le_mul_left (c := b) ?_ hb
    nlinarith [Nat.mul_div_le a b]
  have hplace : lastPlace a b ≤ lastPlace c d := by
    have := log2_mono hfloor
    unfold lastPlace
    omega
  rcases Nat.lt_or_eq_of_le hplace with hlt | heq
  · -- a greater place starts where the carry of a lesser one ends
    calc nearest a b
        ≤ 2 ^ 53 * 2 ^ lastPlace a b := Nat.mul_le_mul_right _ (nearestUnits_le a b)
      _ = 2 ^ 52 * 2 ^ (lastPlace a b + 1) := by rw [Nat.pow_succ]; ring
      _ ≤ 2 ^ 52 * 2 ^ lastPlace c d :=
          Nat.mul_le_mul_left _ (Nat.pow_le_pow_right (by omega) hlt)
      _ ≤ nearest c d := Nat.mul_le_mul_right _ (le_nearestUnits (by omega))
  · -- at the same place it is the rounding of two quotients
    unfold nearest nearestUnits
    rw [heq]
    refine Nat.mul_le_mul_right _ (roundHalfEven_mono (unit_pos hb _) (unit_pos hd _) ?_)
    nlinarith [Nat.mul_le_mul_right (2 ^ lastPlace c d) h]

/-- A double is its own nearest double. -/
theorem nearest_eq_self {m : Nat} (k : Nat) (hm : 0 < m) (hbits : m < 2 ^ 53) :
    nearest (m * 2 ^ k) 1 = m * 2 ^ k := by
  have hfew : m.log2 < 53 := (Nat.log2_lt hm.ne').mpr hbits
  -- the last place is not above the exponent, so the quotient is whole
  obtain ⟨j, hj⟩ : ∃ j, k = j + lastPlace (m * 2 ^ k) 1 := by
    refine ⟨k - lastPlace (m * 2 ^ k) 1, ?_⟩
    unfold lastPlace
    rw [log2_mul_two_pow_div Nat.one_pos (by omega), Nat.div_one]
    omega
  unfold nearest nearestUnits
  generalize lastPlace (m * 2 ^ k) 1 = p at hj ⊢
  subst hj
  rw [Nat.one_mul, Nat.pow_add, ← Nat.mul_assoc, roundHalfEven_mul_self _ (Nat.two_pow_pos p)]

/-! ## Residual bits -/

/-- A mantissa and its residual bits tell where `num / den` lies: the mantissa is the whole part,
the round bit says whether the rest is a half or more, and the sticky bit whether it is anything
but nothing or a half. -/
structure Represents (em : ExtendedMantissa) (num den : Nat) : Prop where
  mantissa : em.mantissa = num / den
  roundBit : em.roundBit = true ↔ den ≤ 2 * (num % den)
  stickyBit : em.stickyBit = true ↔ num % den ≠ 0 ∧ 2 * (num % den) ≠ den

theorem represents_exact (m : Nat) :
    Represents (ExtendedMantissa.ofMantissaAndAccuracy m .exact) m 1 where
  mantissa := (Nat.div_one m).symm
  roundBit := by simp [ExtendedMantissa.ofMantissaAndAccuracy, Nat.mod_one]
  stickyBit := by simp [ExtendedMantissa.ofMantissaAndAccuracy, Nat.mod_one]

namespace Represents

variable {em : ExtendedMantissa} {num den : Nat}

/-- One place to the right: the lowest bit of the mantissa becomes the round bit. -/
theorem shiftRightOne (hd : 0 < den) (h : Represents em num den) :
    Represents em.shiftRightOne num (den * 2) := by
  have hrem : num % den < den := Nat.mod_lt num hd
  have hmod : num % (den * 2) = num % den + den * (num / den % 2) := Nat.mod_mul
  have hbit : num / den % 2 = 0 ∨ num / den % 2 = 1 := by omega
  refine ⟨?_, ?_, ?_⟩
  · rw [ExtendedMantissa.shiftRightOne, h.mantissa, Nat.div_div_eq_div_mul]
  · -- the bit that drops out is worth half of the new denominator
    rw [ExtendedMantissa.shiftRightOne, h.mantissa, hmod]
    rcases hbit with hbit | hbit <;> rw [hbit] <;> simp <;> omega
  · -- the old round bit is below a half now, so it counts as anything
    have hany : (em.roundBit || em.stickyBit) = true ↔ num % den ≠ 0 := by
      rw [Bool.or_eq_true, h.roundBit, h.stickyBit]
      omega
    rw [ExtendedMantissa.shiftRightOne, hany, hmod]
    rcases hbit with hbit | hbit <;> rw [hbit] <;> omega

/-- Any number of places to the right. -/
theorem shiftRight (hd : 0 < den) (h : Represents em num den) (k : Nat) :
    Represents (em >>> k) num (den * 2 ^ k) := by
  show Represents (k.repeat ExtendedMantissa.shiftRightOne em) num (den * 2 ^ k)
  induction k with
  | zero => simpa [Nat.repeat] using h
  | succ k ih =>
    rw [Nat.repeat, Nat.pow_succ, ← Nat.mul_assoc]
    exact ih.shiftRightOne (unit_pos hd k)

/-- Rounding by the residual bits is rounding half to even. -/
theorem roundedMantissa (hd : 0 < den) (h : Represents em num den) :
    em.roundedMantissa = roundHalfEven num den := by
  have hrem : num % den < den := Nat.mod_lt num hd
  obtain ⟨m, r, s⟩ := em
  obtain ⟨hm, hr, hs⟩ := h
  dsimp only at hm hr hs
  subst hm
  unfold roundHalfEven
  dsimp only
  -- the two bits say whether the rest is nothing, less than a half, a half or more
  cases r <;> cases s <;>
    simp only [Bool.false_eq_true, false_iff, true_iff] at hr hs <;>
    simp only [ExtendedMantissa.roundedMantissa, ExtendedMantissa.accuracy,
      Accuracy.roundToNearestEven] <;>
    split_ifs <;> omega

end Represents

/-! ## The rounding of floats -/

/-- Packs a value whose exponent may be too great: it becomes the infinity. -/
theorem grainsOf_pack_finite (s : Sign) {m : Nat} {e : Int} (hm : 0 < m) (hbits : m < 2 ^ 53)
    (hlow : -1074 ≤ e) (hfull : 2 ^ 52 ≤ m ∨ e = -1074) :
    grainsOf (UnpackedFloat.unpack Format.binary64
        (UnpackedFloat.pack Format.binary64 (.finite s m e hm)))
      = s.apply (min (m * 2 ^ (e + 1074).toNat) grainsOfInfinity : Nat) := by
  rcases lt_or_ge (971 : Int) e with hbig | hsmall
  · -- too great: the full mantissa puts it beyond the infinity in grains as well
    have hfull : 2 ^ 52 ≤ m := hfull.resolve_right (by omega)
    have hpack : UnpackedFloat.pack Format.binary64 (.finite s m e hm)
        = UnpackedFloat.pack Format.binary64 (.infinity s) := by
      have hover : 2 ^ 11 ≤ (e + Format.binary64.exponentBias
          + Format.binary64.mantissaBitsWithoutImplicit).toNat + 1 := by
        show 2 ^ 11 ≤ (e + 1023 + 52).toNat + 1
        omega
      simp only [UnpackedFloat.pack, if_pos hover]
    have hmag : grainsOfInfinity ≤ m * 2 ^ (e + 1074).toNat := by
      calc grainsOfInfinity
          ≤ 2 ^ (52 + (e + 1074).toNat) := by
            unfold grainsOfInfinity
            gcongr <;> omega
        _ = 2 ^ 52 * 2 ^ (e + 1074).toNat := Nat.pow_add ..
        _ ≤ m * 2 ^ (e + 1074).toNat := Nat.mul_le_mul_right _ hfull
    rw [hpack, unpack_pack (u := .infinity s) trivial, Nat.min_eq_right hmag]
    rfl
  · rw [unpack_pack (u := .finite s m e hm) ⟨hbits, hlow, hsmall, hfull⟩,
      Nat.min_eq_left (magnitude_lt hbits hlow hsmall).le]
    rfl

/-- A mantissa of few bits at a low exponent is where it should be. -/
private theorem shiftToTargetExponent_self {m : Nat} {e : Int} (hbits : m < 2 ^ 53)
    (hlow : -1074 ≤ e) :
    shiftToTargetExponent Format.binary64 m e .exact = (⟨m, false, false⟩, e) := by
  have hlog : m.log2 ≤ 52 := by
    rcases Nat.eq_zero_or_pos m with rfl | hm
    · rw [Nat.log2_zero]
      omega
    · have := (Nat.log2_lt hm.ne').mpr hbits
      omega
  have hshift : (Format.binary64.targetExponent (totalExponent m e) - e).toNat = 0 := by
    show (max ((m.log2 : Int) + 1 + e - 53) (-1074) - e).toNat = 0
    omega
  simp only [shiftToTargetExponent, shiftToExponent, hshift]
  rw [show e + ((0 : Nat) : Int) = e by omega]
  rfl

/-- A mantissa that the carry has made one bit too long loses its last bit, a zero. -/
private theorem shiftToTargetExponent_carry {e : Int} (hlow : -1074 ≤ e) :
    shiftToTargetExponent Format.binary64 (2 ^ 53) e .exact = (⟨2 ^ 52, false, false⟩, e + 1) := by
  have hshift : (Format.binary64.targetExponent (totalExponent (2 ^ 53) e) - e).toNat = 1 := by
    show (max (((2 ^ 53 : Nat).log2 : Int) + 1 + e - 53) (-1074) - e).toNat = 1
    rw [Nat.log2_two_pow]
    omega
  simp only [shiftToTargetExponent, shiftToExponent, hshift]
  rfl

/-- After the first shift and the rounding, what is left is to bring a carry home and to pack. -/
private theorem grainsOf_pack_rounded {s : Sign} {m r : Nat} {e t : Int} {acc : Accuracy}
    {em : ExtendedMantissa} (hfirst : shiftToTargetExponent Format.binary64 m e acc = (em, t))
    (hr : em.roundedMantissa = r) (hbits : r ≤ 2 ^ 53) (hlow : -1074 ≤ t)
    (hfull : 2 ^ 52 ≤ r ∨ t = -1074) :
    grainsOf (UnpackedFloat.unpack Format.binary64
        (UnpackedFloat.pack Format.binary64 (roundWithAccuracy Format.binary64 s m e acc)))
      = s.apply (min (r * 2 ^ (t + 1074).toNat) grainsOfInfinity : Nat) := by
  have hround : roundWithAccuracy Format.binary64 s m e acc
      = let second := shiftToTargetExponent Format.binary64 r t .exact
        if h : second.1.mantissa = 0 then .zero s
        else .finite s second.1.mantissa second.2 (Nat.pos_of_ne_zero h) := by
    simp only [roundWithAccuracy, hfirst, hr]
  rw [hround]
  rcases Nat.lt_or_eq_of_le hbits with hfew | rfl
  · -- no carry: the second shift does nothing
    rw [shiftToTargetExponent_self hfew hlow]
    dsimp only
    split_ifs with hzero
    · subst hzero
      rw [unpack_pack (u := .zero s) trivial, Nat.zero_mul, Nat.zero_min]
      cases s <;> rfl
    · exact grainsOf_pack_finite s _ hfew hlow hfull
  · -- a carry: one bit less at the next exponent
    rw [shiftToTargetExponent_carry hlow]
    dsimp only
    rw [dif_neg (by decide), grainsOf_pack_finite s _ (by decide) (by omega) (Or.inl le_rfl)]
    congr 3
    rw [show (t + 1 + 1074).toNat = (t + 1074).toNat + 1 by omega, Nat.pow_succ]
    ring

private theorem mantissa_ofMantissaAndAccuracy (m : Nat) (acc : Accuracy) :
    (ExtendedMantissa.ofMantissaAndAccuracy m acc).mantissa = m := by
  cases acc with
  | exact => rfl
  | inexact o => cases o <;> rfl

/-- The place of `num / den · 2 ^ e` is where the first shift goes, if there are bits enough. -/
private theorem lastPlace_scaled {num den : Nat} {e : Int} (hd : 0 < den)
    (henough : 52 ≤ (num / den).log2 ∨ e ≤ -1074) :
    (lastPlace (num * 2 ^ (e + 1074).toNat) (den * 2 ^ (-(e + 1074)).toNat) : Int)
      = max ((num / den).log2 + (e + 1074) - 52) 0 := by
  unfold lastPlace
  rcases Int.le_total 0 (e + 1074) with hup | hdown
  · -- a whole number of grains
    rw [show (-(e + 1074)).toNat = 0 by omega, Nat.pow_zero, Nat.mul_one]
    rcases Nat.eq_zero_or_pos (num / den) with hzero | hpos
    · rw [hzero, Nat.log2_zero] at henough ⊢
      rw [show (e + 1074).toNat = 0 by omega, Nat.pow_zero, Nat.mul_one, hzero, Nat.log2_zero]
      omega
    · rw [log2_mul_two_pow_div hd hpos]
      omega
  · -- a fraction of a grain in its last place
    rw [show (e + 1074).toNat = 0 by omega, Nat.pow_zero, Nat.mul_one, ← Nat.div_div_eq_div_mul,
      log2_div_two_pow]
    omega

/-- A mantissa with residual bits, at any exponent at which it has bits enough, is rounded to the
nearest double. -/
theorem grainsOf_roundWithAccuracy (s : Sign) {m num den : Nat} {e : Int} {acc : Accuracy}
    (hd : 0 < den) (hrep : Represents (ExtendedMantissa.ofMantissaAndAccuracy m acc) num den)
    (henough : 52 ≤ m.log2 ∨ e ≤ -1074) :
    grainsOf (UnpackedFloat.unpack Format.binary64
        (UnpackedFloat.pack Format.binary64 (roundWithAccuracy Format.binary64 s m e acc)))
      = s.apply (min (nearest (num * 2 ^ (e + 1074).toNat) (den * 2 ^ (-(e + 1074)).toNat))
          grainsOfInfinity : Nat) := by
  have hm : m = num / den := by rw [← hrep.mantissa, mantissa_ofMantissaAndAccuracy]
  subst hm
  have hplace := lastPlace_scaled hd henough
  have hunits := nearestUnits_le (num * 2 ^ (e + 1074).toNat) (den * 2 ^ (-(e + 1074)).toNat)
  have hfull := @le_nearestUnits (num * 2 ^ (e + 1074).toNat) (den * 2 ^ (-(e + 1074)).toNat)
  unfold nearest
  have hround : nearestUnits (num * 2 ^ (e + 1074).toNat) (den * 2 ^ (-(e + 1074)).toNat)
      = roundHalfEven (num * 2 ^ (e + 1074).toNat) (den * 2 ^ (-(e + 1074)).toNat
        * 2 ^ lastPlace (num * 2 ^ (e + 1074).toNat) (den * 2 ^ (-(e + 1074)).toNat)) := rfl
  generalize lastPlace (num * 2 ^ (e + 1074).toNat) (den * 2 ^ (-(e + 1074)).toNat) = p at *
  -- the first shift goes to the exponent `p - 1074`, over `k` places
  obtain ⟨k, hk⟩ : ∃ k : Nat, (p : Int) - 1074 = e + k := ⟨(p - 1074 - e).toNat, by omega⟩
  have hfirst : shiftToTargetExponent Format.binary64 (num / den) e acc
      = (ExtendedMantissa.ofMantissaAndAccuracy (num / den) acc >>> k, (p : Int) - 1074) := by
    have hshift :
        (Format.binary64.targetExponent (totalExponent (num / den) e) - e).toNat = k := by
      show (max (((num / den).log2 : Int) + 1 + e - 53) (-1074) - e).toNat = k
      omega
    simp only [shiftToTargetExponent, shiftToExponent, hshift, hk]
  have hsame : num * (den * 2 ^ (-(e + 1074)).toNat * 2 ^ p)
      = num * 2 ^ (e + 1074).toNat * (den * 2 ^ k) := by
    have hexp : (-(e + 1074)).toNat + p = (e + 1074).toNat + k := by omega
    calc num * (den * 2 ^ (-(e + 1074)).toNat * 2 ^ p)
        = num * den * 2 ^ ((-(e + 1074)).toNat + p) := by rw [Nat.pow_add]; ring
      _ = num * 2 ^ (e + 1074).toNat * (den * 2 ^ k) := by rw [hexp, Nat.pow_add]; ring
  have hrounded := (hrep.shiftRight hd k).roundedMantissa (unit_pos hd k)
  rw [roundHalfEven_congr (unit_pos hd k) (unit_pos (unit_pos hd _) p) hsame, ← hround] at hrounded
  rw [grainsOf_pack_rounded hfirst hrounded hunits (by omega) (by omega),
    show ((p : Int) - 1074 + 1074).toNat = p by omega]

/-- A value that is a whole number of grains is rounded to the nearest double. -/
theorem grainsOf_round (s : Sign) {m : Nat} {e : Int} (hm : 0 < m) (he : -1074 ≤ e) :
    grainsOf (UnpackedFloat.unpack Format.binary64
        (UnpackedFloat.pack Format.binary64 (UnpackedFloat.round Format.binary64 s m e)))
      = s.apply (min (nearest (m * 2 ^ (e + 1074).toNat) 1) grainsOfInfinity : Nat) := by
  obtain ⟨k, hk⟩ : ∃ k, k = (e - Format.binary64.targetExponent (totalExponent m e)).toNat :=
    ⟨_, rfl⟩
  have htarget : Format.binary64.targetExponent (totalExponent m e)
      = max ((m.log2 : Int) + 1 + e - 53) (-1074) := rfl
  have hround : UnpackedFloat.round Format.binary64 s m e
      = roundWithAccuracy Format.binary64 s (m * 2 ^ k) (e - k) .exact := by
    simp only [UnpackedFloat.round, decreaseExponent, ← hk, Nat.shiftLeft_eq]
  have hlog := log2_mul_two_pow_div Nat.one_pos (by omega : 0 < m / 1) k
  rw [Nat.div_one, Nat.div_one] at hlog
  rw [hround, grainsOf_roundWithAccuracy s Nat.one_pos (represents_exact _) (by omega)]
  have hexp : k + (e - k + 1074).toNat = (e + 1074).toNat := by omega
  rw [Nat.mul_assoc, ← Nat.pow_add, hexp, show (-(e - k + 1074)).toNat = 0 by omega,
    Nat.pow_zero, Nat.mul_one]

/-- An integer number of grains rounded to a double; out of range it is an infinity. -/
def roundGrains (n : Int) : Int := n.sign * (min (nearest n.natAbs 1) grainsOfInfinity : Nat)

theorem roundGrains_zero : roundGrains 0 = 0 := by
  rw [roundGrains, Int.sign_zero, Int.zero_mul]

theorem roundGrains_natCast (n : Nat) :
    roundGrains n = (min (nearest n 1) grainsOfInfinity : Nat) := by
  rcases Nat.eq_zero_or_pos n with rfl | hn
  · have hzero : nearest 0 1 = 0 := rfl
    rw [hzero, Nat.zero_min]
    exact roundGrains_zero
  · rw [roundGrains, Int.sign_eq_one_of_pos (by omega), Int.one_mul, Int.natAbs_natCast]

theorem roundGrains_neg (n : Int) : roundGrains (-n) = -roundGrains n := by
  rw [roundGrains, Int.sign_neg, Int.natAbs_neg, Int.neg_mul]
  rfl

theorem roundGrains_apply (s : Sign) (n : Nat) :
    roundGrains (s.apply n) = s.apply (min (nearest n 1) grainsOfInfinity : Nat) := by
  cases s
  · show roundGrains (-n) = _
    rw [roundGrains_neg, roundGrains_natCast]
    rfl
  · exact roundGrains_natCast n

/-- Rounding keeps the order of all integers. -/
theorem roundGrains_mono {a b : Int} (h : a ≤ b) : roundGrains a ≤ roundGrains b := by
  have hnat : ∀ {m n : Nat}, m ≤ n → roundGrains m ≤ roundGrains n := by
    intro m n hmn
    have := nearest_mono (a := m) (c := n) Nat.one_pos Nat.one_pos (by omega)
    rw [roundGrains_natCast, roundGrains_natCast]
    omega
  -- the signs of both: between signs the value passes through zero
  rcases Int.eq_nat_or_neg a with ⟨m, rfl | rfl⟩ <;> rcases Int.eq_nat_or_neg b with ⟨n, rfl | rfl⟩
  · exact hnat (by omega)
  · obtain ⟨rfl, rfl⟩ : m = 0 ∧ n = 0 := by omega
    exact le_rfl
  · have hm := hnat (Nat.zero_le m)
    have hn := hnat (Nat.zero_le n)
    rw [roundGrains_neg]
    have hzero : roundGrains ((0 : Nat) : Int) = 0 := roundGrains_zero
    omega
  · rw [roundGrains_neg, roundGrains_neg]
    have := hnat (show n ≤ m by omega)
    omega

/-- A double is kept. -/
theorem roundGrains_grainsOf {u : UnpackedFloat} (hu : Canonical u) (hfin : u.isFinite = true) :
    roundGrains (grainsOf u) = grainsOf u := by
  cases u with
  | notANumber => exact absurd hfin Bool.false_ne_true
  | infinity s => exact absurd hfin Bool.false_ne_true
  | zero s => exact roundGrains_zero
  | finite s m e hm =>
    obtain ⟨hbits, hlow, hhigh, -⟩ := hu
    rw [grainsOf, roundGrains_apply, nearest_eq_self _ hm hbits,
      Nat.min_eq_left (magnitude_lt hbits hlow hhigh).le]

/-- The least value above zero is kept. -/
theorem roundGrains_one : roundGrains 1 = 1 := by
  have hone : nearest 1 1 = 1 := nearest_eq_self 0 Nat.one_pos (by omega)
  have hpos := grainsOfInfinity_pos
  have h := roundGrains_natCast 1
  rw [hone, Nat.min_eq_left hpos] at h
  exact h

/-! ## Subtraction -/

/-- Only a full exponent field over a mantissa field that is not zero is not a number. -/
private theorem isNaN_unpack_eq_false {b : BitVec Format.binary64.numBits}
    (h : @unpackExponent Format.binary64 b = -1#_ →
      @unpackMantissa Format.binary64 b = 0#_) :
    (UnpackedFloat.unpack Format.binary64 b).isNaN = false := by
  unfold UnpackedFloat.unpack
  dsimp only
  split_ifs with hinf hzero
  all_goals first | rfl | exact absurd (h hinf) hzero

/-- What packs as a number is a number. -/
theorem isNaN_unpack_pack {u : UnpackedFloat} (h : u.isNaN = false) :
    (UnpackedFloat.unpack Format.binary64 (UnpackedFloat.pack Format.binary64 u)).isNaN
      = false := by
  cases u with
  | notANumber => exact absurd h Bool.noConfusion
  | infinity s => rw [unpack_pack (u := .infinity s) trivial, h]
  | zero s => rw [unpack_pack (u := .zero s) trivial, h]
  | finite s m e hm =>
    refine isNaN_unpack_eq_false ?_
    intro hfull
    simp only [UnpackedFloat.pack] at hfull ⊢
    split_ifs at hfull ⊢ with hover hnormal
    · -- the infinity that stands for a value out of range
      exact unpackMantissa_packComponents
    · rw [unpackExponent_packComponents] at hfull
      have := congrArg BitVec.toNat hfull
      rw [BitVec.toNat_ofNat, Nat.mod_eq_of_lt (by omega)] at this
      exact absurd this (by simp; omega)
    · rw [unpackExponent_packComponents] at hfull
      exact absurd hfull (by decide)

theorem isNaN_roundWithAccuracy (s : Sign) (m : Nat) (e : Int) (acc : Accuracy) :
    (roundWithAccuracy Format.binary64 s m e acc).isNaN = false := by
  unfold roundWithAccuracy
  dsimp only
  split_ifs <;> rfl

/-- Two finite values brought to one exponent have the difference of their grains there. -/
theorem grainsOf_normalize (n : Int) {e : Int} (he : -1074 ≤ e) (zeroSign : Sign) :
    grainsOf (UnpackedFloat.unpack Format.binary64
        (UnpackedFloat.pack Format.binary64
        (UnpackedFloat.normalize Format.binary64 n e zeroSign)))
      = roundGrains (n * (2 ^ (e + 1074).toNat : Nat)) := by
  unfold UnpackedFloat.normalize
  rcases lt_trichotomy n 0 with hlt | rfl | hgt
  · obtain ⟨m, rfl⟩ : ∃ m : Nat, n = -m := ⟨n.natAbs, by omega⟩
    rw [compare_lt_iff_lt.mpr hlt]
    dsimp only
    rw [show (-(-(m : Int))).toNat = m by omega, grainsOf_round .negative (by omega) he,
      ← roundGrains_apply, Int.neg_mul, ← Int.natCast_mul]
    rfl
  · rw [compare_eq_iff_eq.mpr rfl]
    dsimp only
    rw [unpack_pack (u := .zero zeroSign) trivial, Int.zero_mul, roundGrains_zero]
    rfl
  · obtain ⟨m, rfl⟩ : ∃ m : Nat, n = m := ⟨n.natAbs, by omega⟩
    rw [compare_gt_iff_gt.mpr hgt]
    dsimp only
    rw [Int.toNat_natCast, grainsOf_round .positive (by omega) he, ← roundGrains_apply,
      ← Int.natCast_mul]
    rfl

theorem isNaN_normalize (n e : Int) (zeroSign : Sign) :
    (UnpackedFloat.normalize Format.binary64 n e zeroSign).isNaN = false := by
  unfold UnpackedFloat.normalize
  cases compare n 0
  · exact isNaN_roundWithAccuracy ..
  · rfl
  · exact isNaN_roundWithAccuracy ..

/-- The mantissa at a lesser exponent. -/
private theorem apply_decreaseExponent (s : Sign) (m : Nat) {e d : Int} (hd : -1074 ≤ d)
    (hde : d ≤ e) :
    s.apply (decreaseExponent m e d).1 * (2 ^ (d + 1074).toNat : Nat)
      = s.apply (m * 2 ^ (e + 1074).toNat : Nat) := by
  have hnat : (decreaseExponent m e d).1 * 2 ^ (d + 1074).toNat = m * 2 ^ (e + 1074).toNat := by
    rw [decreaseExponent, Nat.shiftLeft_eq, Nat.mul_assoc, ← Nat.pow_add,
      show (e - d).toNat + (d + 1074).toNat = (e + 1074).toNat by omega]
  rw [← hnat]
  cases s
  · show -((decreaseExponent m e d).1 : Int) * _ = -(_ : Int)
    rw [Int.neg_mul, Int.natCast_mul]
  · exact (Int.natCast_mul ..).symm

/-- The difference of two finite values is the rounded difference of their grains. -/
theorem grainsOf_sub {u v : UnpackedFloat} (hu : Canonical u) (hv : Canonical v)
    (hfu : u.isFinite = true) (hfv : v.isFinite = true) :
    grainsOf (UnpackedFloat.unpack Format.binary64
        (UnpackedFloat.pack Format.binary64 (UnpackedFloat.sub Format.binary64 u v)))
      = roundGrains (grainsOf u - grainsOf v) := by
  cases u with
  | notANumber => exact absurd hfu Bool.false_ne_true
  | infinity s => exact absurd hfu Bool.false_ne_true
  | zero s =>
    cases v with
    | notANumber => exact absurd hfv Bool.false_ne_true
    | infinity t => exact absurd hfv Bool.false_ne_true
    | zero t =>
      -- of whatever sign, the difference is a zero
      have hzero : grainsOf (.zero s) - grainsOf (.zero t) = 0 := rfl
      rw [hzero, roundGrains_zero]
      unfold UnpackedFloat.sub
      dsimp only
      split_ifs
      · rw [unpack_pack (u := .zero s) trivial]
        rfl
      · rw [unpack_pack (u := .zero .positive) trivial]
        rfl
    | finite t n d hn =>
      -- the negation of a double is a double
      have hneg : grainsOf (.zero s) - grainsOf (.finite t n d hn)
          = grainsOf (.finite (-t) n d hn) := by
        simp only [grainsOf, apply_neg, Int.zero_sub]
      have hcanonical : Canonical (.finite (-t) n d hn) := hv
      rw [hneg, roundGrains_grainsOf hcanonical rfl]
      unfold UnpackedFloat.sub
      rw [unpack_pack hcanonical]
  | finite s m e hm =>
    cases v with
    | notANumber => exact absurd hfv Bool.false_ne_true
    | infinity t => exact absurd hfv Bool.false_ne_true
    | zero t =>
      have hsame : grainsOf (.finite s m e hm) - grainsOf (.zero t)
          = grainsOf (.finite s m e hm) := Int.sub_zero _
      rw [hsame, roundGrains_grainsOf hu rfl]
      unfold UnpackedFloat.sub
      rw [unpack_pack hu]
    | finite t n d hn =>
      -- both are whole numbers at the lesser exponent, and their difference is rounded
      have hlow : -1074 ≤ min e d := le_min hu.2.1 hv.2.1
      unfold UnpackedFloat.sub
      dsimp only
      rw [grainsOf_normalize _ hlow, Int.sub_mul,
        apply_decreaseExponent s m hlow (min_le_left e d),
        apply_decreaseExponent t n hlow (min_le_right e d)]
      rfl

theorem isNaN_sub {u v : UnpackedFloat} (hfu : u.isFinite = true) (hfv : v.isFinite = true) :
    (UnpackedFloat.sub Format.binary64 u v).isNaN = false := by
  cases u <;> first | exact absurd hfu Bool.false_ne_true | skip
  all_goals cases v <;> first | exact absurd hfv Bool.false_ne_true | skip
  all_goals unfold UnpackedFloat.sub
  · dsimp only
    split_ifs <;> rfl
  · rfl
  · rfl
  · exact isNaN_normalize ..

variable {x y z : Float}

theorem grains_sub (hx : x.isFinite = true) (hy : y.isFinite = true) :
    grains (x - y) = roundGrains (grains x - grains y) :=
  grainsOf_sub (canonical_toModel x) (canonical_toModel y) hx hy

/-- The difference of finite floats is a number, if perhaps an infinite one. -/
theorem isNaN_float_sub (hx : x.isFinite = true) (hy : y.isFinite = true) :
    (x - y).isNaN = false :=
  isNaN_unpack_pack (isNaN_sub hx hy)

/-- A later time is further from what lies before it. -/
theorem sub_le_sub_right (hx : x.isFinite = true) (hy : y.isFinite = true)
    (hz : z.isFinite = true) (h : x ≤ y) : x - z ≤ y - z := by
  rw [le_iff_grains (isNaN_float_sub hx hz) (isNaN_float_sub hy hz), grains_sub hx hz,
    grains_sub hy hz]
  have := (le_iff_grains (isNaN_of_isFinite hx) (isNaN_of_isFinite hy)).mp h
  exact roundGrains_mono (by omega)

/-- A later time is nearer to what lies behind it. -/
theorem sub_le_sub_left (hx : x.isFinite = true) (hy : y.isFinite = true)
    (hz : z.isFinite = true) (h : x ≤ y) : z - y ≤ z - x := by
  rw [le_iff_grains (isNaN_float_sub hz hy) (isNaN_float_sub hz hx), grains_sub hz hy,
    grains_sub hz hx]
  have := (le_iff_grains (isNaN_of_isFinite hx) (isNaN_of_isFinite hy)).mp h
  exact roundGrains_mono (by omega)

/-- The difference of two times does not vanish. -/
theorem zero_lt_sub (hx : x.isFinite = true) (hy : y.isFinite = true) (h : x < y) : 0 < y - x := by
  have hlt := (lt_iff_grains (isNaN_of_isFinite hx) (isNaN_of_isFinite hy)).mp h
  -- they are at least one grain apart, and one grain is not rounded away
  have hround := roundGrains_mono (show (1 : Int) ≤ grains y - grains x by omega)
  rw [roundGrains_one] at hround
  rw [lt_iff_grains (by decide +kernel) (isNaN_float_sub hy hx), grains_zero, grains_sub hy hx]
  omega

end TriggerLatency.Double
