import TriggerLatency.Proofs.Double.Quotient

/-!
# Decimal numbers

A decimal `m * 10 ^ e` is made a float in several ways: by a product or a quotient of two doubles
where both are exact, in one step of greater precision elsewhere, and not at all where its exponent
alone says that it is out of range. Each time the float is the double nearest to the decimal, or an
infinity beyond the finite ones (`isRounded_ofScientific`). A natural number is such a decimal, and
at most sixty-four bits are within the range (`hasGrains_ofNat_nearest`).
-/

namespace TriggerLatency.Double

open Float.Model Float.Model.UnpackedFloat

/-- `m * 10 ^ e` rounded to a double, in grains. -/
def decimalGrains (m : Nat) (e : Int) : Nat :=
  min (nearest (m * 10 ^ e.toNat * grainsOfOne) (10 ^ (-e).toNat)) grainsOfInfinity

/-- A float is `m * 10 ^ e`, rounded. -/
structure IsRounded (x : Float) (m : Nat) (e : Int) : Prop where
  isNaN_eq : x.isNaN = false
  grains_eq : grains x = decimalGrains m e

variable {m n : Nat} {e : Int}

/-! ## Out of range -/

theorem grainsOfOne_eq : grainsOfOne = 2 ^ ((0 : Int) + 1074).toNat := by
  unfold grainsOfOne
  congr 1

theorem two_pow_mul_grainsOfOne (k : Nat) :
    2 ^ k * grainsOfOne = 1 * 2 ^ ((k : Int) + 1074).toNat := by
  have hexp : k + ((0 : Int) + 1074).toNat = ((k : Int) + 1074).toNat := by omega
  rw [grainsOfOne_eq, ← Nat.pow_add, Nat.one_mul, hexp]

/-- What is less than half a grain is rounded to zero. -/
theorem nearest_eq_zero {num den : Nat} (h : 2 * num < den) : nearest num den = 0 := by
  have hquotient : num / den = 0 := Nat.div_eq_of_lt (by omega)
  have hplace : lastPlace num den = 0 := by
    rw [lastPlace, hquotient, Nat.log2_zero]
  have hround : Decimal.roundHalfEven num den = 0 := by
    unfold Decimal.roundHalfEven
    dsimp only
    rw [Nat.mod_eq_of_lt (by omega), if_pos h, hquotient]
  rw [nearest, nearestUnits, hplace, Nat.pow_zero, Nat.mul_one, Nat.mul_one, hround]

/-- What is beyond the finite doubles stays there. -/
theorem grainsOfInfinity_le_nearest {num den : Nat} (hd : 0 < den)
    (h : grainsOfInfinity * den ≤ num) : grainsOfInfinity ≤ nearest num den := by
  have hself : nearest grainsOfInfinity 1 = grainsOfInfinity := by
    have hpower := nearest_eq_self 2098 Nat.one_pos (by omega)
    unfold grainsOfInfinity
    rwa [Nat.one_mul] at hpower
  rw [← hself]
  exact nearest_mono Nat.one_pos hd (by rwa [Nat.mul_one])

theorem grainsOfInfinity_eq : grainsOfInfinity = 2 ^ 1024 * grainsOfOne := by
  unfold grainsOfInfinity grainsOfOne
  rw [← Nat.pow_add]

theorem decimalGrains_zero (e : Int) : decimalGrains 0 e = 0 := by
  have hten : 0 < 10 ^ (-e).toNat := Nat.pow_pos (by omega)
  rw [decimalGrains, Nat.zero_mul, Nat.zero_mul, nearest_eq_zero (by omega), Nat.zero_min]

theorem two_pow_le_ten_pow (k : Nat) : 2 ^ k ≤ 10 ^ k := Nat.pow_le_pow_left (by omega) k

/-- A decimal of `2 ^ 1024` or more is infinite. -/
theorem decimalGrains_of_great (h : 2 ^ 1024 * 10 ^ (-e).toNat ≤ m * 10 ^ e.toNat) :
    decimalGrains m e = grainsOfInfinity := by
  refine Nat.min_eq_right (grainsOfInfinity_le_nearest (Nat.pow_pos (by omega)) ?_)
  rw [grainsOfInfinity_eq, Nat.mul_right_comm]
  exact Nat.mul_le_mul_right _ h

/-- A decimal of less than half a grain is nothing. -/
theorem decimalGrains_of_small (h : 2 * (m * 10 ^ e.toNat * grainsOfOne) < 10 ^ (-e).toNat) :
    decimalGrains m e = 0 := by
  rw [decimalGrains, nearest_eq_zero h, Nat.zero_min]

/-! ## One step of greater precision -/

/-- Above one the digits are shifted so far that their product with the power of ten has bits
enough. -/
private theorem grainsOf_scaledUp (hm : 0 < m) (k : Nat) :
    grainsOf (UnpackedFloat.unpack Format.binary64 (UnpackedFloat.pack Format.binary64
        (roundWithAccuracy Format.binary64 .positive (m * 2 ^ 53 * 10 ^ k) (-53) .exact)))
      = decimalGrains m k := by
  have hten : 0 < 10 ^ k := Nat.pow_pos (by omega)
  -- the shift by 53 bits makes the product full
  have henough : 52 ≤ (m * 2 ^ 53 * 10 ^ k).log2 := by
    have hshifted : 2 ^ 52 ≤ m * 2 ^ 53 := by omega
    have hscaled := Nat.le_trans hshifted (Nat.le_mul_of_pos_right (m * 2 ^ 53) hten)
    exact (Nat.le_log2 (by omega)).mpr hscaled
  have hexp : 53 + ((-53 : Int) + 1074).toNat
      = ((0 : Int) + 1074).toNat + (-((-53 : Int) + 1074)).toNat := by omega
  have hsame : m * 2 ^ 53 * 10 ^ k * 2 ^ ((-53 : Int) + 1074).toNat * 1
      = m * 10 ^ k * grainsOfOne * (1 * 2 ^ (-((-53 : Int) + 1074)).toNat) := by
    calc m * 2 ^ 53 * 10 ^ k * 2 ^ ((-53 : Int) + 1074).toNat * 1
        = m * 10 ^ k * 2 ^ (53 + ((-53 : Int) + 1074).toNat) := by rw [Nat.pow_add]; ring
      _ = m * 10 ^ k * grainsOfOne * (1 * 2 ^ (-((-53 : Int) + 1074)).toNat) := by
          rw [hexp, Nat.pow_add, grainsOfOne_eq]
          ring
  rw [grainsOf_roundWithAccuracy .positive Nat.one_pos (represents_exact _) (Or.inl henough),
    nearest_congr (Nat.mul_pos Nat.one_pos (Nat.two_pow_pos _)) Nat.one_pos hsame]
  unfold decimalGrains
  rw [Int.toNat_natCast, show (-(k : Int)).toNat = 0 by omega, Nat.pow_zero]
  rfl

/-- Below one the digits are divided by the power of ten. -/
private theorem grainsOf_scaledDown (hm : 0 < m) {k : Nat} (hten : 0 < 10 ^ k) :
    grainsOf (UnpackedFloat.unpack Format.binary64 (UnpackedFloat.pack Format.binary64
        (UnpackedFloat.div Format.binary64 (.finite .positive m 0 hm)
          (.finite .positive (10 ^ k) 0 hten))))
      = decimalGrains m (-k) := by
  have hsame : m * 2 ^ ((0 : Int) + 1074).toNat * grainsOfOne * 10 ^ k
      = m * grainsOfOne * (10 ^ k * 2 ^ ((0 : Int) + 1074).toNat) := by ring
  rw [grainsOf_div hm hten (by omega) (by omega),
    nearest_congr (Nat.mul_pos hten (Nat.two_pow_pos _)) hten hsame]
  unfold decimalGrains
  rw [Int.neg_neg, Int.toNat_natCast, show (-(k : Int)).toNat = 0 by omega, Nat.pow_zero,
    Nat.mul_one]

/-- A decimal is a number, and rounded to the nearest double. -/
theorem grainsOf_ofScientific (m : Nat) (e : Int) :
    (UnpackedFloat.ofScientific Format.binary64 m e).isNaN = false
    ∧ grainsOf (UnpackedFloat.unpack Format.binary64 (UnpackedFloat.pack Format.binary64
        (UnpackedFloat.ofScientific Format.binary64 m e))) = decimalGrains m e := by
  have hexponent : (2 : Int) ^ Format.binary64.exponentBits = 2048 := rfl
  unfold UnpackedFloat.ofScientific
  rw [hexponent]
  split_ifs with hzero hgreat hsmall hwhole
  · refine ⟨rfl, ?_⟩
    rw [hzero, decimalGrains_zero, unpack_pack (u := .zero .positive) trivial]
    rfl
  · -- the power of ten alone is infinite
    refine ⟨rfl, ?_⟩
    rw [unpack_pack (u := .infinity .positive) trivial, decimalGrains_of_great]
    · rfl
    · rw [show (-e).toNat = 0 by omega, Nat.pow_zero, Nat.mul_one]
      calc 2 ^ 1024 ≤ 10 ^ 1024 := two_pow_le_ten_pow _
        _ ≤ 10 ^ e.toNat := Nat.pow_le_pow_right (by omega) (by omega)
        _ ≤ m * 10 ^ e.toNat := Nat.le_mul_of_pos_left _ (Nat.pos_of_ne_zero hzero)
  · -- the power of ten outweighs all digits
    have hone := grainsOfOne_pos
    refine ⟨rfl, ?_⟩
    rw [unpack_pack (u := .zero .positive) trivial, decimalGrains_of_small]
    · rfl
    · rw [show e.toNat = 0 by omega, Nat.pow_zero, Nat.mul_one]
      calc 2 * (m * grainsOfOne) = m * (2 * grainsOfOne) := Nat.mul_left_comm ..
        _ < 2 ^ (m.log2 + 1) * (2 * grainsOfOne) :=
            Nat.mul_lt_mul_of_pos_right Nat.lt_log2_self (by omega)
        _ = 2 ^ (m.log2 + 2) * grainsOfOne := by rw [Nat.pow_succ 2 (m.log2 + 1), Nat.mul_assoc]
        _ = 2 ^ (((m.log2 + 2 : Nat) : Int) + 1074).toNat := by
            rw [two_pow_mul_grainsOfOne, Nat.one_mul]
        _ ≤ 2 ^ (-e).toNat := Nat.pow_le_pow_right (by omega) (by omega)
        _ ≤ 10 ^ (-e).toNat := two_pow_le_ten_pow _
  · obtain ⟨k, rfl⟩ : ∃ k : Nat, e = k := ⟨e.toNat, by omega⟩
    refine ⟨isNaN_roundWithAccuracy .., ?_⟩
    rw [← grainsOf_scaledUp (Nat.pos_of_ne_zero hzero), ← Nat.shiftLeft_eq]
    rfl
  · obtain ⟨k, rfl⟩ : ∃ k : Nat, e = -k := ⟨(-e).toNat, by omega⟩
    have hten : 0 < 10 ^ k := Nat.pow_pos (by omega)
    have hpower : (-(-(k : Int))).toNat = k := by omega
    refine ⟨isNaN_roundWithAccuracy .., ?_⟩
    rw [← grainsOf_scaledDown (Nat.pos_of_ne_zero hzero) hten]
    simp only [hpower]

/-! ## Products and quotients of doubles -/

theorem mul_grainsOfOne_lt {n : Nat} (hbits : n < 2 ^ 53) : n * grainsOfOne < grainsOfInfinity := by
  rw [grainsOfOne_eq]
  exact magnitude_lt hbits (by omega) (by omega)

theorem nearest_mul_grainsOfOne {n : Nat} (hpos : 0 < n) (hbits : n < 2 ^ 53) :
    nearest (n * grainsOfOne) 1 = n * grainsOfOne := by
  rw [grainsOfOne_eq]
  exact nearest_eq_self _ hpos hbits

theorem hasGrains_toFloat {n : UInt64} (hpos : 0 < n.toNat) (hbits : n.toNat < 2 ^ 53) :
    HasGrains n.toFloat (n.toNat * grainsOfOne) := by
  have hunpack : n.toFloat.toModel.unpack = UnpackedFloat.unpack Format.binary64
      (UnpackedFloat.pack Format.binary64
        (UnpackedFloat.normalize Format.binary64 n.toNat 0 .positive)) := rfl
  refine hasGrains_of_pack hunpack (isNaN_normalize ..) ?_ (Nat.mul_pos hpos grainsOfOne_pos)
    (mul_grainsOfOne_lt hbits)
  rw [grainsOf_normalize _ (by omega), ← grainsOfOne_eq, ← Int.natCast_mul, roundGrains_natCast,
    nearest_mul_grainsOfOne hpos hbits]

/-- A power of ten that is a double. -/
def exactPower (k : Nat) (hk : k < 23) : Float :=
  getElem Float.exactlyRepresentablePowersOfTen k hk

theorem hasGrains_exactPower {k : Nat} (hk : k < 23) :
    HasGrains (exactPower k hk) (10 ^ k * grainsOfOne) := by
  have htable : ∀ k, (hk : k < 23) →
      (exactPower k hk).isFinite = true
      ∧ grains (exactPower k hk) = (10 ^ k * grainsOfOne : Nat) := by
    decide +kernel
  obtain ⟨hfin, hgrains⟩ := htable k hk
  exact ⟨hfin, hgrains, Nat.mul_pos (Nat.pow_pos (by omega)) grainsOfOne_pos⟩

/-- Few digits are a double. -/
theorem hasGrains_digits (hm : 0 < m) (hbits : m < 2 ^ 53) :
    HasGrains m.toUInt64.toFloat (m * grainsOfOne) := by
  have hnat : m.toUInt64.toNat = m := by
    rw [Nat.toUInt64_eq, UInt64.toNat_ofNat']
    exact Nat.mod_eq_of_lt (by omega)
  have h := hasGrains_toFloat (n := m.toUInt64) (by omega) (by omega)
  rwa [hnat] at h

variable {k : Nat}

private theorem isRounded_zero : ∀ k, (hk : k < 23) →
    ((0 : Nat).toUInt64.toFloat * exactPower k hk).isNaN = false
    ∧ grains ((0 : Nat).toUInt64.toFloat * exactPower k hk) = 0
    ∧ ((0 : Nat).toUInt64.toFloat / exactPower k hk).isNaN = false
    ∧ grains ((0 : Nat).toUInt64.toFloat / exactPower k hk) = 0 := by decide +kernel

/-- The only rounding is that of the product. -/
theorem isRounded_product (hbits : m < 2 ^ 53) (hk : k < 23) :
    IsRounded (m.toUInt64.toFloat * exactPower k hk) m k := by
  rcases Nat.eq_zero_or_pos m with rfl | hm
  · obtain ⟨hnan, hgrains, -⟩ := isRounded_zero k hk
    exact ⟨hnan, by rw [hgrains, decimalGrains_zero, Nat.cast_zero]⟩
  · have hproduct : nearest (m * grainsOfOne * (10 ^ k * grainsOfOne)) grainsOfOne
        = nearest (m * 10 ^ k * grainsOfOne) 1 :=
      nearest_congr grainsOfOne_pos Nat.one_pos (by ring)
    have hwhole : (-(k : Int)).toNat = 0 := by omega
    obtain ⟨hnan, hgrains⟩ := (hasGrains_digits hm hbits).grains_mul (hasGrains_exactPower hk)
    refine ⟨hnan, ?_⟩
    rw [hgrains, hproduct, decimalGrains, hwhole, Int.toNat_natCast, Nat.pow_zero]

/-- The only rounding is that of the quotient. -/
theorem isRounded_quotient (hbits : m < 2 ^ 53) (hk : k < 23) :
    IsRounded (m.toUInt64.toFloat / exactPower k hk) m (-k) := by
  rcases Nat.eq_zero_or_pos m with rfl | hm
  · obtain ⟨-, -, hnan, hgrains⟩ := isRounded_zero k hk
    exact ⟨hnan, by rw [hgrains, decimalGrains_zero, Nat.cast_zero]⟩
  · have hten : 0 < 10 ^ k := Nat.pow_pos (by omega)
    have hquotient : nearest (m * grainsOfOne * grainsOfOne) (10 ^ k * grainsOfOne)
        = nearest (m * grainsOfOne) (10 ^ k) :=
      nearest_congr (Nat.mul_pos hten grainsOfOne_pos) hten (by ring)
    have hwhole : (-(k : Int)).toNat = 0 := by omega
    obtain ⟨hnan, hgrains⟩ := (hasGrains_digits hm hbits).grains_div (hasGrains_exactPower hk)
    refine ⟨hnan, ?_⟩
    rw [hgrains, hquotient, decimalGrains, hwhole, Int.neg_neg, Int.toNat_natCast, Nat.pow_zero,
      Nat.mul_one]

/-! ## All decimals -/

/-- A decimal is read as the nearest double, or as the infinity if it is beyond the finite ones. -/
theorem isRounded_ofScientific (m : Nat) (down : Bool) (k : Nat) :
    IsRounded (Float.ofScientific m down k) m (if down then -k else k) := by
  unfold Float.ofScientific
  split_ifs with hexact hdown hdown
  · exact isRounded_quotient hexact.1 (by omega)
  · exact isRounded_product hexact.1 (by omega)
  · have hneg : Int.negOfNat k = -k := Int.negOfNat_eq
    obtain ⟨hnan, hgrains⟩ := grainsOf_ofScientific m (-k)
    rw [← hneg] at hnan hgrains ⊢
    exact ⟨isNaN_unpack_pack hnan, hgrains⟩
  · obtain ⟨hnan, hgrains⟩ := grainsOf_ofScientific m k
    exact ⟨isNaN_unpack_pack hnan, hgrains⟩

/-! ## Natural numbers -/

/-- A natural number is read as the nearest double. -/
theorem grains_ofNat (n : Nat) :
    (Float.ofNat n).isNaN = false
    ∧ grains (Float.ofNat n) = (min (nearest (n * grainsOfOne) 1) grainsOfInfinity : Nat) := by
  have h : IsRounded (Float.ofNat n) n (0 : Nat) := isRounded_ofScientific n false 0
  have hwhole : (-((0 : Nat) : Int)).toNat = 0 := rfl
  have hgrains := h.grains_eq
  rw [decimalGrains, hwhole, Int.toNat_natCast, Nat.pow_zero, Nat.mul_one] at hgrains
  exact ⟨h.isNaN_eq, hgrains⟩

/-- Up to `2 ^ 53` a natural number needs no rounding. -/
theorem nearest_natCast_of_le {n : Nat} (hpos : 0 < n) (h : n ≤ 2 ^ 53) :
    nearest (n * grainsOfOne) 1 = n * grainsOfOne := by
  rcases Nat.lt_or_eq_of_le h with hlt | rfl
  · exact nearest_mul_grainsOfOne hpos hlt
  · rw [two_pow_mul_grainsOfOne]
    exact nearest_eq_self _ Nat.one_pos (by omega)

/-- Rounding keeps the order of natural numbers. -/
theorem nearest_natCast_mono {m n : Nat} (h : m ≤ n) :
    nearest (m * grainsOfOne) 1 ≤ nearest (n * grainsOfOne) 1 := by
  refine nearest_mono Nat.one_pos Nat.one_pos ?_
  rw [Nat.mul_one, Nat.mul_one]
  exact Nat.mul_le_mul_right _ h

theorem grainsOfOne_le_nearest {n : Nat} (hpos : 0 < n) :
    grainsOfOne ≤ nearest (n * grainsOfOne) 1 := by
  have hle := nearest_natCast_mono hpos
  rwa [nearest_mul_grainsOfOne Nat.one_pos (by omega), Nat.one_mul] at hle

/-- A natural number of at most sixty-four bits is within the range, also when it is rounded. -/
theorem nearest_natCast_lt {n : Nat} (hbits : n < 2 ^ 64) :
    nearest (n * grainsOfOne) 1 < grainsOfInfinity := by
  have hle := nearest_natCast_mono hbits.le
  rw [two_pow_mul_grainsOfOne, nearest_eq_self _ Nat.one_pos (by omega)] at hle
  exact Nat.lt_of_le_of_lt hle (magnitude_lt (by omega) (by omega) (by omega))

/-- A natural number of at most sixty-four bits is within the range. -/
theorem hasGrains_ofNat_nearest (hpos : 0 < n) (hbits : n < 2 ^ 64) :
    HasGrains (Float.ofNat n) (nearest (n * grainsOfOne) 1) := by
  obtain ⟨hnan, hgrains⟩ := grains_ofNat n
  have hlt := nearest_natCast_lt hbits
  rw [Nat.min_eq_left hlt.le] at hgrains
  exact hasGrains_of_grains hnan hgrains
    (Nat.lt_of_lt_of_le grainsOfOne_pos (grainsOfOne_le_nearest hpos)) hlt

end TriggerLatency.Double
