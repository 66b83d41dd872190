import TriggerLatency.Proofs.Double.Rounding

/-!
# Products and quotients

The product and the quotient of two positive floats are the doubles nearest to the exact ones, or
the infinity beyond the finite ones (`HasGrains.grains_mul`, `HasGrains.grains_div`).
-/

namespace TriggerLatency.Double

open Float.Model Float.Model.UnpackedFloat

/-- The nearest double reads the quotient, not the fraction. -/
theorem nearest_congr {a b c d : Nat} (hb : 0 < b) (hd : 0 < d) (h : a * d = c * b) :
    nearest a b = nearest c d :=
  Nat.le_antisymm (nearest_mono hb hd h.le) (nearest_mono hd hb h.ge)

/-- What is left of a division tells how the rest compares with a half. -/
theorem represents_fraction (num : Nat) {den : Nat} (hd : 0 < den) :
    Represents (ExtendedMantissa.ofMantissaAndAccuracy (num / den)
      (accuracyOfFraction (num % den) den)) num den := by
  unfold accuracyOfFraction
  split
  · next hzero =>
    refine ⟨rfl, ?_, ?_⟩
    · show false = true ↔ _
      simp
      omega
    · show false = true ↔ _
      simp [hzero]
  · next hrest =>
    -- what is left is less than half a unit, half a unit, or more
    rcases lt_trichotomy (2 * (num % den)) den with hlt | heq | hgt
    · rw [compare_lt_iff_lt.mpr hlt]
      refine ⟨rfl, ?_, ?_⟩
      · show false = true ↔ _
        simp
        omega
      · show true = true ↔ _
        simp
        omega
    · rw [compare_eq_iff_eq.mpr heq]
      refine ⟨rfl, ?_, ?_⟩
      · show true = true ↔ _
        simp
        omega
      · show false = true ↔ _
        simp
        omega
    · rw [compare_gt_iff_gt.mpr hgt]
      refine ⟨rfl, ?_, ?_⟩
      · show true = true ↔ _
        simp
        omega
      · show true = true ↔ _
        simp
        omega

section

variable {m₁ m₂ : Nat} {e₁ e₂ : Int}

/-- The quotient of two positive values, as it is divided out. -/
theorem grainsOf_div (h₁ : 0 < m₁) (h₂ : 0 < m₂) (he₁ : -1074 ≤ e₁) (he₂ : -1074 ≤ e₂) :
    grainsOf (UnpackedFloat.unpack Format.binary64 (UnpackedFloat.pack Format.binary64
        (UnpackedFloat.div Format.binary64 (.finite .positive m₁ e₁ h₁)
          (.finite .positive m₂ e₂ h₂))))
      = (min (nearest (m₁ * 2 ^ (e₁ + 1074).toNat * grainsOfOne) (m₂ * 2 ^ (e₂ + 1074).toNat))
          grainsOfInfinity : Nat) := by
  -- the exponent to which the first mantissa is shifted before the division
  obtain ⟨t, ht⟩ : ∃ t, t = min (e₁ - e₂) (Format.binary64.targetExponent
      (totalExponent m₁ e₁ - totalExponent m₂ e₂)) := ⟨_, rfl⟩
  obtain ⟨k, hk⟩ : ∃ k : Nat, k = (e₁ - e₂ - t).toNat := ⟨_, rfl⟩
  have htarget : t = min (e₁ - e₂) (max ((m₁.log2 + 1 + e₁ : Int) - (m₂.log2 + 1 + e₂) - 53)
      (-1074)) := ht
  have hdiv : UnpackedFloat.div Format.binary64 (.finite .positive m₁ e₁ h₁)
        (.finite .positive m₂ e₂ h₂)
      = roundWithAccuracy Format.binary64 .positive (m₁ * 2 ^ k / m₂) t
          (accuracyOfFraction (m₁ * 2 ^ k % m₂) m₂) := by
    unfold UnpackedFloat.div divCore
    dsimp only
    rw [← ht, ← hk, Nat.shiftLeft_eq]
    rfl
  have henough : 52 ≤ (m₁ * 2 ^ k / m₂).log2 ∨ t ≤ -1074 := by
    rcases Int.lt_or_le (-1074) t with hlarge | hsmall
    · left
      have hshift : m₂.log2 + 53 ≤ m₁.log2 + k := by omega
      have hle : 2 ^ 52 ≤ m₁ * 2 ^ k / m₂ := by
        rw [Nat.le_div_iff_mul_le h₂]
        calc 2 ^ 52 * m₂ ≤ 2 ^ 52 * 2 ^ (m₂.log2 + 1) :=
              Nat.mul_le_mul_left _ Nat.lt_log2_self.le
          _ = 2 ^ (m₂.log2 + 53) := by rw [← Nat.pow_add]; congr 1; omega
          _ ≤ 2 ^ (m₁.log2 + k) := Nat.pow_le_pow_right (by omega) hshift
          _ = 2 ^ m₁.log2 * 2 ^ k := Nat.pow_add ..
          _ ≤ m₁ * 2 ^ k := Nat.mul_le_mul_right _ (Nat.log2_self_le h₁.ne')
      exact (Nat.le_log2 (by omega)).mpr hle
    · exact Or.inr hsmall
  rw [hdiv, grainsOf_roundWithAccuracy .positive h₂ (represents_fraction _ h₂) henough]
  have hsame : m₁ * 2 ^ k * 2 ^ (t + 1074).toNat * (m₂ * 2 ^ (e₂ + 1074).toNat)
      = m₁ * 2 ^ (e₁ + 1074).toNat * grainsOfOne * (m₂ * 2 ^ (-(t + 1074)).toNat) := by
    unfold grainsOfOne
    generalize hg : 1074 = g
    have hexp : k + (t + 1074).toNat + (e₂ + 1074).toNat
        = (e₁ + 1074).toNat + g + (-(t + 1074)).toNat := by omega
    calc m₁ * 2 ^ k * 2 ^ (t + 1074).toNat * (m₂ * 2 ^ (e₂ + 1074).toNat)
        = m₁ * m₂ * 2 ^ (k + (t + 1074).toNat + (e₂ + 1074).toNat) := by
          rw [Nat.pow_add, Nat.pow_add]
          ring
      _ = m₁ * 2 ^ (e₁ + 1074).toNat * 2 ^ g * (m₂ * 2 ^ (-(t + 1074)).toNat) := by
          rw [hexp, Nat.pow_add, Nat.pow_add]
          ring
  rw [nearest_congr (Nat.mul_pos h₂ (Nat.two_pow_pos _)) (Nat.mul_pos h₂ (Nat.two_pow_pos _)) hsame]
  rfl

/-- The product of two positive values. -/
theorem grainsOf_mul {h₁ : 0 < m₁} {h₂ : 0 < m₂} (hu : Canonical (.finite .positive m₁ e₁ h₁))
    (hv : Canonical (.finite .positive m₂ e₂ h₂)) :
    grainsOf (UnpackedFloat.unpack Format.binary64 (UnpackedFloat.pack Format.binary64
        (UnpackedFloat.mul Format.binary64 (.finite .positive m₁ e₁ h₁)
          (.finite .positive m₂ e₂ h₂))))
      = (min (nearest (m₁ * 2 ^ (e₁ + 1074).toNat * (m₂ * 2 ^ (e₂ + 1074).toNat)) grainsOfOne)
          grainsOfInfinity : Nat) := by
  obtain ⟨-, he₁, -, hfull₁⟩ := hu
  obtain ⟨-, he₂, -, hfull₂⟩ := hv
  -- one full factor makes the product full; without one it is far below the last place
  have henough : 52 ≤ (m₁ * m₂).log2 ∨ e₁ + e₂ ≤ -1074 := by
    have hne : m₁ * m₂ ≠ 0 := (Nat.mul_pos h₁ h₂).ne'
    rcases hfull₁ with hfull | hlow
    · exact Or.inl ((Nat.le_log2 hne).mpr (Nat.le_trans hfull (Nat.le_mul_of_pos_right m₁ h₂)))
    · rcases hfull₂ with hfull | hlow'
      · exact Or.inl ((Nat.le_log2 hne).mpr (Nat.le_trans hfull (Nat.le_mul_of_pos_left m₂ h₁)))
      · exact Or.inr (by omega)
  have hmul : UnpackedFloat.mul Format.binary64 (.finite .positive m₁ e₁ h₁)
        (.finite .positive m₂ e₂ h₂)
      = roundWithAccuracy Format.binary64 .positive (m₁ * m₂) (e₁ + e₂) .exact := rfl
  -- the product as a fraction of grains
  have hsame : m₁ * m₂ * 2 ^ (e₁ + e₂ + 1074).toNat * grainsOfOne
      = m₁ * 2 ^ (e₁ + 1074).toNat * (m₂ * 2 ^ (e₂ + 1074).toNat)
        * (1 * 2 ^ (-(e₁ + e₂ + 1074)).toNat) := by
    unfold grainsOfOne
    generalize hg : 1074 = g
    have hexp : (e₁ + e₂ + 1074).toNat + g
        = (e₁ + 1074).toNat + (e₂ + 1074).toNat + (-(e₁ + e₂ + 1074)).toNat := by omega
    calc m₁ * m₂ * 2 ^ (e₁ + e₂ + 1074).toNat * 2 ^ g
        = m₁ * m₂ * 2 ^ ((e₁ + e₂ + 1074).toNat + g) := by
          rw [Nat.pow_add]
          ring
      _ = m₁ * 2 ^ (e₁ + 1074).toNat * (m₂ * 2 ^ (e₂ + 1074).toNat)
          * (1 * 2 ^ (-(e₁ + e₂ + 1074)).toNat) := by
          rw [hexp, Nat.pow_add, Nat.pow_add]
          ring
  rw [hmul, grainsOf_roundWithAccuracy .positive Nat.one_pos (represents_exact _) henough,
    nearest_congr (Nat.mul_pos Nat.one_pos (Nat.two_pow_pos _)) grainsOfOne_pos hsame]
  rfl

end

/-! ## Positive floats -/

/-- A finite float above zero, of `n` grains. -/
structure HasGrains (x : Float) (n : Nat) : Prop where
  isFinite : x.isFinite = true
  grains_eq : grains x = n
  pos : 0 < n

/-- A number of grains above zero and within the range is that of a finite float. -/
theorem hasGrains_of_grains {x : Float} {n : Nat} (hnan : x.isNaN = false) (hgrains : grains x = n)
    (hpos : 0 < n) (hfin : n < grainsOfInfinity) : HasGrains x n :=
  ⟨isFinite_iff_grains.mpr ⟨hnan, by omega, by omega⟩, hgrains, hpos⟩

/-- What packs as a positive value within the range has as many grains. -/
theorem hasGrains_of_pack {x : Float} {u : UnpackedFloat} {n : Nat}
    (hx : x.toModel.unpack
      = UnpackedFloat.unpack Format.binary64 (UnpackedFloat.pack Format.binary64 u))
    (hnan : u.isNaN = false)
    (hu : grainsOf (UnpackedFloat.unpack Format.binary64 (UnpackedFloat.pack Format.binary64 u))
      = (min n grainsOfInfinity : Nat))
    (hpos : 0 < n) (hfin : n < grainsOfInfinity) : HasGrains x n := by
  have hgrains : grains x = n := by
    rw [grains, hx, hu, Nat.min_eq_left hfin.le]
  have hnumber : x.isNaN = false := by
    show x.toModel.unpack.isNaN = false
    rw [hx]
    exact isNaN_unpack_pack hnan
  exact hasGrains_of_grains hnumber hgrains hpos hfin

namespace HasGrains

variable {x y : Float} {a b n : Nat}

theorem lt_infinity (h : HasGrains x n) : n < grainsOfInfinity := by
  have := (isFinite_iff_grains.mp h.isFinite).2.2
  rw [h.grains_eq] at this
  omega

/-- Its grains tell a float. -/
theorem unique (hx : HasGrains x n) (hy : HasGrains y n) : x = y := by
  refine float_eq_of_grains_eq (isNaN_of_isFinite hx.isFinite) (isNaN_of_isFinite hy.isFinite) ?_
    (hx.grains_eq.trans hy.grains_eq.symm)
  rw [hx.grains_eq]
  exact_mod_cast hx.pos

theorem exists_unpack (h : HasGrains x n) : ∃ (m : Nat) (e : Int) (hm : 0 < m),
    x.toModel.unpack = .finite .positive m e hm ∧ Canonical (.finite .positive m e hm)
      ∧ n = m * 2 ^ (e + 1074).toNat := by
  have hcanonical := canonical_toModel x
  have hfin : x.toModel.unpack.isFinite = true := h.isFinite
  have hgrains : grainsOf x.toModel.unpack = n := h.grains_eq
  have hpos := h.pos
  cases hx : x.toModel.unpack with
  | notANumber =>
    rw [hx] at hfin
    exact absurd hfin Bool.false_ne_true
  | infinity s =>
    rw [hx] at hfin
    exact absurd hfin Bool.false_ne_true
  | zero s =>
    rw [hx] at hgrains
    have hzero : (0 : Int) = n := hgrains
    omega
  | finite s m e hm =>
    rw [hx] at hgrains hcanonical
    cases s with
    | negative =>
      have hneg : -((m * 2 ^ (e + 1074).toNat : Nat) : Int) = n := hgrains
      omega
    | positive => exact ⟨m, e, hm, rfl, hcanonical, (Int.ofNat.inj hgrains).symm⟩

/-- The product is that of the grains, rounded, also where it is too small or too great. -/
theorem grains_mul (hx : HasGrains x a) (hy : HasGrains y b) :
    (x * y).isNaN = false
    ∧ grains (x * y) = (min (nearest (a * b) grainsOfOne) grainsOfInfinity : Nat) := by
  obtain ⟨m₁, e₁, h₁, hux, hcx, ha⟩ := hx.exists_unpack
  obtain ⟨m₂, e₂, h₂, huy, hcy, hb⟩ := hy.exists_unpack
  have hunpack : (x * y).toModel.unpack = UnpackedFloat.unpack Format.binary64
      (UnpackedFloat.pack Format.binary64 (UnpackedFloat.mul Format.binary64
        (.finite .positive m₁ e₁ h₁) (.finite .positive m₂ e₂ h₂))) := by
    rw [← hux, ← huy]
    rfl
  constructor
  · show (x * y).toModel.unpack.isNaN = false
    rw [hunpack]
    exact isNaN_unpack_pack (isNaN_roundWithAccuracy ..)
  · rw [grains, hunpack, grainsOf_mul hcx hcy, ← ha, ← hb]

/-- The quotient is that of the grains, rounded, also where it is too small or too great. -/
theorem grains_div (hx : HasGrains x a) (hy : HasGrains y b) :
    (x / y).isNaN = false
    ∧ grains (x / y) = (min (nearest (a * grainsOfOne) b) grainsOfInfinity : Nat) := by
  obtain ⟨m₁, e₁, h₁, hux, hcx, ha⟩ := hx.exists_unpack
  obtain ⟨m₂, e₂, h₂, huy, hcy, hb⟩ := hy.exists_unpack
  have hunpack : (x / y).toModel.unpack = UnpackedFloat.unpack Format.binary64
      (UnpackedFloat.pack Format.binary64 (UnpackedFloat.div Format.binary64
        (.finite .positive m₁ e₁ h₁) (.finite .positive m₂ e₂ h₂))) := by
    rw [← hux, ← huy]
    rfl
  constructor
  · show (x / y).toModel.unpack.isNaN = false
    rw [hunpack]
    exact isNaN_unpack_pack (isNaN_roundWithAccuracy ..)
  · rw [grains, hunpack, grainsOf_div h₁ h₂ hcx.2.1 hcy.2.1, ← ha, ← hb]

theorem div (hx : HasGrains x a) (hy : HasGrains y b) (hn : nearest (a * grainsOfOne) b = n)
    (hpos : 0 < n) (hfin : n < grainsOfInfinity) : HasGrains (x / y) n := by
  obtain ⟨hnan, hgrains⟩ := hx.grains_div hy
  rw [hn, Nat.min_eq_left hfin.le] at hgrains
  exact hasGrains_of_grains hnan hgrains hpos hfin

end HasGrains

end TriggerLatency.Double
