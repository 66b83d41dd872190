import Mathlib

/-!
# Doubles as whole numbers of grains

Every finite double is a whole multiple of the least positive one, `2 ^ -1074`. That
multiple, `grains`, is an integer, and with the infinities put one step beyond the
greatest finite value it orders all doubles but not-a-number: `lt_iff_grains` and
`le_iff_grains` turn each comparison of floats into one of integers.

The order rests on the shape of what bits can hold (`Canonical`): a full mantissa, or
the least exponent. Packing such a value and unpacking it again loses nothing
(`unpack_pack`).
-/

namespace TriggerLatency.Double

open Float.Model Float.Model.UnpackedFloat

/-! ## The shape of unpacked values -/

/-- What the bits of a double can hold: fifty-three bits of mantissa, all of them in use unless
the exponent is the least one. -/
def Canonical : UnpackedFloat → Prop
  | .finite _ m e _ => m < 2 ^ 53 ∧ -1074 ≤ e ∧ e ≤ 971 ∧ (2 ^ 52 ≤ m ∨ e = -1074)
  | _ => True

/-- The implicit bit stands above the stored ones. -/
private theorem toNat_implicit (m : BitVec 52) : (1#1 ++ m).toNat = 2 ^ 52 + m.toNat := by
  rw [BitVec.toNat_append, ← Nat.shiftLeft_add_eq_or_of_lt m.isLt]
  rfl

theorem canonical_unpack (b : BitVec Format.binary64.numBits) :
    Canonical (UnpackedFloat.unpack Format.binary64 b) := by
  have hm : (@unpackMantissa Format.binary64 b).toNat < 2 ^ 52 :=
    (@unpackMantissa Format.binary64 b).isLt
  have he : (@unpackExponent Format.binary64 b).toNat < 2 ^ 11 :=
    (@unpackExponent Format.binary64 b).isLt
  unfold UnpackedFloat.unpack
  dsimp only [Format.exponentBias]
  split_ifs with hinf hnan hzero hsub
  · trivial
  · trivial
  · trivial
  · -- the exponent field is zero: the stored bits are the mantissa
    rw [hzero]
    exact ⟨by omega, by simp, by simp, Or.inr (by simp)⟩
  · -- the implicit bit makes the mantissa full
    have hlow : (@unpackExponent Format.binary64 b).toNat ≠ 0 := fun h =>
      hzero (BitVec.eq_of_toNat_eq h)
    have hhigh : (@unpackExponent Format.binary64 b).toNat ≠ 2047 := fun h =>
      hinf (BitVec.eq_of_toNat_eq h)
    dsimp only [Canonical]
    rw [toNat_implicit]
    norm_num
    omega

/-- The exponent field of a finite value is neither all zeros nor all ones. -/
private theorem exponentField {k : Nat} (hlow : 0 < k) (hhigh : k < 2047) :
    (BitVec.ofNat 11 k).toNat = k ∧ BitVec.ofNat 11 k ≠ 0#11 ∧ BitVec.ofNat 11 k ≠ -1#11 := by
  have hfield : (BitVec.ofNat 11 k).toNat = k := by
    rw [BitVec.toNat_ofNat, Nat.mod_eq_of_lt (by omega)]
  refine ⟨hfield, ?_, ?_⟩
  all_goals
    intro h
    have := hfield.symm.trans (congrArg BitVec.toNat h)
    simp at this
    omega

/-- A mantissa that uses all its bits is packed with its exponent. -/
private theorem unpack_pack_normal (s : Sign) {m : Nat} {e : Int} (hm : 0 < m)
    (hfull : 2 ^ 52 ≤ m) (hbits : m < 2 ^ 53) (hlow : -1074 ≤ e) (hhigh : e ≤ 971) :
    UnpackedFloat.unpack Format.binary64 (UnpackedFloat.pack Format.binary64 (.finite s m e hm))
      = .finite s m e hm := by
  have hlog : m.log2 + 1 = Format.binary64.mantissaBits := by
    rw [(Nat.log2_eq_iff hm.ne').mpr ⟨hfull, hbits⟩]
    rfl
  have hmant : (1#1 ++ BitVec.ofNat 52 m).toNat = m := by
    rw [toNat_implicit, BitVec.toNat_ofNat]
    omega
  obtain ⟨k, hk⟩ : ∃ k : Nat, e + 1075 = k := ⟨(e + 1075).toNat, by omega⟩
  have hbiased : (e + Format.binary64.exponentBias
      + Format.binary64.mantissaBitsWithoutImplicit).toNat = k := by
    show (e + 1023 + 52).toNat = k
    omega
  obtain ⟨hfield, hne0, hne1⟩ := exponentField (k := k) (by omega) (by omega)
  have hfits : ¬ 2 ^ 11 ≤ k + 1 := by omega
  simp only [UnpackedFloat.pack, hbiased, hlog, if_neg hfits, if_true]
  simp only [UnpackedFloat.unpack, unpackMantissa_packComponents, unpackExponent_packComponents,
    unpackSign_packComponents, Sign.ofBitVec_toBitVec, if_neg hne0, if_neg hne1, hmant, hfield]
  congr 1
  show (k : Int) - (1023 + 52) = e
  omega

/-- A mantissa that leaves bits unused has the least exponent, and is packed on its own. -/
private theorem unpack_pack_subnormal (s : Sign) {m : Nat} (hm : 0 < m) (hbits : m < 2 ^ 52) :
    UnpackedFloat.unpack Format.binary64
        (UnpackedFloat.pack Format.binary64 (.finite s m (-1074) hm))
      = .finite s m (-1074) hm := by
  have hlog : ¬ m.log2 + 1 = Format.binary64.mantissaBits := by
    have := (Nat.log2_lt hm.ne').mpr hbits
    show ¬ m.log2 + 1 = 53
    omega
  have hfield : (BitVec.ofNat 52 m).toNat = m := by
    rw [BitVec.toNat_ofNat, Nat.mod_eq_of_lt hbits]
  have hne0 : BitVec.ofNat 52 m ≠ 0#52 := fun h => by
    have := hfield.symm.trans (congrArg BitVec.toNat h)
    simp at this
    omega
  have hfits : ¬ 2 ^ 11 ≤ (-1074 + (Format.binary64.exponentBias : Int)
      + Format.binary64.mantissaBitsWithoutImplicit).toNat + 1 := by decide
  simp only [UnpackedFloat.pack, if_neg hfits, if_neg hlog]
  simp only [UnpackedFloat.unpack, unpackMantissa_packComponents, unpackExponent_packComponents,
    unpackSign_packComponents, Sign.ofBitVec_toBitVec, dif_neg hne0, hfield]
  rfl

/-- Packing loses nothing of a value that bits can hold. -/
theorem unpack_pack {u : UnpackedFloat} (h : Canonical u) :
    UnpackedFloat.unpack Format.binary64 (UnpackedFloat.pack Format.binary64 u) = u := by
  cases u with
  | infinity s => cases s <;> rfl
  | notANumber => rfl
  | zero s => cases s <;> rfl
  | finite s m e hm =>
    obtain ⟨hbits, hlow, hhigh, hfull⟩ := h
    rcases Nat.lt_or_ge m (2 ^ 52) with hsub | hnormal
    · obtain rfl : e = -1074 := hfull.resolve_left (by omega)
      exact unpack_pack_subnormal s hm hsub
    · exact unpack_pack_normal s hm hnormal hbits hlow hhigh

/-! ## Grains -/

/-- Where the infinities stand: one step beyond the greatest finite value. -/
@[irreducible] def grainsOfInfinity : Nat := 2 ^ 2098

/-- How many grains make one. -/
@[irreducible] def grainsOfOne : Nat := 2 ^ 1074

/-- The value of a double in grains of `2 ^ -1074`. Not-a-number has none and is given zero. -/
def grainsOf : UnpackedFloat → Int
  | .notANumber => 0
  | .infinity s => s.apply grainsOfInfinity
  | .zero _ => 0
  | .finite s m e _ => s.apply (m * 2 ^ (e + 1074).toNat : Nat)

/-- The value of a float in grains. -/
def grains (x : Float) : Int := grainsOf x.toModel.unpack

theorem grains_zero : grains 0 = 0 := by decide +kernel

theorem grainsOfInfinity_pos : 0 < grainsOfInfinity := by
  unfold grainsOfInfinity
  positivity

theorem grainsOfOne_pos : 0 < grainsOfOne := by
  unfold grainsOfOne
  positivity

theorem apply_neg (s : Sign) (n : Int) : (-s).apply n = -s.apply n := by
  cases s
  · exact (Int.neg_neg n).symm
  · rfl

/-- Finite values lie within the infinities. -/
theorem magnitude_lt {m : Nat} {e : Int} (hbits : m < 2 ^ 53) (hlow : -1074 ≤ e) (hhigh : e ≤ 971) :
    m * 2 ^ (e + 1074).toNat < grainsOfInfinity := by
  calc m * 2 ^ (e + 1074).toNat
      < 2 ^ 53 * 2 ^ (e + 1074).toNat :=
        Nat.mul_lt_mul_of_pos_right hbits (Nat.two_pow_pos _)
    _ = 2 ^ (53 + (e + 1074).toNat) := (Nat.pow_add ..).symm
    _ ≤ grainsOfInfinity := by
        unfold grainsOfInfinity
        gcongr <;> omega

/-- Magnitudes are ordered by exponent first, since a greater exponent means a full mantissa. -/
private theorem compare_magnitude {m₁ m₂ : Nat} {e₁ e₂ : Int}
    (h₁ : m₁ < 2 ^ 53 ∧ -1074 ≤ e₁ ∧ e₁ ≤ 971 ∧ (2 ^ 52 ≤ m₁ ∨ e₁ = -1074))
    (h₂ : m₂ < 2 ^ 53 ∧ -1074 ≤ e₂ ∧ e₂ ≤ 971 ∧ (2 ^ 52 ≤ m₂ ∨ e₂ = -1074)) :
    (compare e₁ e₂).then (compare m₁ m₂)
      = compare (m₁ * 2 ^ (e₁ + 1074).toNat) (m₂ * 2 ^ (e₂ + 1074).toNat) := by
  -- a full mantissa outweighs every mantissa with a lesser exponent
  have hstep : ∀ {m n : Nat} {d e : Int}, m < 2 ^ 53 → -1074 ≤ d → (2 ^ 52 ≤ n ∨ e = -1074) →
      d < e → m * 2 ^ (d + 1074).toNat < n * 2 ^ (e + 1074).toNat := by
    intro m n d e hm hd hn hde
    have hn : 2 ^ 52 ≤ n := hn.resolve_right (by omega)
    calc m * 2 ^ (d + 1074).toNat
        < 2 ^ 53 * 2 ^ (d + 1074).toNat := Nat.mul_lt_mul_of_pos_right hm (Nat.two_pow_pos _)
      _ = 2 ^ 52 * 2 ^ ((d + 1074).toNat + 1) := by rw [Nat.pow_succ]; ring
      _ ≤ n * 2 ^ (e + 1074).toNat :=
          Nat.mul_le_mul hn (Nat.pow_le_pow_right (by omega) (by omega))
  obtain ⟨hm₁, hl₁, -, hf₁⟩ := h₁
  obtain ⟨hm₂, hl₂, -, hf₂⟩ := h₂
  rcases lt_trichotomy e₁ e₂ with hlt | rfl | hgt
  · rw [compare_lt_iff_lt.mpr hlt, compare_lt_iff_lt.mpr (hstep hm₁ hl₁ hf₂ hlt)]
    rfl
  · rw [compare_eq_iff_eq.mpr rfl]
    have hpos : 0 < 2 ^ (e₁ + 1074).toNat := Nat.two_pow_pos _
    rcases lt_trichotomy m₁ m₂ with hlt | rfl | hgt
    · rw [compare_lt_iff_lt.mpr hlt, compare_lt_iff_lt.mpr (Nat.mul_lt_mul_of_pos_right hlt hpos)]
      rfl
    · rw [compare_eq_iff_eq.mpr rfl, compare_eq_iff_eq.mpr rfl]
      rfl
    · rw [compare_gt_iff_gt.mpr hgt, compare_gt_iff_gt.mpr (Nat.mul_lt_mul_of_pos_right hgt hpos)]
      rfl
  · rw [compare_gt_iff_gt.mpr hgt, compare_gt_iff_gt.mpr (hstep hm₂ hl₂ hf₁ hgt)]
    rfl

private theorem compare_natCast (a b : Nat) : compare (a : Int) b = compare a b := by
  rcases lt_trichotomy a b with hlt | rfl | hgt
  · rw [compare_lt_iff_lt.mpr hlt, compare_lt_iff_lt.mpr (by omega)]
  · rw [compare_eq_iff_eq.mpr rfl, compare_eq_iff_eq.mpr rfl]
  · rw [compare_gt_iff_gt.mpr hgt, compare_gt_iff_gt.mpr (by omega)]

private theorem compare_neg_neg (a b : Int) : compare (-a) (-b) = (compare a b).swap := by
  rcases lt_trichotomy a b with hlt | rfl | hgt
  · rw [compare_lt_iff_lt.mpr hlt, compare_gt_iff_gt.mpr (by omega)]
    rfl
  · rw [compare_eq_iff_eq.mpr rfl, compare_eq_iff_eq.mpr rfl]
    rfl
  · rw [compare_gt_iff_gt.mpr hgt, compare_lt_iff_lt.mpr (by omega)]
    rfl

private theorem lt_eq_compare {a b : Int} (h : a < b) : some Ordering.lt = some (compare a b) := by
  rw [compare_lt_iff_lt.mpr h]

private theorem gt_eq_compare {a b : Int} (h : b < a) : some Ordering.gt = some (compare a b) := by
  rw [compare_gt_iff_gt.mpr h]

private theorem eq_eq_compare (a : Int) : some Ordering.eq = some (compare a a) := by
  rw [compare_eq_iff_eq.mpr rfl]

/-- The infinities lie beyond all else. -/
private theorem compare_infinity (s : Sign) {v : UnpackedFloat} (hv : Canonical v)
    (hvn : v.isNaN = false) :
    (UnpackedFloat.infinity s).compare v
      = some (compare (grainsOf (.infinity s)) (grainsOf v)) := by
  have hinf := grainsOfInfinity_pos
  cases v with
  | notANumber => exact absurd hvn (by simp [UnpackedFloat.isNaN])
  | infinity t =>
    cases s <;> cases t
    · exact eq_eq_compare _
    · exact lt_eq_compare (by simp only [grainsOf, Sign.apply]; omega)
    · exact gt_eq_compare (by simp only [grainsOf, Sign.apply]; omega)
    · exact eq_eq_compare _
  | zero t =>
    cases s
    · exact lt_eq_compare (by simp only [grainsOf, Sign.apply]; omega)
    · exact gt_eq_compare (by simp only [grainsOf, Sign.apply]; omega)
  | finite t m e hm =>
    have hmag := magnitude_lt hv.1 hv.2.1 hv.2.2.1
    -- the sign of the infinity alone decides
    cases s <;> cases t
    · exact lt_eq_compare (by simp only [grainsOf, Sign.apply]; omega)
    · exact lt_eq_compare (by simp only [grainsOf, Sign.apply]; omega)
    · exact gt_eq_compare (by simp only [grainsOf, Sign.apply]; omega)
    · exact gt_eq_compare (by simp only [grainsOf, Sign.apply]; omega)

/-- Zero, of either sign, lies between the signs. -/
private theorem compare_zero (s : Sign) {v : UnpackedFloat} (hvn : v.isNaN = false) :
    (UnpackedFloat.zero s).compare v = some (compare (grainsOf (.zero s)) (grainsOf v)) := by
  cases v with
  | notANumber => exact absurd hvn (by simp [UnpackedFloat.isNaN])
  | infinity t =>
    have hinf := grainsOfInfinity_pos
    cases t
    · exact gt_eq_compare (by simp only [grainsOf, Sign.apply]; omega)
    · exact lt_eq_compare (by simp only [grainsOf, Sign.apply]; omega)
  | zero t => exact eq_eq_compare 0
  | finite t m e hm =>
    have hpos : 0 < m * 2 ^ (e + 1074).toNat := Nat.mul_pos hm (Nat.two_pow_pos _)
    cases t
    · exact gt_eq_compare (by simp only [grainsOf, Sign.apply]; omega)
    · exact lt_eq_compare (by simp only [grainsOf, Sign.apply]; omega)

/-- Between finite values the signs decide, and then the magnitudes. -/
private theorem compare_finite (s : Sign) {m : Nat} {e : Int} (hm : 0 < m) {v : UnpackedFloat}
    (hu : Canonical (.finite s m e hm)) (hv : Canonical v) (hvn : v.isNaN = false) :
    (UnpackedFloat.finite s m e hm).compare v
      = some (compare (grainsOf (.finite s m e hm)) (grainsOf v)) := by
  have hmag := magnitude_lt hu.1 hu.2.1 hu.2.2.1
  have hpos : 0 < m * 2 ^ (e + 1074).toNat := Nat.mul_pos hm (Nat.two_pow_pos _)
  cases v with
  | notANumber => exact absurd hvn (by simp [UnpackedFloat.isNaN])
  | infinity t =>
    cases s <;> cases t
    · exact gt_eq_compare (by simp only [grainsOf, Sign.apply]; omega)
    · exact lt_eq_compare (by simp only [grainsOf, Sign.apply]; omega)
    · exact gt_eq_compare (by simp only [grainsOf, Sign.apply]; omega)
    · exact lt_eq_compare (by simp only [grainsOf, Sign.apply]; omega)
  | zero t =>
    cases s
    · exact lt_eq_compare (by simp only [grainsOf, Sign.apply]; omega)
    · exact gt_eq_compare (by simp only [grainsOf, Sign.apply]; omega)
  | finite t n d hn =>
    have hpos' : 0 < n * 2 ^ (d + 1074).toNat := Nat.mul_pos hn (Nat.two_pow_pos _)
    have hmagnitudes := compare_magnitude hu hv
    cases s <;> cases t
    · -- both below zero: the greater magnitude is the lesser value
      simp only [UnpackedFloat.compare, grainsOf, Sign.apply, compare_neg_neg, compare_natCast,
        hmagnitudes]
    · exact lt_eq_compare (by simp only [grainsOf, Sign.apply]; omega)
    · exact gt_eq_compare (by simp only [grainsOf, Sign.apply]; omega)
    · simp only [UnpackedFloat.compare, grainsOf, Sign.apply, compare_natCast, hmagnitudes]

/-- Apart from not-a-number, doubles compare as their grains do. -/
theorem compare_eq_compare_grainsOf {u v : UnpackedFloat} (hu : Canonical u) (hv : Canonical v)
    (hun : u.isNaN = false) (hvn : v.isNaN = false) :
    u.compare v = some (compare (grainsOf u) (grainsOf v)) := by
  cases u with
  | notANumber => exact absurd hun (by simp [UnpackedFloat.isNaN])
  | infinity s => exact compare_infinity s hv hvn
  | zero s => exact compare_zero s hvn
  | finite s m e hm => exact compare_finite s hm hu hv hvn

/-! ## Floats -/

variable {x y : Float}

theorem canonical_toModel (x : Float) : Canonical x.toModel.unpack :=
  canonical_unpack x.toModel.toBits.toBitVec

theorem lt_iff_grains (hx : x.isNaN = false) (hy : y.isNaN = false) :
    x < y ↔ grains x < grains y := by
  have hlt : x < y ↔ x.toModel.unpack.lt y.toModel.unpack = true := decide_eq_true_iff
  rw [hlt, UnpackedFloat.lt,
    compare_eq_compare_grainsOf (canonical_toModel x) (canonical_toModel y) hx hy]
  show (some (compare (grains x) (grains y)) == some Ordering.lt) = true ↔ _
  rw [← compare_lt_iff_lt, beq_iff_eq, Option.some_inj]

theorem le_iff_grains (hx : x.isNaN = false) (hy : y.isNaN = false) :
    x ≤ y ↔ grains x ≤ grains y := by
  have hle : x ≤ y ↔ x.toModel.unpack.le y.toModel.unpack = true := decide_eq_true_iff
  rw [hle, UnpackedFloat.le,
    compare_eq_compare_grainsOf (canonical_toModel x) (canonical_toModel y) hx hy]
  show (compare (grains x) (grains y)).isLE = true ↔ _
  rw [← compare_le_iff_le, Ordering.isLE_iff_ne_gt]

theorem float_not_le (hx : x.isNaN = false) (hy : y.isNaN = false) : ¬ x ≤ y ↔ y < x := by
  rw [le_iff_grains hx hy, lt_iff_grains hy hx, Int.not_le]

theorem float_not_lt (hx : x.isNaN = false) (hy : y.isNaN = false) : ¬ x < y ↔ y ≤ x := by
  rw [lt_iff_grains hx hy, le_iff_grains hy hx, Int.not_lt]

theorem float_le_of_lt (hx : x.isNaN = false) (hy : y.isNaN = false) (h : x < y) : x ≤ y :=
  (le_iff_grains hx hy).mpr ((lt_iff_grains hx hy).mp h).le

theorem float_le_trans {z : Float} (hx : x.isNaN = false) (hy : y.isNaN = false)
    (hz : z.isNaN = false) (hxy : x ≤ y) (hyz : y ≤ z) : x ≤ z := by
  rw [le_iff_grains hx hy] at hxy
  rw [le_iff_grains hy hz] at hyz
  rw [le_iff_grains hx hz]
  exact hxy.trans hyz

/-- Finite doubles are those within the infinities. -/
theorem isFinite_iff_grainsOf {u : UnpackedFloat} (hu : Canonical u) :
    u.isFinite = true ↔
      u.isNaN = false ∧ -grainsOfInfinity < grainsOf u ∧ grainsOf u < grainsOfInfinity := by
  have hinf := grainsOfInfinity_pos
  cases u with
  | notANumber => simp [UnpackedFloat.isFinite, UnpackedFloat.isNaN]
  | infinity s =>
    cases s <;> simp [UnpackedFloat.isFinite, UnpackedFloat.isNaN, grainsOf, Sign.apply]
  | zero s =>
    simp only [UnpackedFloat.isFinite, UnpackedFloat.isNaN, grainsOf, true_and, true_iff]
    omega
  | finite s m e hm =>
    have hmag := magnitude_lt hu.1 hu.2.1 hu.2.2.1
    simp only [UnpackedFloat.isFinite, UnpackedFloat.isNaN, grainsOf, true_and, true_iff]
    cases s <;> simp only [Sign.apply] <;> omega

/-- The greatest finite mantissa at the greatest exponent bounds them all. -/
theorem grainsOf_mem_finiteRange {u : UnpackedFloat} (hu : Canonical u) (hfin : u.isFinite = true) :
    -((2 ^ 53 - 1) * 2 ^ 2045 : Nat) ≤ grainsOf u
    ∧ grainsOf u ≤ ((2 ^ 53 - 1) * 2 ^ 2045 : Nat) := by
  obtain ⟨G, hG⟩ : ∃ G, G = (2 ^ 53 - 1) * 2 ^ 2045 := ⟨_, rfl⟩
  rw [← hG]
  cases u with
  | notANumber => exact absurd hfin Bool.false_ne_true
  | infinity s => exact absurd hfin Bool.false_ne_true
  | zero s => exact ⟨by simp only [grainsOf]; omega, by simp only [grainsOf]; omega⟩
  | finite s m e hm =>
    obtain ⟨hbits, hlow, hhigh, -⟩ := hu
    have hmag : m * 2 ^ (e + 1074).toNat ≤ G := by
      rw [hG]
      gcongr <;> omega
    cases s <;> simp only [grainsOf, Sign.apply] <;> omega

theorem isFinite_iff_grains :
    x.isFinite = true ↔
      x.isNaN = false ∧ -grainsOfInfinity < grains x ∧ grains x < grainsOfInfinity :=
  isFinite_iff_grainsOf (canonical_toModel x)

theorem isNaN_of_isFinite (h : x.isFinite = true) : x.isNaN = false :=
  (isFinite_iff_grains.mp h).1

/-- An infinite float is a number, and not a finite one. -/
theorem isNaN_and_isFinite_of_isInf (h : x.isInf = true) :
    x.isNaN = false ∧ x.isFinite = false := by
  have hinf : x.toModel.unpack.isInf = true := h
  show x.toModel.unpack.isNaN = false ∧ x.toModel.unpack.isFinite = false
  cases hx : x.toModel.unpack with
  | infinity s => exact ⟨rfl, rfl⟩
  | _ =>
    rw [hx] at hinf
    exact nomatch hinf

/-- Numbers are equal as numbers, be they zeros of different signs, if their grains are. -/
theorem beq_iff_grains (hx : x.isNaN = false) (hy : y.isNaN = false) :
    (x == y) = true ↔ grains x = grains y := by
  have hcompare := compare_eq_compare_grainsOf (canonical_toModel x) (canonical_toModel y) hx hy
  show (x.toModel.unpack.compare y.toModel.unpack == some Ordering.eq) = true ↔ _
  rw [hcompare, beq_iff_eq, Option.some_inj, compare_eq_iff_eq]
  rfl

/-- What a float unpacks to tells its bits. -/
theorem float_eq_of_unpack_eq (h : x.toModel.unpack = y.toModel.unpack) : x = y := by
  have hbits := (unpack_inj_of_valid x.toModel.valid y.toModel.valid).mp h
  obtain ⟨⟨b, hb⟩⟩ := x
  obtain ⟨⟨b', hb'⟩⟩ := y
  obtain rfl : b = b' := UInt64.toBitVec_inj.mp hbits
  rfl

/-- Above zero, where there are no two signs, equal grains are equal bits. -/
theorem float_eq_of_grains_eq (hx : x.isNaN = false) (hy : y.isNaN = false) (hpos : 0 < grains x)
    (h : grains x = grains y) : x = y := by
  have hbeq : x.toModel.unpack.beq y.toModel.unpack = true := (beq_iff_grains hx hy).mpr h
  have hzero : ∀ s, x.toModel.unpack ≠ .zero s := by
    intro s hs
    rw [grains, hs] at hpos
    exact absurd hpos (Int.lt_irrefl 0)
  have hsame : x.toModel.unpack = y.toModel.unpack := by
    rcases (beq_iff_ne_notANumber_and_eq _ _).mp hbeq with ⟨-, -, heq | ⟨hs, -⟩ | ⟨hs, -⟩⟩
    · exact heq
    · exact absurd hs (hzero _)
    · exact absurd hs (hzero _)
  exact float_eq_of_unpack_eq hsame

theorem isNaN_of_lt (h : x < y) : x.isNaN = false ∧ y.isNaN = false := by
  have hlt : x.toModel.unpack.compare y.toModel.unpack = some .lt :=
    beq_iff_eq.mp (decide_eq_true_iff.mp h)
  show x.toModel.unpack.isNaN = false ∧ y.toModel.unpack.isNaN = false
  cases hx : x.toModel.unpack with
  | notANumber => simp [hx, UnpackedFloat.compare] at hlt
  | _ =>
    cases hy : y.toModel.unpack with
    | notANumber => simp [hx, hy, UnpackedFloat.compare] at hlt
    | _ => exact ⟨rfl, rfl⟩

instance asymm_lt : Std.Asymm ((· < ·) : Float → Float → Prop) where
  asymm _ _ h h' := by
    obtain ⟨hx, hy⟩ := isNaN_of_lt h
    rw [lt_iff_grains hx hy] at h
    rw [lt_iff_grains hy hx] at h'
    omega

/-- Beyond all finite floats. -/
def infinity : Float := 1 / 0

theorem isNaN_infinity : infinity.isNaN = false := by decide +kernel

theorem grains_infinity : grains infinity = grainsOfInfinity := by
  have hunpack : infinity.toModel.unpack = .infinity .positive := rfl
  rw [grains, hunpack]
  rfl

theorem lt_infinity (hx : x.isFinite = true) : x < infinity := by
  obtain ⟨hnan, -, hlt⟩ := isFinite_iff_grains.mp hx
  rwa [lt_iff_grains hnan isNaN_infinity, grains_infinity]

end TriggerLatency.Double
