import TriggerLatency.Proofs.Double.Scientific
import Mathlib.Data.List.Induction

/-!
# Sums and means

The sum of two finite floats is the double nearest to the exact one (`grains_add`), or an infinity
if that is too great. Every rounding changes a positive value by a factor of at most `1 + 2 ^ -53`,
up or down (`nearest_le_mul_drift`, `le_nearest_mul_drift`), and the factors of several roundings
multiply to their `drift`.

A running sum of positive floats is followed from the left. Its first addition, to zero, is exact,
and its second one cannot leave the range of twice the least to twice the greatest float, because
both ends are doubles. So of `n` floats only `n - 2` additions count for the drift
(`runningSum_within`). The mean divides this sum by its count. It is the quotient that is rounded
last, so the bounds of the mean are those of the sum, rounded as well (`mean_within`).
-/

namespace TriggerLatency.Double

open Float.Model Float.Model.UnpackedFloat
open TriggerLatency.Decimal (IsHalfEven roundHalfEven roundHalfEven_eq_iff
  roundHalfEven_mul_self)

/-! ## Addition -/

/-- Adding is subtracting the negative. -/
theorem add_eq_sub_neg (spec : Format) (u v : UnpackedFloat) :
    UnpackedFloat.add spec u v = UnpackedFloat.sub spec u v.neg := by
  cases v with
  | notANumber => cases u <;> rfl
  | infinity t => cases t <;> cases u <;> rfl
  | zero t => cases t <;> cases u <;> rfl
  | finite t n d hn =>
    cases u with
    | finite s m e hm =>
      simp only [UnpackedFloat.add, UnpackedFloat.sub, UnpackedFloat.neg, apply_neg, Int.sub_neg]
    | _ => cases t <;> rfl

/-- The sum of two finite values is the rounded sum of their grains. -/
theorem grainsOf_add {u v : UnpackedFloat} (hu : Canonical u) (hv : Canonical v)
    (hfu : u.isFinite = true) (hfv : v.isFinite = true) :
    grainsOf (UnpackedFloat.unpack Format.binary64
        (UnpackedFloat.pack Format.binary64 (UnpackedFloat.add Format.binary64 u v)))
      = roundGrains (grainsOf u + grainsOf v) := by
  have hcanonical : Canonical v.neg := by cases v <;> exact hv
  have hfin : v.neg.isFinite = true := by cases v <;> exact hfv
  have hgrains : grainsOf v.neg = -grainsOf v := by
    cases v with
    | notANumber => rfl
    | infinity t => exact apply_neg t _
    | zero t => rfl
    | finite t n d hn => exact apply_neg t _
  rw [add_eq_sub_neg, grainsOf_sub hu hcanonical hfu hfin, hgrains, Int.sub_neg]

variable {x y : Float}

theorem grains_add (hx : x.isFinite = true) (hy : y.isFinite = true) :
    grains (x + y) = roundGrains (grains x + grains y) :=
  grainsOf_add (canonical_toModel x) (canonical_toModel y) hx hy

/-- The sum of finite floats is a number, if perhaps an infinite one. -/
theorem isNaN_float_add (hx : x.isFinite = true) (hy : y.isFinite = true) :
    (x + y).isNaN = false := by
  refine isNaN_unpack_pack ?_
  have hfin : y.toModel.unpack.neg.isFinite = true := by
    have : y.toModel.unpack.isFinite = true := hy
    cases h : y.toModel.unpack <;> rw [h] at this <;> exact this
  show (UnpackedFloat.add Format.binary64 _ _).isNaN = false
  rw [add_eq_sub_neg]
  exact isNaN_sub hx hfin

/-! ## Out of range -/

/-- There is one float beyond all finite ones. -/
theorem eq_infinity (hx : x.isNaN = false) (h : grains x = grainsOfInfinity) : x = infinity := by
  refine float_eq_of_grains_eq hx isNaN_infinity ?_ (h.trans grains_infinity.symm)
  have := grainsOfInfinity_pos
  omega

theorem eq_infinity_of_unpack (h : x.toModel.unpack = .infinity .positive) : x = infinity := by
  refine eq_infinity ?_ ?_
  · show x.toModel.unpack.isNaN = false
    rw [h]
    rfl
  · rw [grains, h]
    rfl

/-- An operation whose result is beyond the range gives infinity. -/
theorem eq_infinity_of_pack {u : UnpackedFloat} (hu : u = .infinity .positive)
    (hx : x.toModel.unpack
      = UnpackedFloat.unpack Format.binary64 (UnpackedFloat.pack Format.binary64 u)) :
    x = infinity := by
  subst hu
  exact eq_infinity_of_unpack (hx.trans (unpack_pack trivial))

/-- Of two values in order that are not both finite, one is infinitely far below the other. -/
theorem sub_eq_infinity_of_compare (spec : Format) {u v : UnpackedFloat}
    (hlt : u.compare v = some .lt) (hout : ¬ (u.isFinite = true ∧ v.isFinite = true)) :
    UnpackedFloat.sub spec v u = .infinity .positive := by
  cases u with
  | notANumber => cases hlt
  | infinity s =>
    cases s with
    | positive =>
      -- nothing is greater
      cases v with
      | infinity t => cases t <;> exact absurd hlt (by decide)
      | _ => cases hlt
    | negative =>
      cases v with
      | notANumber => cases hlt
      | infinity t =>
        cases t with
        | positive => rfl
        | negative => exact absurd hlt (by decide)
      | _ => rfl
  | _ =>
    cases v with
    | notANumber => cases hlt
    | infinity t =>
      cases t with
      | positive => rfl
      | negative => simp [UnpackedFloat.compare] at hlt
    | _ => exact absurd ⟨rfl, rfl⟩ hout

/-- Of two floats in order that are not both finite, one is infinitely far below the other. -/
theorem sub_eq_infinity (hlt : x < y) (hout : ¬ (x.isFinite = true ∧ y.isFinite = true)) :
    y - x = infinity := by
  have hcompare : x.toModel.unpack.compare y.toModel.unpack = some .lt :=
    beq_iff_eq.mp (decide_eq_true_iff.mp hlt)
  exact eq_infinity_of_pack (sub_eq_infinity_of_compare _ hcompare hout) rfl

/-- What is finite does not bring a sum back from beyond the range. -/
theorem infinity_add (hy : y.isFinite = true) : infinity + y = infinity := by
  have hfin : y.toModel.unpack.isFinite = true := hy
  have hadd : UnpackedFloat.add Format.binary64 (.infinity .positive) y.toModel.unpack
      = .infinity .positive := by
    cases hv : y.toModel.unpack with
    | zero t => rfl
    | finite t n d hn => rfl
    | _ =>
      rw [hv] at hfin
      exact absurd hfin Bool.false_ne_true
  exact eq_infinity_of_pack hadd rfl

namespace HasGrains

variable {a b : Nat}

/-- Nor does a positive divisor. -/
theorem infinity_div (hy : HasGrains y b) : infinity / y = infinity := by
  obtain ⟨m, e, hm, hunpack, -, -⟩ := hy.exists_unpack
  have hdiv : UnpackedFloat.div Format.binary64 (.infinity .positive) y.toModel.unpack
      = .infinity .positive := by
    rw [hunpack]
    rfl
  exact eq_infinity_of_pack hdiv rfl

/-! ## Positive floats -/

/-- A double is its own nearest double. -/
theorem nearest_self (hx : HasGrains x a) : nearest a 1 = a := by
  obtain ⟨m, e, hm, -, hcanonical, rfl⟩ := hx.exists_unpack
  exact nearest_eq_self _ hm hcanonical.1

/-- A double twice as great has the same mantissa. -/
theorem nearest_double (hx : HasGrains x a) : nearest (2 * a) 1 = 2 * a := by
  obtain ⟨m, e, hm, -, hcanonical, rfl⟩ := hx.exists_unpack
  have hdouble : 2 * (m * 2 ^ (e + 1074).toNat) = m * 2 ^ ((e + 1074).toNat + 1) := by
    rw [Nat.pow_succ]
    ring
  rw [hdouble]
  exact nearest_eq_self _ hm hcanonical.1

theorem of_zero_lt (hfin : x.isFinite = true) (hpos : 0 < x) : HasGrains x (grains x).toNat := by
  have hlt := (lt_iff_grains (by decide +kernel) (isNaN_of_isFinite hfin)).mp hpos
  rw [grains_zero] at hlt
  exact ⟨hfin, by omega, by omega⟩

/-- A sum that starts at zero starts with its first float. -/
theorem zero_add (hx : HasGrains x a) : HasGrains (0 + x) a := by
  have hzero : (0 : Float).isFinite = true := by decide +kernel
  refine hasGrains_of_grains (isNaN_float_add hzero hx.isFinite) ?_ hx.pos hx.lt_infinity
  rw [grains_add hzero hx.isFinite, grains_zero, Int.zero_add, hx.grains_eq, roundGrains_natCast,
    hx.nearest_self, Nat.min_eq_left hx.lt_infinity.le]

/-- The sum of two positive floats is the double nearest to the exact one, unless that is out of
range. -/
theorem add (hx : HasGrains x a) (hy : HasGrains y b) :
    x + y = infinity ∨ HasGrains (x + y) (nearest (a + b) 1) := by
  have hnan := isNaN_float_add hx.isFinite hy.isFinite
  have hgrains : grains (x + y) = (min (nearest (a + b) 1) grainsOfInfinity : Nat) := by
    rw [grains_add hx.isFinite hy.isFinite, hx.grains_eq, hy.grains_eq, ← Int.natCast_add,
      roundGrains_natCast]
  by_cases hrange : nearest (a + b) 1 < grainsOfInfinity
  · have hpos : 0 < nearest (a + b) 1 := by
      have hmono := nearest_mono (a := a) (c := a + b) Nat.one_pos Nat.one_pos (by omega)
      rw [hx.nearest_self] at hmono
      exact Nat.lt_of_lt_of_le hx.pos hmono
    rw [Nat.min_eq_left hrange.le] at hgrains
    exact Or.inr (hasGrains_of_grains hnan hgrains hpos hrange)
  · rw [Nat.min_eq_right (Nat.le_of_not_lt hrange)] at hgrains
    exact Or.inl (eq_infinity hnan hgrains)

end HasGrains

/-! ## Drift -/

/-- Above the least exponents a unit of the last place is a small part of what is rounded. -/
theorem two_pow_lastPlace_le {n : Nat} (h : 0 < lastPlace n 1) :
    2 ^ 52 * 2 ^ lastPlace n 1 ≤ n ∧ 2 ^ 52 * 2 ^ lastPlace n 1 ≤ nearest n 1 := by
  constructor
  · have hlog : 52 + lastPlace n 1 = n.log2 := by
      unfold lastPlace at h ⊢
      rw [Nat.div_one] at h ⊢
      omega
    have hn : n ≠ 0 := by
      intro hzero
      rw [hzero, Nat.log2_zero] at hlog
      omega
    rw [← Nat.pow_add, hlog]
    exact Nat.log2_self_le hn
  · exact Nat.mul_le_mul_right _ (le_nearestUnits h)

/-- A whole number of grains changes in its fifty-third place at most. -/
theorem nearest_error (n : Nat) :
    2 ^ 53 * nearest n 1 ≤ (2 ^ 53 + 1) * n ∧ 2 ^ 53 * n ≤ (2 ^ 53 + 1) * nearest n 1 := by
  have hround : nearest n 1 = roundHalfEven n (2 ^ lastPlace n 1) * 2 ^ lastPlace n 1 := by
    unfold nearest nearestUnits
    rw [Nat.one_mul]
  by_cases hplace : lastPlace n 1 = 0
  · have hkept : nearest n 1 = n := by
      have hself := roundHalfEven_mul_self n Nat.one_pos
      rw [Nat.mul_one] at hself
      rw [hround, hplace, Nat.pow_zero, Nat.mul_one, hself]
    omega
  · obtain ⟨hn, hnearest⟩ := two_pow_lastPlace_le (Nat.pos_of_ne_zero hplace)
    have hnear : IsHalfEven n (2 ^ lastPlace n 1) _ :=
      (roundHalfEven_eq_iff (Nat.two_pow_pos _)).mp rfl
    obtain ⟨hup, hdown, -⟩ := hnear
    rw [← hround] at hup hdown
    omega

/-- What so many roundings can make of a positive value: this factor at most, up or down. -/
def drift (k : Nat) : ℚ := (1 + 1 / 2 ^ 53) ^ k

theorem drift_zero : drift 0 = 1 := pow_zero _

theorem drift_add (j k : Nat) : drift (j + k) = drift j * drift k := pow_add ..

theorem one_le_drift (k : Nat) : 1 ≤ drift k := one_le_pow₀ (by norm_num)

theorem drift_pos (k : Nat) : 0 < drift k := lt_of_lt_of_le one_pos (one_le_drift k)

theorem nearest_le_mul_drift (n : Nat) : (nearest n 1 : ℚ) ≤ n * drift 1 := by
  have h : (2 ^ 53 * nearest n 1 : ℚ) ≤ (2 ^ 53 + 1) * n := by exact_mod_cast (nearest_error n).1
  unfold drift
  rw [pow_one]
  linarith

theorem le_nearest_mul_drift (n : Nat) : (n : ℚ) ≤ nearest n 1 * drift 1 := by
  have h : (2 ^ 53 * n : ℚ) ≤ (2 ^ 53 + 1) * nearest n 1 := by exact_mod_cast (nearest_error n).2
  unfold drift
  rw [pow_one]
  linarith

/-! ## Rational numbers of grains -/

/-- A rational number of grains, not below zero, rounded to a double with no bound on its exponent,
in grains. -/
def nearestTo (q : ℚ) : Nat := nearest q.num.toNat q.den

theorem nearestTo_div (a : Nat) {b : Nat} (hb : 0 < b) : nearestTo (a / b) = nearest a b := by
  have hq : (0 : ℚ) ≤ a / b := by positivity
  have hb' : (b : ℚ) ≠ 0 := by exact_mod_cast hb.ne'
  have hnum : (((a / b : ℚ).num.toNat : Int)) = (a / b : ℚ).num :=
    Int.toNat_of_nonneg (Rat.num_nonneg.mpr hq)
  refine nearest_congr (Rat.den_pos _) hb ?_
  have hcross : ((a / b : ℚ).num : ℚ) * b = a * (a / b : ℚ).den := by
    rw [← Rat.mul_den_eq_num]
    field_simp
  have hcross' : (a / b : ℚ).num * b = a * (a / b : ℚ).den := by exact_mod_cast hcross
  rw [← hnum] at hcross'
  exact_mod_cast hcross'

theorem HasGrains.nearestTo_self {a : Nat} (hx : HasGrains x a) : nearestTo a = a := by
  have hdiv := nearestTo_div a Nat.one_pos
  rw [Nat.cast_one, div_one, hx.nearest_self] at hdiv
  exact hdiv

theorem nearestTo_mono {p q : ℚ} (hp : 0 ≤ p) (h : p ≤ q) : nearestTo p ≤ nearestTo q := by
  refine nearest_mono (Rat.den_pos p) (Rat.den_pos q) ?_
  have hcross := (Rat.le_iff p q).mp h
  have hpnum := Int.toNat_of_nonneg (Rat.num_nonneg.mpr hp)
  have hqnum := Int.toNat_of_nonneg (Rat.num_nonneg.mpr (hp.trans h))
  rw [← hpnum, ← hqnum] at hcross
  exact_mod_cast hcross

/-! ## Running sums -/

/-- Within `n` times a range, up to the drift of `k` roundings. -/
structure SumWithin (lo hi n k t : Nat) : Prop where
  low : (n * lo : ℚ) ≤ t * drift k
  high : (t : ℚ) ≤ n * hi * drift k

namespace SumWithin

variable {lo hi n k t g : Nat}

/-- Without a rounding there is no drift. -/
theorem zero_iff : SumWithin lo hi n 0 t ↔ n * lo ≤ t ∧ t ≤ n * hi := by
  constructor
  · intro h
    obtain ⟨hlow, hhigh⟩ := h
    rw [drift_zero, mul_one] at hlow hhigh
    exact ⟨by exact_mod_cast hlow, by exact_mod_cast hhigh⟩
  · intro h
    refine ⟨?_, ?_⟩
    · rw [drift_zero, mul_one]
      exact_mod_cast h.1
    · rw [drift_zero, mul_one]
      exact_mod_cast h.2

/-- One more value of the range is added, and the sum is rounded. -/
theorem add (h : SumWithin lo hi n k t) (hlo : lo ≤ g) (hhi : g ≤ hi) :
    SumWithin lo hi (n + 1) (k + 1) (nearest (t + g) 1) := by
  have hdrift := one_le_drift k
  have hlo' : (lo : ℚ) ≤ g := by exact_mod_cast hlo
  have hhi' : (g : ℚ) ≤ hi := by exact_mod_cast hhi
  have hg : (g : ℚ) ≤ g * drift k := le_mul_of_one_le_right (Nat.cast_nonneg g) hdrift
  have hhi'' : (hi : ℚ) ≤ hi * drift k := le_mul_of_one_le_right (Nat.cast_nonneg hi) hdrift
  constructor
  · calc ((n + 1 : Nat) * lo : ℚ)
        = n * lo + lo := by push_cast; ring
      _ ≤ t * drift k + g * drift k := add_le_add h.low (hlo'.trans hg)
      _ = (t + g : Nat) * drift k := by push_cast; ring
      _ ≤ nearest (t + g) 1 * drift 1 * drift k :=
          mul_le_mul_of_nonneg_right (le_nearest_mul_drift _) (drift_pos k).le
      _ = nearest (t + g) 1 * drift (k + 1) := by rw [drift_add]; ring
  · calc (nearest (t + g) 1 : ℚ)
        ≤ (t + g : Nat) * drift 1 := nearest_le_mul_drift _
      _ = (t + g) * drift 1 := by push_cast; ring
      _ ≤ (n * hi * drift k + hi * drift k) * drift 1 :=
          mul_le_mul_of_nonneg_right (add_le_add h.high (hhi'.trans hhi'')) (drift_pos 1).le
      _ = (n + 1 : Nat) * hi * drift (k + 1) := by rw [drift_add]; push_cast; ring

/-- The sum of two doubles of the range is rounded within twice the range. -/
theorem add_second (hlo : HasGrains x lo) (hhi : HasGrains y hi) (h : SumWithin lo hi 1 0 t)
    (hlog : lo ≤ g) (hhig : g ≤ hi) : SumWithin lo hi 2 0 (nearest (t + g) 1) := by
  obtain ⟨hlot, hhit⟩ := zero_iff.mp h
  have hlow := nearest_mono (a := 2 * lo) (c := t + g) Nat.one_pos Nat.one_pos (by omega)
  have hhigh := nearest_mono (a := t + g) (c := 2 * hi) Nat.one_pos Nat.one_pos (by omega)
  rw [hlo.nearest_double] at hlow
  rw [hhi.nearest_double] at hhigh
  exact zero_iff.mpr ⟨hlow, hhigh⟩

end SumWithin

/-- A running sum of positive floats between two floats: either it gets out of range, or it drifts
away from the exact one by all of its roundings but the first two at most. -/
theorem runningSum_within {lo hi : Nat} (hlo : HasGrains x lo) (hhi : HasGrains y hi)
    {zs : List Float} (hne : zs ≠ []) (hzs : ∀ z ∈ zs, ∃ g, HasGrains z g ∧ lo ≤ g ∧ g ≤ hi) :
    zs.foldl (· + ·) 0 = infinity
    ∨ ∃ t, HasGrains (zs.foldl (· + ·) 0) t ∧ SumWithin lo hi zs.length (zs.length - 2) t := by
  induction zs using List.reverseRecOn with
  | nil => exact absurd rfl hne
  | append_singleton seen z ih =>
    obtain ⟨g, hz, hlog, hhig⟩ := hzs z (by simp)
    rw [List.foldl_append, List.foldl_cons, List.foldl_nil, List.length_append,
      List.length_singleton]
    -- the first addition is to zero, which is exact
    by_cases hempty : seen = []
    · subst hempty
      refine Or.inr ⟨g, hz.zero_add, SumWithin.zero_iff.mpr ⟨?_, ?_⟩⟩
      · show 1 * lo ≤ g
        omega
      · show g ≤ 1 * hi
        omega
    · have hpos := List.length_pos_iff.mpr hempty
      have hzs' : ∀ z' ∈ _, _ := fun z' hz' => hzs z' (List.mem_append_left [z] hz')
      rcases ih hempty hzs' with hinf | ⟨t, ht, hsum⟩
      · rw [hinf]
        exact Or.inl (infinity_add hz.isFinite)
      · rcases ht.add hz with hinf | hnext
        · exact Or.inl hinf
        · refine Or.inr ⟨_, hnext, ?_⟩
          -- the second one stays between two doubles, and only later ones drift
          by_cases hone : seen.length = 1
          · rw [hone] at hsum ⊢
            exact hsum.add_second hlo hhi hlog hhig
          · have hmore : seen.length + 1 - 2 = seen.length - 2 + 1 := by omega
            rw [hmore]
            exact hsum.add hlog hhig

/-! ## Means -/

/-- How often a count is rounded when it becomes a float. -/
def countRoundings (n : Nat) : Nat := if n ≤ 2 ^ 53 then 0 else 1

section

variable {lo hi n k t : Nat}

/-- A count as a float, up to the drift of its rounding. -/
theorem count_within (hpos : 0 < n) :
    (n * grainsOfOne : ℚ) ≤ nearest (n * grainsOfOne) 1 * drift (countRoundings n)
    ∧ (nearest (n * grainsOfOne) 1 : ℚ) ≤ n * grainsOfOne * drift (countRoundings n) := by
  unfold countRoundings
  by_cases hfew : n ≤ 2 ^ 53
  · rw [if_pos hfew, nearest_natCast_of_le hpos hfew, drift_zero, mul_one, mul_one, Nat.cast_mul]
    exact ⟨le_refl _, le_refl _⟩
  · have hlow := le_nearest_mul_drift (n * grainsOfOne)
    have hhigh := nearest_le_mul_drift (n * grainsOfOne)
    rw [Nat.cast_mul] at hlow hhigh
    rw [if_neg hfew]
    exact ⟨hlow, hhigh⟩

/-- A sum and its count drift one after the other, and so does their quotient. -/
theorem quotient_within (hsum : SumWithin lo hi n k t) (hpos : 0 < n) :
    (lo / drift (k + countRoundings n) : ℚ)
      ≤ (t * grainsOfOne : Nat) / (nearest (n * grainsOfOne) 1 : Nat)
    ∧ ((t * grainsOfOne : Nat) / (nearest (n * grainsOfOne) 1 : Nat) : ℚ)
      ≤ hi * drift (k + countRoundings n) := by
  obtain ⟨hlow, hhigh⟩ := count_within hpos
  have hcount : (0 : ℚ) < (nearest (n * grainsOfOne) 1 : Nat) :=
    Nat.cast_pos.mpr (Nat.lt_of_lt_of_le grainsOfOne_pos (grainsOfOne_le_nearest hpos))
  generalize nearest (n * grainsOfOne) 1 = c at hlow hhigh hcount ⊢
  have hj := (drift_pos (countRoundings n)).le
  have hk := (drift_pos k).le
  rw [div_le_div_iff₀ (drift_pos _) hcount, div_le_iff₀ hcount, drift_add, Nat.cast_mul]
  constructor
  · calc (lo * c : ℚ)
        ≤ lo * (n * grainsOfOne * drift (countRoundings n)) :=
          mul_le_mul_of_nonneg_left hhigh (Nat.cast_nonneg lo)
      _ = n * lo * (grainsOfOne * drift (countRoundings n)) := by ring
      _ ≤ t * drift k * (grainsOfOne * drift (countRoundings n)) :=
          mul_le_mul_of_nonneg_right hsum.low (mul_nonneg (Nat.cast_nonneg _) hj)
      _ = t * grainsOfOne * (drift k * drift (countRoundings n)) := by ring
  · calc (t * grainsOfOne : ℚ)
        ≤ n * hi * drift k * grainsOfOne :=
          mul_le_mul_of_nonneg_right hsum.high (Nat.cast_nonneg _)
      _ = hi * drift k * (n * grainsOfOne) := by ring
      _ ≤ hi * drift k * (c * drift (countRoundings n)) :=
          mul_le_mul_of_nonneg_left hlow (mul_nonneg (Nat.cast_nonneg hi) hk)
      _ = hi * (drift k * drift (countRoundings n)) * c := by ring

/-- A sum in range has a mean in range, and this is between the doubles nearest to the ends of what
it may drift to. -/
theorem mean_within (hx : HasGrains x t) (hsum : SumWithin lo hi n k t) (hpos : 0 < n)
    (hbits : n < 2 ^ 64) :
    (x / Float.ofNat n).isFinite = true
    ∧ nearestTo (lo / drift (k + countRoundings n)) ≤ grains (x / Float.ofNat n)
    ∧ grains (x / Float.ofNat n) ≤ nearestTo (hi * drift (k + countRoundings n)) := by
  have hcount := grainsOfOne_le_nearest hpos
  have hcount' := Nat.lt_of_lt_of_le grainsOfOne_pos hcount
  obtain ⟨hnan, hgrains⟩ := hx.grains_div (hasGrains_ofNat_nearest hpos hbits)
  -- the count is one at least, so the mean is not above the sum
  have hrange : nearest (t * grainsOfOne) (nearest (n * grainsOfOne) 1) < grainsOfInfinity := by
    have hle := nearest_mono (a := t * grainsOfOne) (c := t) hcount' Nat.one_pos
      (by rw [Nat.mul_one]; exact Nat.mul_le_mul_left t hcount)
    rw [hx.nearest_self] at hle
    exact Nat.lt_of_le_of_lt hle hx.lt_infinity
  rw [Nat.min_eq_left hrange.le] at hgrains
  obtain ⟨hlow, hhigh⟩ := quotient_within hsum hpos
  refine ⟨isFinite_iff_grains.mpr ⟨hnan, by omega, by omega⟩, ?_, ?_⟩
  · rw [hgrains, ← nearestTo_div _ hcount']
    exact_mod_cast nearestTo_mono (div_nonneg (Nat.cast_nonneg lo) (drift_pos _).le) hlow
  · rw [hgrains, ← nearestTo_div _ hcount']
    exact_mod_cast nearestTo_mono (div_nonneg (Nat.cast_nonneg _) (Nat.cast_nonneg _)) hhigh

/-- A sum that has not drifted has its mean between the ends themselves. -/
theorem mean_between {z : Float} (hx : HasGrains x t) (hlo : HasGrains y lo)
    (hhi : HasGrains z hi) (hsum : SumWithin lo hi n 0 t) (hpos : 0 < n) (hfew : n ≤ 2 ^ 53) :
    y ≤ x / Float.ofNat n ∧ x / Float.ofNat n ≤ z := by
  obtain ⟨hfin, hlow, hhigh⟩ := mean_within hx hsum hpos (by omega)
  have hkept : drift (0 + countRoundings n) = 1 := by
    unfold countRoundings
    rw [if_pos hfew]
    exact drift_zero
  rw [hkept, div_one, hlo.nearestTo_self] at hlow
  rw [hkept, mul_one, hhi.nearestTo_self] at hhigh
  rw [le_iff_grains (isNaN_of_isFinite hlo.isFinite) (isNaN_of_isFinite hfin),
    le_iff_grains (isNaN_of_isFinite hfin) (isNaN_of_isFinite hhi.isFinite), hlo.grains_eq,
    hhi.grains_eq]
  exact ⟨hlow, hhigh⟩

end

end TriggerLatency.Double
