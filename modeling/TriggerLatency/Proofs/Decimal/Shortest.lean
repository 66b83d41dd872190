import TriggerLatency.Decimal.Shortest
import Mathlib.Algebra.Order.Field.Power
import Mathlib.Data.Rat.Cast.Order
import Mathlib.Tactic.FieldSimp
import Mathlib.Tactic.Linarith
import Mathlib.Tactic.NormNum
import Mathlib.Tactic.Positivity
import Mathlib.Tactic.Ring

/-!
# The shortest decimal of a double

The search for the shortest decimal starts on a grid that is coarser than the float
and ends at the first hit. A grid that is finer than half the last binary place is hit
for sure (`Interval.contains_above`), so the search ends before its bound, with a point of
the rounding interval (`shortest_contains`). The digits of a hit are few: on the first grid
because that is coarse (`Interval.mid_le_start`), on a later one because the grid before was
missed and is coarser by ten only (`Interval.mid_le_of_miss`). So they make a number below
`2 ^ 64` (`shortest_bounds`), and a reader that gathers digits in 64 bits loses none of them.
-/

namespace TriggerLatency.Decimal

/-! ## Powers of two and of ten -/

/-- Powers with a natural exponent that compare decide powers with exponents in their ratio. -/
private theorem zpow_le_zpow_of_nonneg {b c : ℚ} (hb : 1 < b) (hc : 1 < c) {n k : Nat} (hn : n ≠ 0)
    (h : b ^ n ≤ c ^ k) {t p : Int} (ht : 0 ≤ t) (htp : k * t ≤ n * p) : b ^ t ≤ c ^ p := by
  have hb0 : 0 < b := by linarith
  have hc0 : 0 < c := by linarith
  have hpow : (b ^ t) ^ n ≤ (c ^ p) ^ n := by
    calc (b ^ t) ^ n = (b ^ n) ^ t := by
          rw [← zpow_natCast, ← zpow_natCast, ← zpow_mul, ← zpow_mul, mul_comm]
      _ ≤ (c ^ k) ^ t := zpow_le_zpow_left₀ ht (by positivity) h
      _ = c ^ (k * t) := by rw [← zpow_natCast, ← zpow_mul]
      _ ≤ c ^ (n * p) := zpow_le_zpow_right₀ hc.le htp
      _ = (c ^ p) ^ n := by rw [← zpow_natCast, ← zpow_mul, mul_comm]
  exact (pow_le_pow_iff_left₀ (by positivity) (by positivity) hn).mp hpow

/-- The ratio may be given from both sides, for exponents of either sign. -/
private theorem zpow_le_zpow {b c : ℚ} (hb : 1 < b) (hc : 1 < c) {n k n' k' : Nat} (hn : n ≠ 0)
    (hn' : n' ≠ 0) (h : b ^ n ≤ c ^ k) (h' : c ^ n' ≤ b ^ k') {t p : Int} (htp : k * t ≤ n * p)
    (htp' : n' * t ≤ k' * p) : b ^ t ≤ c ^ p := by
  rcases le_total 0 t with ht | ht
  · exact zpow_le_zpow_of_nonneg hb hc hn h ht htp
  · rcases le_total 0 p with hp | hp
    · calc b ^ t ≤ 1 := zpow_le_one_of_nonpos₀ hb.le ht
        _ ≤ c ^ p := one_le_zpow₀ hc.le hp
    · -- both exponents are negative, so the inverses compare the other way round
      have hinv : c ^ (-p) ≤ b ^ (-t) :=
        zpow_le_zpow_of_nonneg hc hb hn' h' (by omega) (by linarith)
      rw [zpow_neg, zpow_neg] at hinv
      exact (inv_le_inv₀ (by positivity) (by positivity)).mp hinv

/-- `28 / 93` and `59 / 196` enclose the logarithm of two. -/
theorem two_zpow_le_ten_zpow {t p : Int} (hupper : 28 * t ≤ 93 * p) (hlower : 59 * t ≤ 196 * p) :
    (2 : ℚ) ^ t ≤ 10 ^ p :=
  zpow_le_zpow (n := 93) (k := 28) (by norm_num) (by norm_num) (by norm_num) (by norm_num)
    (by norm_num) (by norm_num : (10 : ℚ) ^ 59 ≤ 2 ^ 196) (by exact_mod_cast hupper)
    (by exact_mod_cast hlower)

theorem ten_zpow_le_two_zpow {t p : Int} (hupper : 93 * p ≤ 28 * t) (hlower : 196 * p ≤ 59 * t) :
    (10 : ℚ) ^ p ≤ 2 ^ t :=
  zpow_le_zpow (n := 59) (k := 196) (by norm_num) (by norm_num) (by norm_num) (by norm_num)
    (by norm_num) (by norm_num : (2 : ℚ) ^ 93 ≤ 10 ^ 28) (by exact_mod_cast hlower)
    (by exact_mod_cast hupper)

theorem powerDown_pos {b : Nat} (hb : 0 < b) (e : Int) : 0 < powerDown b e := Nat.pow_pos hb

/-- What multiplies the numerator, over what multiplies the denominator. -/
theorem cast_powerUp {b : Nat} (hb : 0 < b) (e : Int) :
    (powerUp b e : ℚ) = (b : ℚ) ^ e * powerDown b e := by
  have hb0 : (b : ℚ) ≠ 0 := by positivity
  have hup : (powerUp b e : ℚ) = (b : ℚ) ^ (e.toNat : Int) := by
    rw [zpow_natCast]
    exact Nat.cast_pow b e.toNat
  have hdown : (powerDown b e : ℚ) = (b : ℚ) ^ ((-e).toNat : Int) := by
    rw [zpow_natCast]
    exact Nat.cast_pow b (-e).toNat
  rw [hup, hdown, ← zpow_add₀ hb0]
  congr 1
  omega

/-! ## The search -/

namespace Interval

variable {i : Interval} {tie : Tie} {k : Int}

/-- What a place of the interval is multiplied with over the common denominator. -/
def scale (i : Interval) (k : Int) : Nat := powerUp 2 i.exponent * powerDown 10 k

/-- What a multiple of `10 ^ k` is multiplied with over the common denominator. -/
def unit (i : Interval) (k : Int) : Nat := powerUp 10 k * powerDown 2 i.exponent

theorem scale_pos (i : Interval) (k : Int) : 0 < i.scale k :=
  Nat.mul_pos (Nat.pow_pos (by omega)) (powerDown_pos (by omega) k)

theorem unit_pos (i : Interval) (k : Int) : 0 < i.unit k :=
  Nat.mul_pos (Nat.pow_pos (by omega)) (powerDown_pos (by omega) i.exponent)

/-- The common denominator cancels. -/
theorem mul_scale_le_iff {a c : Nat} :
    a * i.scale k ≤ c * i.unit k ↔ (a : ℚ) * 2 ^ i.exponent ≤ c * 10 ^ k := by
  have hdown : (0 : ℚ) < powerDown 10 k * powerDown 2 i.exponent := by
    exact_mod_cast Nat.mul_pos (powerDown_pos (by omega) k) (powerDown_pos (by omega) i.exponent)
  have hscale : (i.scale k : ℚ) = 2 ^ i.exponent * (powerDown 10 k * powerDown 2 i.exponent) := by
    unfold scale
    rw [Nat.cast_mul, cast_powerUp (by omega)]
    push_cast
    ring
  have hunit : (i.unit k : ℚ) = 10 ^ k * (powerDown 10 k * powerDown 2 i.exponent) := by
    unfold unit
    rw [Nat.cast_mul, cast_powerUp (by omega)]
    push_cast
    ring
  rw [← Nat.cast_le (α := ℚ), Nat.cast_mul, Nat.cast_mul, hscale, hunit,
    ← mul_assoc (a : ℚ), ← mul_assoc (c : ℚ)]
  exact mul_le_mul_iff_of_pos_right hdown

theorem le_of_holds {closed : Bool} {low n high : Nat} (h : holds closed low n high = true) :
    low ≤ n := by
  unfold holds at h
  split at h <;> simp only [Bool.and_eq_true, decide_eq_true_eq] at h <;> omega

theorem holds_of_lt (closed : Bool) {low n high : Nat} (hlow : low < n) (hhigh : n < high) :
    holds closed low n high = true := by
  unfold holds
  split <;> simp only [Bool.and_eq_true, decide_eq_true_eq] <;> omega

/-- Whether a multiple of the unit lies in the interval. -/
def Contains (i : Interval) (k : Int) (n : Nat) : Prop :=
  holds i.closed (i.low * i.scale k) (n * i.unit k) (i.high * i.scale k) = true

/-- A hit is one of the two neighbours of the middle that lie in the interval. -/
theorem contains_of_point? {d : Nat} (h : i.point? tie k = some d) :
    i.Contains k d ∧ (d = i.mid * i.scale k / i.unit k ∨ d = i.mid * i.scale k / i.unit k + 1) := by
  obtain ⟨b, hb⟩ : ∃ b, b = i.mid * i.scale k / i.unit k := ⟨_, rfl⟩
  unfold point? at h
  dsimp only at h
  rw [← scale, ← unit, ← hb] at h
  rw [← hb]
  have hbelow : some b = some d → i.Contains k b → i.Contains k d ∧ (d = b ∨ d = b + 1) :=
    fun heq hin => Option.some.inj heq ▸ ⟨hin, Or.inl rfl⟩
  have habove : some (b + 1) = some d → i.Contains k (b + 1) →
      i.Contains k d ∧ (d = b ∨ d = b + 1) :=
    fun heq hin => Option.some.inj heq ▸ ⟨hin, Or.inr rfl⟩
  split at h
  · -- both lie in the interval, and the nearer one or the tie decides
    rename_i hboth
    obtain ⟨hb, ha⟩ := (Bool.and_eq_true ..).mp hboth
    split at h
    · exact hbelow h hb
    · split at h
      · exact habove h ha
      · split at h
        · exact habove h ha
        · split at h
          · exact hbelow h hb
          · exact habove h ha
  · split at h
    · exact hbelow h ‹_›
    · split at h
      · exact habove h ‹_›
      · exact absurd h (by simp)

/-- A miss means that neither of the two neighbours of the middle does. -/
theorem not_contains_of_point?_none {d : Nat} (h : i.point? tie k = none)
    (hd : d = i.mid * i.scale k / i.unit k ∨ d = i.mid * i.scale k / i.unit k + 1) :
    ¬ i.Contains k d := by
  intro hin
  obtain ⟨b, hb⟩ : ∃ b, b = i.mid * i.scale k / i.unit k := ⟨_, rfl⟩
  rw [← hb] at hd
  rw [Contains] at hin
  unfold point? at h
  dsimp only at h
  rw [← scale, ← unit, ← hb] at h
  -- every branch that is left takes a point
  rcases hd with rfl | rfl
  · rw [hin, Bool.true_and, if_pos rfl] at h
    repeat' split at h
    all_goals exact absurd h (by simp)
  · rw [hin, if_pos rfl] at h
    repeat' split at h
    all_goals exact absurd h (by simp)

/-- A hit is not zero. -/
theorem pos_of_contains {n : Nat} (hlow : 0 < i.low) (h : i.Contains k n) : 0 < n := by
  have hscale := Nat.mul_pos hlow (i.scale_pos k)
  have hle : i.low * i.scale k ≤ n * i.unit k := le_of_holds h
  exact Nat.pos_of_mul_pos_right (Nat.lt_of_lt_of_le hscale hle)

/-- The point above the middle lies in the interval if the grid is finer than its upper half. -/
theorem contains_above (hlow : i.low ≤ i.mid) (hhigh : i.high = i.mid + 2)
    (hfine : i.unit k < 2 * i.scale k) : i.Contains k (i.mid * i.scale k / i.unit k + 1) := by
  have hunit := i.unit_pos k
  have hdiv := Nat.div_add_mod (i.mid * i.scale k) (i.unit k)
  have hmod := Nat.mod_lt (i.mid * i.scale k) hunit
  have hlowmid := Nat.mul_le_mul_right (i.scale k) hlow
  have hhighmid : i.high * i.scale k = i.mid * i.scale k + 2 * i.scale k := by
    rw [hhigh, Nat.add_mul]
  have habove : (i.mid * i.scale k / i.unit k + 1) * i.unit k
      = i.unit k * (i.mid * i.scale k / i.unit k) + i.unit k := by ring
  exact holds_of_lt i.closed (by omega) (by omega)

/-- A grid that was missed is coarse, and the next one is finer by ten only. -/
theorem mid_le_of_miss (hlow : i.low ≤ i.mid) (hhigh : i.high = i.mid + 2) {B : Nat}
    (hB : 5 * i.mid ≤ B) (hmiss : i.point? tie k = none) :
    i.mid * i.scale (k - 1) ≤ B * i.unit (k - 1) := by
  have hcoarse : 2 * i.scale k ≤ i.unit k := by
    by_contra hfine
    exact not_contains_of_point?_none hmiss (Or.inr rfl) (contains_above hlow hhigh (by omega))
  have hcoarse := mul_scale_le_iff.mp (show 2 * i.scale k ≤ 1 * i.unit k by omega)
  have hten : (10 : ℚ) ^ k = 10 * 10 ^ (k - 1) := by
    rw [← zpow_one_add₀ (by norm_num)]
    congr 1
    omega
  have hB' : (5 : ℚ) * i.mid ≤ B := by exact_mod_cast hB
  have hpos : (0 : ℚ) < 10 ^ (k - 1) := by positivity
  rw [hten] at hcoarse
  push_cast at hcoarse
  refine mul_scale_le_iff.mpr ?_
  calc (i.mid : ℚ) * 2 ^ i.exponent ≤ i.mid * (5 * 10 ^ (k - 1)) := by gcongr; linarith
    _ = 5 * i.mid * 10 ^ (k - 1) := by ring
    _ ≤ B * 10 ^ (k - 1) := by gcongr

/-- A hit on a grid that is not too fine has few digits. -/
theorem digits_le_of_hit (hlow : 0 < i.low) {B d : Nat} (hk : i.mid * i.scale k ≤ B * i.unit k)
    (hd : i.point? tie k = some d) : 0 < d ∧ d ≤ B + 1 := by
  obtain ⟨hin, hnear⟩ := contains_of_point? hd
  have hdiv : i.mid * i.scale k / i.unit k ≤ B :=
    Nat.div_le_of_le_mul (Nat.mul_comm B (i.unit k) ▸ hk)
  exact ⟨pos_of_contains hlow hin, by omega⟩

/-- What a search from the grid of `10 ^ start` on finds: a hit, on the first grid or behind one
that was missed. -/
structure Found (i : Interval) (tie : Tie) (start : Int) (s : Scaled) : Prop where
  hit : i.point? tie s.exponent = some s.digits
  first : s.exponent = start ∨ i.point? tie (s.exponent + 1) = none

/-- A search whose last grid is fine enough finds something. -/
theorem search_found (hmid : i.low ≤ i.mid) (hhigh : i.high = i.mid + 2) (tie : Tie)
    (steps : Nat) : ∀ k : Int, i.unit (k - steps) < 2 * i.scale (k - steps) →
      i.Found tie k (i.search tie (steps + 1) k) := by
  induction steps with
  | zero =>
    intro k hend
    rw [search]
    cases hpoint : i.point? tie k with
    | some d => exact ⟨hpoint, Or.inl rfl⟩
    | none =>
      -- the last grid is too fine to be missed
      rw [Nat.cast_zero, Int.sub_zero] at hend
      exact absurd (contains_above hmid hhigh hend)
        (not_contains_of_point?_none hpoint (Or.inr rfl))
  | succ steps ih =>
    intro k hend
    rw [search]
    cases hpoint : i.point? tie k with
    | some d => exact ⟨hpoint, Or.inl rfl⟩
    | none =>
      have hsame : k - 1 - steps = k - (steps + 1 : Nat) := by omega
      have hfound := ih (k - 1) (by rwa [hsame])
      refine ⟨hfound.hit, Or.inr ?_⟩
      rcases hfound.first with hstart | hmiss
      · rw [hstart, Int.sub_add_cancel]
        exact hpoint
      · exact hmiss

/-- A search goes no further down than it has steps. -/
theorem search_exponent (i : Interval) (tie : Tie) (steps : Nat) : ∀ k : Int,
    k - steps ≤ (i.search tie steps k).exponent ∧ (i.search tie steps k).exponent ≤ k := by
  induction steps with
  | zero =>
    intro k
    rw [search, Nat.cast_zero, Int.sub_zero]
    exact ⟨Int.le_refl k, Int.le_refl k⟩
  | succ steps ih =>
    intro k
    rw [search]
    cases i.point? tie k with
    | some d =>
      dsimp only
      omega
    | none =>
      have h := ih (k - 1)
      dsimp only
      omega

/-- What is found from a grid on that is not too fine is a positive number of few digits. -/
theorem Found.bounds {s : Scaled} (h : i.Found tie k s) (hlow : 0 < i.low) (hmid : i.low ≤ i.mid)
    (hhigh : i.high = i.mid + 2) {B : Nat} (hB : 5 * i.mid ≤ B)
    (hstart : i.mid * i.scale k ≤ B * i.unit k) : 0 < s.digits ∧ s.digits ≤ B + 1 := by
  have hcoarse : i.mid * i.scale s.exponent ≤ B * i.unit s.exponent := by
    rcases h.first with hfirst | hmiss
    · rwa [hfirst]
    · have hle := mid_le_of_miss hmid hhigh hB hmiss
      rwa [Int.add_sub_cancel] at hle
  exact digits_le_of_hit hlow hcoarse h.hit

theorem ofBinary_mid (m : Nat) (e : Int) : (ofBinary m e).mid = 4 * m := rfl

theorem ofBinary_exponent (m : Nat) (e : Int) : (ofBinary m e).exponent = e - 2 := rfl

/-- The lower end of the interval of a positive mantissa. -/
theorem ofBinary_low {m : Nat} (hm : 0 < m) (e : Int) :
    0 < (ofBinary m e).low ∧ (ofBinary m e).low ≤ (ofBinary m e).mid := by
  unfold ofBinary
  dsimp only
  split <;> omega

/-- The first grid is not finer than a twentieth of a place. -/
theorem mid_le_start {m : Nat} {e : Int} (hlog : m.log2 ≤ 52) (hlow : -1074 ≤ e)
    (hhigh : e ≤ 971) :
    (ofBinary m e).mid * (ofBinary m e).scale (startExponent m e)
      ≤ 20 * m * (ofBinary m e).unit (startExponent m e) := by
  obtain ⟨k, hk⟩ : ∃ k, k = startExponent m e := ⟨_, rfl⟩
  have hkdef : k = ((m.log2 + 1 : Int) + e) * 30103 / 100000 + 2 := hk
  have hpow : (2 : ℚ) ^ e ≤ 10 ^ k := two_zpow_le_ten_zpow (by omega) (by omega)
  have hfour : (2 : ℚ) ^ e = 4 * 2 ^ (e - 2) := by
    rw [zpow_sub₀ (by norm_num)]
    norm_num
    ring
  have hten : (0 : ℚ) < 10 ^ k := by positivity
  rw [← hk]
  refine mul_scale_le_iff.mpr ?_
  rw [ofBinary_mid, ofBinary_exponent]
  push_cast
  calc (4 : ℚ) * m * 2 ^ (e - 2) = m * 2 ^ e := by rw [hfour]; ring
    _ ≤ m * (20 * 10 ^ k) := by gcongr; linarith
    _ = 20 * m * 10 ^ k := by ring

/-- The last grid is finer than half a place. -/
theorem unit_lt_last {m : Nat} {e : Int} (hlog : m.log2 ≤ 52) (hlow : -1074 ≤ e)
    (hhigh : e ≤ 971) :
    (ofBinary m e).unit (startExponent m e - 24)
      < 2 * (ofBinary m e).scale (startExponent m e - 24) := by
  obtain ⟨k, hk⟩ : ∃ k, k = startExponent m e := ⟨_, rfl⟩
  have hkdef : k = ((m.log2 + 1 : Int) + e) * 30103 / 100000 + 2 := hk
  rw [← hk]
  by_contra hcoarse
  have hcoarse := mul_scale_le_iff.mp
    (show 2 * (ofBinary m e).scale (k - 24) ≤ 1 * (ofBinary m e).unit (k - 24) by omega)
  have hpow : (10 : ℚ) ^ (k - 24) ≤ 2 ^ (e - 2) := ten_zpow_le_two_zpow (by omega) (by omega)
  have hpos : (0 : ℚ) < 2 ^ (e - 2) := by positivity
  rw [ofBinary_exponent] at hcoarse
  push_cast at hcoarse
  linarith

end Interval

variable {m : Nat} {e : Int}

/-- The search for the shortest decimal of a double ends with a hit. -/
theorem shortest_found (tie : Tie) (hm : 0 < m) (hbits : m < 2 ^ 53) (hlow : -1074 ≤ e)
    (hhigh : e ≤ 971) :
    (Interval.ofBinary m e).Found tie (startExponent m e) (shortest tie m e) := by
  have hlog : m.log2 ≤ 52 := by
    have := (Nat.log2_lt hm.ne').mpr hbits
    omega
  exact Interval.search_found (Interval.ofBinary_low hm e).2 rfl tie 24 _
    (Interval.unit_lt_last hlog hlow hhigh)

/-- The shortest decimal of a double lies in its rounding interval. -/
theorem shortest_contains (tie : Tie) (hm : 0 < m) (hbits : m < 2 ^ 53) (hlow : -1074 ≤ e)
    (hhigh : e ≤ 971) :
    (Interval.ofBinary m e).Contains (shortest tie m e).exponent (shortest tie m e).digits :=
  (Interval.contains_of_point? (shortest_found tie hm hbits hlow hhigh).hit).1

/-- The shortest decimal of a double has a positive number of digits that fits into 64 bits. -/
theorem shortest_bounds (tie : Tie) (hm : 0 < m) (hbits : m < 2 ^ 53) (hlow : -1074 ≤ e)
    (hhigh : e ≤ 971) :
    0 < (shortest tie m e).digits ∧ (shortest tie m e).digits < 2 ^ 64 - 1 := by
  have hlog : m.log2 ≤ 52 := by
    have := (Nat.log2_lt hm.ne').mpr hbits
    omega
  have hmid : 5 * (Interval.ofBinary m e).mid ≤ 20 * m := by
    rw [Interval.ofBinary_mid]
    omega
  obtain ⟨hlowpos, hlowmid⟩ := Interval.ofBinary_low hm e
  obtain ⟨hpos, hle⟩ := (shortest_found tie hm hbits hlow hhigh).bounds hlowpos hlowmid rfl hmid
    (Interval.mid_le_start hlog hlow hhigh)
  exact ⟨hpos, Nat.lt_of_le_of_lt hle (by omega)⟩

/-- The shortest decimal of a double is written with a small power of ten. -/
theorem shortest_exponent_bounds (tie : Tie) (hbits : m < 2 ^ 53) (hlow : -1074 ≤ e)
    (hhigh : e ≤ 971) : -350 ≤ (shortest tie m e).exponent ∧ (shortest tie m e).exponent ≤ 350 := by
  have hlog : m.log2 ≤ 52 := by
    rcases Nat.eq_zero_or_pos m with rfl | hm
    · rw [Nat.log2_zero]
      omega
    · have := (Nat.log2_lt hm.ne').mpr hbits
      omega
  have hsearch := (Interval.ofBinary m e).search_exponent tie 25 (startExponent m e)
  rw [← shortest] at hsearch
  unfold startExponent at hsearch
  omega

end TriggerLatency.Decimal
