import TriggerLatency.Proofs.Decimal.Shortest
import TriggerLatency.Proofs.Double.Rounding

/-!
# The rounding interval

The rounding interval of a float holds what is rounded to it: a quotient that lies in the
interval of a double has that double for its nearest (`nearest_eq_of_holds`). Between the
midpoints to the two neighbours this is rounding half to even at the last place of the float.
Only below a power of two the last place is another one, half of that above it, which is why the
lower end of the interval is nearer there.
-/

namespace TriggerLatency.Decimal

open Double

theorem Interval.holds_iff {closed : Bool} {low n high : Nat} :
    holds closed low n high = true ↔ low ≤ n ∧ n ≤ high
      ∧ (closed = false → low < n ∧ n < high) := by
  unfold holds
  cases closed
  · simp
    omega
  · simp

/-- An interval has no gaps. -/
theorem Interval.holds_of_between {closed : Bool} {low a b c high : Nat}
    (ha : holds closed low a high = true) (hc : holds closed low c high = true) (hab : a ≤ b)
    (hbc : b ≤ c) : holds closed low b high = true := by
  rw [holds_iff] at ha hc ⊢
  refine ⟨by omega, by omega, fun hopen => ?_⟩
  have hlow := (ha.2.2 hopen).1
  have hhigh := (hc.2.2 hopen).2
  omega

variable {m p num den : Nat}

/-- The last place of a quotient whose whole part has fifty-three bits at a place, or fewer at the
least place. -/
theorem lastPlace_eq (hd : 0 < den) (hlow : 2 ^ 52 * (den * 2 ^ p) ≤ num ∨ p = 0)
    (hhigh : num < 2 ^ 53 * (den * 2 ^ p)) : lastPlace num den = p := by
  have hlt : num / den < 2 ^ (53 + p) := by
    rw [Nat.div_lt_iff_lt_mul hd, Nat.pow_add]
    calc num < 2 ^ 53 * (den * 2 ^ p) := hhigh
      _ = 2 ^ 53 * 2 ^ p * den := by ring
  unfold lastPlace
  rcases hlow with hlow | rfl
  · have hle : 2 ^ (52 + p) ≤ num / den := by
      rw [Nat.le_div_iff_mul_le hd, Nat.pow_add]
      calc 2 ^ 52 * 2 ^ p * den = 2 ^ 52 * (den * 2 ^ p) := by ring
        _ ≤ num := hlow
    have hne : num / den ≠ 0 := (Nat.lt_of_lt_of_le (Nat.two_pow_pos _) hle).ne'
    have hlog := (Nat.log2_eq_iff hne).mpr ⟨hle, by rwa [show 52 + p + 1 = 53 + p by omega]⟩
    omega
  · rcases Nat.eq_zero_or_pos (num / den) with hzero | hpos
    · rw [hzero, Nat.log2_zero]
    · have := (Nat.log2_lt hpos.ne').mpr hlt
      omega

/-- At the last place of a float, the quotients between its midpoints are rounded to it. -/
theorem nearest_eq_of_place (hd : 0 < den) (hm : 0 < m) (hplace : lastPlace num den = p)
    (hlow : (2 * m - 1) * (den * 2 ^ p) ≤ 2 * num) (hhigh : 2 * num ≤ (2 * m + 1) * (den * 2 ^ p))
    (hodd : m % 2 = 1 → (2 * m - 1) * (den * 2 ^ p) < 2 * num
      ∧ 2 * num < (2 * m + 1) * (den * 2 ^ p)) :
    nearest num den = m * 2 ^ p := by
  have hround : roundHalfEven num (den * 2 ^ p) = m := by
    rw [roundHalfEven_eq_iff (Nat.mul_pos hd (Nat.two_pow_pos p))]
    obtain ⟨r, rfl⟩ := Nat.exists_eq_succ_of_ne_zero hm.ne'
    generalize den * 2 ^ p = unit at hlow hhigh hodd ⊢
    have hmid : (2 * r.succ - 1) * unit = 2 * (r.succ * unit) - unit := by
      rw [Nat.sub_mul, Nat.one_mul, Nat.mul_assoc]
    have hmid' : (2 * r.succ + 1) * unit = 2 * (r.succ * unit) + unit := by ring
    have hunit : unit ≤ r.succ * unit := Nat.le_mul_of_pos_left unit r.succ_pos
    rw [hmid, hmid'] at hodd
    refine ⟨?_, ?_, fun hhalf => ?_⟩ <;> omega
  unfold nearest nearestUnits
  rw [hplace, hround]

/-- Below a power of two the last place is the one before. -/
theorem nearest_eq_of_below (hd : 0 < den)
    (hlow : (4 * 2 ^ 52 - 1) * (den * 2 ^ (p + 1)) ≤ 4 * num)
    (hbelow : num < 2 ^ 52 * (den * 2 ^ (p + 1))) :
    nearest num den = 2 ^ 52 * 2 ^ (p + 1) := by
  have hunit : den * 2 ^ (p + 1) = 2 * (den * 2 ^ p) := by ring
  rw [hunit] at hlow hbelow
  have hplace : lastPlace num den = p := lastPlace_eq hd (Or.inl (by omega)) (by omega)
  rw [nearest_eq_of_place (m := 2 ^ 53) hd (by omega) hplace (by omega) (by omega) (by omega)]
  ring

/-- A quotient in the rounding interval of a float is rounded to it. -/
theorem nearest_eq_of_holds {e : Int} (hd : 0 < den) (hm : 0 < m) (hbits : m < 2 ^ 53)
    (hfull : 2 ^ 52 ≤ m ∨ e = -1074)
    (h : Interval.holds (Interval.ofBinary m e).closed
      ((Interval.ofBinary m e).low * (den * 2 ^ (e + 1074).toNat)) (4 * num)
      ((Interval.ofBinary m e).high * (den * 2 ^ (e + 1074).toNat)) = true) :
    nearest num den = m * 2 ^ (e + 1074).toNat := by
  obtain ⟨hlow, hhigh, hopen⟩ := Interval.holds_iff.mp h
  obtain ⟨p, hp⟩ : ∃ p, p = (e + 1074).toNat := ⟨_, rfl⟩
  rw [← hp] at hlow hhigh hopen ⊢
  have hunit : 0 < den * 2 ^ p := Nat.mul_pos hd (Nat.two_pow_pos p)
  have hupper : (Interval.ofBinary m e).high * (den * 2 ^ p)
      = 2 * ((2 * m + 1) * (den * 2 ^ p)) := by
    show (4 * m + 2) * _ = _
    ring
  have hlower :
      2 * ((2 * m - 1) * (den * 2 ^ p)) ≤ (Interval.ofBinary m e).low * (den * 2 ^ p) := by
    rw [← Nat.mul_assoc]
    refine Nat.mul_le_mul_right _ ?_
    unfold Interval.ofBinary
    dsimp only
    split <;> omega
  rw [hupper] at hhigh hopen
  by_cases hbelow : num < 2 ^ 52 * (den * 2 ^ p) ∧ p ≠ 0
  · -- only below a power of two, and not at the least exponent
    obtain ⟨hnum, hp0⟩ := hbelow
    have hpower : m = 2 ^ 52 := by
      by_contra hne
      have hfull : (2 ^ 53 + 1) * (den * 2 ^ p) ≤ (2 * m - 1) * (den * 2 ^ p) :=
        Nat.mul_le_mul_right _ (by omega)
      omega
    have hend : (Interval.ofBinary m e).low = 4 * 2 ^ 52 - 1 := by
      unfold Interval.ofBinary
      dsimp only
      rw [if_pos ⟨hpower, by omega⟩, hpower]
    rw [hend] at hlow
    obtain ⟨q, rfl⟩ := Nat.exists_eq_succ_of_ne_zero hp0
    rw [hpower]
    exact nearest_eq_of_below hd hlow hnum
  · have hlast : (2 * m + 1) * (den * 2 ^ p) ≤ (2 ^ 54 - 1) * (den * 2 ^ p) :=
      Nat.mul_le_mul_right _ (by omega)
    have hplace : lastPlace num den = p := lastPlace_eq hd (by omega) (by omega)
    refine nearest_eq_of_place hd hm hplace (by omega) (by omega) fun hodd => ?_
    have hclosed : (Interval.ofBinary m e).closed = false := by
      show (m % 2 == 0) = false
      rw [hodd]
      rfl
    obtain ⟨hlt, hgt⟩ := hopen hclosed
    omega

/-- Whether a quotient lies in an interval does not depend on the fraction. -/
theorem Interval.holds_of_ratio {closed : Bool} {low high n n' s u : Nat} (hs : 0 < s) (hu : 0 < u)
    (hratio : n * u = n' * s) (h : holds closed (low * s) n (high * s) = true) :
    holds closed (low * u) n' (high * u) = true := by
  have hswap : ∀ a, a * s * u = a * u * s := fun a => Nat.mul_right_comm a s u
  have hle : ∀ {a b c d : Nat}, a ≤ b → a * u = c * s → b * u = d * s → c ≤ d := by
    intro a b c d hab hac hbd
    exact Nat.le_of_mul_le_mul_right (hac ▸ hbd ▸ Nat.mul_le_mul_right u hab) hs
  have hlt : ∀ {a b c d : Nat}, a < b → a * u = c * s → b * u = d * s → c < d := by
    intro a b c d hab hac hbd
    exact Nat.lt_of_mul_lt_mul_right (hac ▸ hbd ▸ Nat.mul_lt_mul_of_pos_right hab hu)
  obtain ⟨hlow, hhigh, hopen⟩ := holds_iff.mp h
  refine holds_iff.mpr ⟨hle hlow (hswap low) hratio, hle hhigh hratio (hswap high), fun hc => ?_⟩
  exact ⟨hlt (hopen hc).1 (hswap low) hratio, hlt (hopen hc).2 hratio (hswap high)⟩

/-- A decimal in the rounding interval of a float, written as a fraction. -/
theorem Interval.Contains.fraction {e k : Int} {d t K : Nat} (he : -1074 ≤ e) (hk : k + K = t)
    (h : (Interval.ofBinary m e).Contains k d) :
    holds (Interval.ofBinary m e).closed
      ((Interval.ofBinary m e).low * (10 ^ K * 2 ^ (e + 1074).toNat))
      (4 * (d * 10 ^ t * grainsOfOne))
      ((Interval.ofBinary m e).high * (10 ^ K * 2 ^ (e + 1074).toNat)) = true := by
  refine holds_of_ratio ((Interval.ofBinary m e).scale_pos k)
    (Nat.mul_pos (Nat.pow_pos (by omega)) (Nat.two_pow_pos _)) ?_ h
  unfold grainsOfOne Interval.unit Interval.scale powerUp powerDown
  rw [Interval.ofBinary_exponent]
  generalize hg : 1074 = g
  -- the powers of ten and of two are the same on both sides
  have hten : k.toNat + K = t + (-k).toNat := by omega
  have htwo : (-(e - 2)).toNat + (e + 1074).toNat = 2 + g + (e - 2).toNat := by omega
  calc d * (10 ^ k.toNat * 2 ^ (-(e - 2)).toNat) * (10 ^ K * 2 ^ (e + 1074).toNat)
      = d * 10 ^ (k.toNat + K) * 2 ^ ((-(e - 2)).toNat + (e + 1074).toNat) := by
        rw [Nat.pow_add, Nat.pow_add]
        ring
    _ = d * 10 ^ (t + (-k).toNat) * 2 ^ (2 + g + (e - 2).toNat) := by rw [hten, htwo]
    _ = 4 * (d * 10 ^ t * 2 ^ g) * (2 ^ (e - 2).toNat * 10 ^ (-k).toNat) := by
        rw [Nat.pow_add, Nat.pow_add, Nat.pow_add]
        ring

/-- A decimal in the rounding interval of a float is rounded to it. -/
theorem nearest_eq_of_contains {e k : Int} {d t K : Nat} (hm : 0 < m) (hbits : m < 2 ^ 53)
    (he : -1074 ≤ e) (hfull : 2 ^ 52 ≤ m ∨ e = -1074) (hk : k + K = t)
    (h : (Interval.ofBinary m e).Contains k d) :
    nearest (d * 10 ^ t * grainsOfOne) (10 ^ K) = m * 2 ^ (e + 1074).toNat :=
  nearest_eq_of_holds (Nat.pow_pos (by omega)) hm hbits hfull (h.fraction he hk)

/-- A decimal in the rounding interval of a float is at least half of it, and at most half more. -/
theorem Interval.Contains.bounds {e k : Int} {d t K : Nat} (hm : 0 < m) (he : -1074 ≤ e)
    (hk : k + K = t) (h : (Interval.ofBinary m e).Contains k d) :
    m * 2 ^ (e + 1074).toNat * 10 ^ K ≤ 2 * (d * 10 ^ t * grainsOfOne)
      ∧ 2 * (d * 10 ^ t * grainsOfOne) ≤ 3 * (m * 2 ^ (e + 1074).toNat * 10 ^ K) := by
  obtain ⟨hlow, hhigh, -⟩ := holds_iff.mp (h.fraction he hk)
  have hunit : m * 2 ^ (e + 1074).toNat * 10 ^ K = m * (10 ^ K * 2 ^ (e + 1074).toNat) := by ring
  have hends : 2 * m ≤ (Interval.ofBinary m e).low ∧ (Interval.ofBinary m e).high ≤ 6 * m := by
    unfold ofBinary
    dsimp only
    split <;> omega
  have hlower := Nat.mul_le_mul_right (10 ^ K * 2 ^ (e + 1074).toNat) hends.1
  have hupper := Nat.mul_le_mul_right (10 ^ K * 2 ^ (e + 1074).toNat) hends.2
  rw [Nat.mul_assoc] at hlower hupper
  rw [hunit]
  omega

end TriggerLatency.Decimal
