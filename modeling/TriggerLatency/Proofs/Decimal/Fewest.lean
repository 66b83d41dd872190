import TriggerLatency.Decimal.Layout
import TriggerLatency.Proofs.Decimal.Interval

/-!
# The fewest digits

The shortest decimal of a float lies on the coarsest grid that meets the rounding interval
(`shortest_coarsest`): what lies on a coarser grid lies on all finer ones, and the search has
missed the one before. So a shortest decimal does not end in a zero (`shortest_digits_mod_ten`),
and no decimal of the interval has fewer digits (`length_shortest_le_iff`), since between two
numbers of different lengths there is a power of ten.
-/

namespace TriggerLatency.Decimal

theorem length_natDigits_le_iff {n k : Nat} (hk : 0 < k) :
    (natDigits n).length ≤ k ↔ n < 10 ^ k :=
  Nat.length_toDigits_le_iff (by omega) hk

theorem pow_length_natDigits_le {n : Nat} (hn : 0 < n) : 10 ^ ((natDigits n).length - 1) ≤ n := by
  by_contra hlt
  rcases Nat.eq_zero_or_pos ((natDigits n).length - 1) with hone | hmore
  · rw [hone] at hlt
    omega
  · have hless := (length_natDigits_le_iff hmore).mpr (Nat.lt_of_not_le hlt)
    omega

namespace Interval

variable {i : Interval} {tie : Tie} {k : Int} {d : Nat}

/-- A multiple of `10 ^ (k + 1)` is one of `10 ^ k`. -/
theorem contains_succ_iff : i.Contains (k + 1) d ↔ i.Contains k (d * 10) := by
  have hratio : d * i.unit (k + 1) * i.scale k = d * 10 * i.unit k * i.scale (k + 1) := by
    have hten : (k + 1).toNat + (-k).toNat = 1 + k.toNat + (-(k + 1)).toNat := by omega
    unfold unit scale powerUp powerDown
    calc d * (10 ^ (k + 1).toNat * 2 ^ (-i.exponent).toNat)
          * (2 ^ i.exponent.toNat * 10 ^ (-k).toNat)
        = d * 2 ^ (-i.exponent).toNat * 2 ^ i.exponent.toNat
            * 10 ^ ((k + 1).toNat + (-k).toNat) := by
          rw [Nat.pow_add]
          ring
      _ = d * 10 * (10 ^ k.toNat * 2 ^ (-i.exponent).toNat)
            * (2 ^ i.exponent.toNat * 10 ^ (-(k + 1)).toNat) := by
          rw [hten, Nat.pow_add, Nat.pow_add]
          ring
  exact ⟨holds_of_ratio (i.scale_pos _) (i.scale_pos _) hratio,
    holds_of_ratio (i.scale_pos _) (i.scale_pos _) hratio.symm⟩

theorem contains_add_iff (n : Nat) : i.Contains (k + n) d ↔ i.Contains k (d * 10 ^ n) := by
  induction n generalizing d with
  | zero => rw [Nat.cast_zero, Int.add_zero, Nat.pow_zero, Nat.mul_one]
  | succ n ih =>
    rw [Nat.cast_succ, ← Int.add_assoc, contains_succ_iff, ih, Nat.pow_succ, Nat.mul_assoc,
      Nat.mul_comm 10]

/-- Where the two neighbours of the middle do not lie in the interval, nothing does. -/
theorem not_contains_of_miss (hlow : i.low < i.mid) (hhigh : i.mid < i.high)
    (hmiss : i.point? tie k = none) : ¬ i.Contains k d := by
  intro h
  have hscale := i.scale_pos k
  have hmid : holds i.closed (i.low * i.scale k) (i.mid * i.scale k) (i.high * i.scale k) = true :=
    holds_of_lt i.closed (Nat.mul_lt_mul_of_pos_right hlow hscale)
      (Nat.mul_lt_mul_of_pos_right hhigh hscale)
  obtain ⟨b, hb⟩ : ∃ b, b = i.mid * i.scale k / i.unit k := ⟨_, rfl⟩
  have hbelow : b * i.unit k ≤ i.mid * i.scale k := hb ▸ Nat.div_mul_le_self ..
  have habove : i.mid * i.scale k ≤ (b + 1) * i.unit k :=
    hb ▸ (Nat.lt_mul_of_div_lt (Nat.lt_succ_self _) (i.unit_pos k)).le
  rcases Nat.lt_or_ge b d with hgreat | hsmall
  · exact not_contains_of_point?_none hmiss (Or.inr (congrArg (· + 1) hb))
      (holds_of_between hmid h habove (Nat.mul_le_mul_right _ hgreat))
  · exact not_contains_of_point?_none hmiss (Or.inl hb)
      (holds_of_between h hmid (Nat.mul_le_mul_right _ hsmall) hbelow)

/-- The search starts above twice the float. -/
theorem double_le_start {m : Nat} {e : Int} (hm : 0 < m) (hbits : m < 2 ^ 53) (he : -1074 ≤ e)
    (hhigh : e ≤ 971) : ((8 * m : Nat) : ℚ) * 2 ^ (e - 2) ≤ 10 ^ startExponent m e := by
  have hlog : m.log2 ≤ 52 := by
    have := (Nat.log2_lt hm.ne').mpr hbits
    omega
  have hstart : startExponent m e = ((m.log2 + 1 : Int) + e) * 30103 / 100000 + 2 := rfl
  have hbound : (m : ℚ) ≤ 2 ^ ((m.log2 : Int) + 1) := by
    exact_mod_cast Nat.lt_log2_self.le
  calc ((8 * m : Nat) : ℚ) * 2 ^ (e - 2)
      = 8 * m * 2 ^ (e - 2) := by push_cast; ring
    _ ≤ 8 * 2 ^ ((m.log2 : Int) + 1) * 2 ^ (e - 2) := by gcongr
    _ = 2 ^ ((m.log2 : Int) + 2 + e) := by
      rw [show (8 : ℚ) = 2 ^ (3 : Int) by norm_num, ← zpow_add₀ (by norm_num),
        ← zpow_add₀ (by norm_num)]
      congr 1
      omega
    _ ≤ 10 ^ startExponent m e := two_zpow_le_ten_zpow (by omega) (by omega)

/-- So nothing on its first grid, or on a coarser one, lies in the interval. -/
theorem not_contains_of_start_le {m : Nat} {e : Int} (hm : 0 < m) (hbits : m < 2 ^ 53)
    (he : -1074 ≤ e) (hhigh : e ≤ 971) (hk : startExponent m e ≤ k) :
    ¬ (ofBinary m e).Contains k d := by
  intro h
  have hd : (1 : ℚ) ≤ d := by exact_mod_cast pos_of_contains (ofBinary_low hm e).1 h
  have hbeyond : 8 * m * (ofBinary m e).scale k ≤ d * (ofBinary m e).unit k := by
    refine mul_scale_le_iff.mpr ?_
    calc ((8 * m : Nat) : ℚ) * 2 ^ (e - 2)
        ≤ 10 ^ startExponent m e := double_le_start hm hbits he hhigh
      _ ≤ 10 ^ k := zpow_le_zpow_right₀ (by norm_num) hk
      _ ≤ d * 10 ^ k := le_mul_of_one_le_left (by positivity) hd
  have hwithin : d * (ofBinary m e).unit k ≤ (4 * m + 2) * (ofBinary m e).scale k :=
    (holds_iff.mp h).2.1
  have hless : (4 * m + 2) * (ofBinary m e).scale k < 8 * m * (ofBinary m e).scale k :=
    Nat.mul_lt_mul_of_pos_right (by omega) ((ofBinary m e).scale_pos k)
  omega

end Interval

variable {m : Nat} {e : Int}

/-- No coarser grid meets the interval. -/
theorem shortest_coarsest (tie : Tie) (hm : 0 < m) (hbits : m < 2 ^ 53) (he : -1074 ≤ e)
    (hhigh : e ≤ 971) {k : Int} (hk : (shortest tie m e).exponent < k) (d : Nat) :
    ¬ (Interval.ofBinary m e).Contains k d := by
  have hfound := shortest_found tie hm hbits he hhigh
  generalize shortest tie m e = s at hk hfound
  rcases hfound.first with hstart | hmiss
  · exact Interval.not_contains_of_start_le hm hbits he hhigh (by omega)
  · -- what lies on a coarser grid lies on the one that was missed
    obtain ⟨n, rfl⟩ : ∃ n : Nat, k = s.exponent + 1 + n := ⟨(k - s.exponent - 1).toNat, by omega⟩
    have hlow : (Interval.ofBinary m e).low < (Interval.ofBinary m e).mid := by
      unfold Interval.ofBinary
      dsimp only
      split <;> omega
    intro h
    exact Interval.not_contains_of_miss hlow (Nat.lt_add_of_pos_right (by omega)) hmiss
      ((Interval.contains_add_iff n).mp h)

/-- The last digit of a shortest decimal is not zero. -/
theorem shortest_digits_mod_ten (tie : Tie) (hm : 0 < m) (hbits : m < 2 ^ 53) (he : -1074 ≤ e)
    (hhigh : e ≤ 971) : (shortest tie m e).digits % 10 ≠ 0 := by
  intro hzero
  have hcontains := shortest_contains tie hm hbits he hhigh
  obtain ⟨d, hd⟩ : ∃ d, (shortest tie m e).digits = d * 10 :=
    ⟨(shortest tie m e).digits / 10, by omega⟩
  rw [hd, ← Interval.contains_succ_iff] at hcontains
  exact shortest_coarsest tie hm hbits he hhigh (Int.lt_succ _) d hcontains

/-- No decimal of the interval is shorter. -/
theorem length_shortest_le (tie : Tie) (hm : 0 < m) (hbits : m < 2 ^ 53) (he : -1074 ≤ e)
    (hhigh : e ≤ 971) {k : Int} {d : Nat} (h : (Interval.ofBinary m e).Contains k d) :
    (natDigits (shortest tie m e).digits).length ≤ (natDigits d).length := by
  have hcoarsest := @shortest_coarsest m e tie hm hbits he hhigh
  have hcontains := shortest_contains tie hm hbits he hhigh
  have hpos := (shortest_bounds tie hm hbits he hhigh).1
  generalize shortest tie m e = s at hcoarsest hcontains hpos ⊢
  by_contra hlonger
  obtain ⟨j, hj⟩ : ∃ j : Nat, s.exponent = k + j := by
    refine ⟨(s.exponent - k).toNat, ?_⟩
    have hle : k ≤ s.exponent := Int.not_lt.mp fun hk => hcoarsest hk d h
    omega
  obtain ⟨n, hn⟩ : ∃ n, n = (natDigits d).length := ⟨_, rfl⟩
  have hsome : 0 < n := hn ▸ List.length_pos_iff.mpr Nat.toDigits_ne_nil
  -- between the two there is a power of ten, and it lies on a coarser grid
  have hless : d ≤ 10 ^ (n + j) := by
    have hlt : d < 10 ^ n := (length_natDigits_le_iff hsome).mp hn.ge
    exact hlt.le.trans (Nat.pow_le_pow_right (by omega) (by omega))
  have hmore : 10 ^ (n + j) ≤ s.digits * 10 ^ j := by
    rw [Nat.pow_add]
    refine Nat.mul_le_mul_right _ (le_trans ?_ (pow_length_natDigits_le hpos))
    exact Nat.pow_le_pow_right (by omega) (by omega)
  rw [hj, Interval.contains_add_iff] at hcontains
  have hpower : (Interval.ofBinary m e).Contains k (1 * 10 ^ (n + j)) := by
    rw [Nat.one_mul]
    exact Interval.holds_of_between h hcontains (Nat.mul_le_mul_right _ hless)
      (Nat.mul_le_mul_right _ hmore)
  exact hcoarsest (by omega) 1 ((Interval.contains_add_iff (n + j)).mpr hpower)

/-- The shortest decimal has at most so many digits if any decimal of the interval has. -/
theorem length_shortest_le_iff (tie : Tie) (hm : 0 < m) (hbits : m < 2 ^ 53) (he : -1074 ≤ e)
    (hhigh : e ≤ 971) {n : Nat} (hn : 0 < n) :
    (natDigits (shortest tie m e).digits).length ≤ n
      ↔ ∃ (k : Int) (d : Nat), d < 10 ^ n ∧ (Interval.ofBinary m e).Contains k d := by
  constructor
  · intro h
    exact ⟨_, _, (length_natDigits_le_iff hn).mp h, shortest_contains tie hm hbits he hhigh⟩
  · rintro ⟨k, d, hd, h⟩
    exact (length_shortest_le tie hm hbits he hhigh h).trans ((length_natDigits_le_iff hn).mpr hd)

end TriggerLatency.Decimal
