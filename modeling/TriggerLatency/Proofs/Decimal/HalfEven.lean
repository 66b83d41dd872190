import TriggerLatency.Decimal.Layout
import Mathlib.Tactic.Linarith
import Mathlib.Tactic.Ring

/-!
# Rounding a quotient half to even

`roundHalfEven num den` is the integer nearest to `num / den`. Everything about it
follows from where it steps up, `lt_roundHalfEven_iff`: it exceeds `r` exactly when
the quotient is beyond `r + 1/2`, or on that midpoint with `r` odd. So it depends on
the quotient alone and never falls when the quotient grows (`roundHalfEven_mono`), and
no other integer is as near and even on a midpoint (`roundHalfEven_eq_iff`).
-/

namespace TriggerLatency.Decimal

/-- Rounding steps over `r` at the midpoint `r + 1/2`, where an odd `r` goes up. -/
theorem lt_roundHalfEven_iff {num den : Nat} (hd : 0 < den) (r : Nat) :
    r < roundHalfEven num den ↔
      (2 * r + 1) * den < 2 * num ∨ ((2 * r + 1) * den = 2 * num ∧ r % 2 = 1) := by
  have hdiv : den * (num / den) + num % den = num := Nat.div_add_mod num den
  have hrem : num % den < den := Nat.mod_lt _ hd
  unfold roundHalfEven
  dsimp only
  generalize num / den = q at hdiv ⊢
  generalize num % den = rem at hdiv hrem ⊢
  subst hdiv
  rcases Nat.lt_trichotomy r q with hlt | rfl | hgt
  · -- a whole step below the floor: both sides hold
    have hstep : (2 * r + 1) * den + den ≤ 2 * (den * q) := by
      have := Nat.mul_le_mul_left den (show r + 1 ≤ q from hlt)
      nlinarith
    constructor
    · intro _
      left
      omega
    · intro _
      split_ifs <;> omega
  · -- `r` is the floor: the remainder and the parity of `r` decide
    have hmid : (2 * r + 1) * den = 2 * (den * r) + den := by ring
    rw [hmid]
    split_ifs <;> omega
  · -- above the floor: neither side holds
    have hstep : 2 * (den * q) + 3 * den ≤ (2 * r + 1) * den := by
      have := Nat.mul_le_mul_left den (show q + 1 ≤ r from hgt)
      nlinarith
    constructor
    · intro h
      split_ifs at h <;> omega
    · intro h
      omega

/-- A greater quotient is not rounded to a lesser integer. -/
theorem roundHalfEven_mono {a b c d : Nat} (hb : 0 < b) (hd : 0 < d) (h : a * d ≤ c * b) :
    roundHalfEven a b ≤ roundHalfEven c d := by
  by_contra hlt
  have hup := (lt_roundHalfEven_iff hb _).mp (Nat.lt_of_not_le hlt)
  refine absurd ((lt_roundHalfEven_iff hd (roundHalfEven c d)).mpr ?_) (Nat.lt_irrefl _)
  generalize roundHalfEven c d = r at hup ⊢
  -- the midpoint `r + 1/2` is at most `a / b`, and `a / b` is at most `c / d`
  rcases hup with hlt | ⟨heq, hodd⟩
  · left
    refine Nat.lt_of_mul_lt_mul_left (a := b) ?_
    nlinarith [Nat.mul_lt_mul_of_pos_right hlt hd]
  · have hle : (2 * r + 1) * d ≤ 2 * c := by
      refine Nat.le_of_mul_le_mul_left (c := b) ?_ hb
      nlinarith [congrArg (· * d) heq]
    rcases Nat.lt_or_eq_of_le hle with hlt | heq'
    · exact Or.inl hlt
    · -- both quotients are the midpoint, so they go up together
      exact Or.inr ⟨heq', hodd⟩

/-- Rounding reads the quotient, not the fraction. -/
theorem roundHalfEven_congr {a b c d : Nat} (hb : 0 < b) (hd : 0 < d) (h : a * d = c * b) :
    roundHalfEven a b = roundHalfEven c d :=
  Nat.le_antisymm (roundHalfEven_mono hb hd h.le) (roundHalfEven_mono hd hb h.ge)

/-- A whole quotient is kept. -/
theorem roundHalfEven_mul_self (q : Nat) {den : Nat} (hd : 0 < den) :
    roundHalfEven (q * den) den = q := by
  have hmod : q * den % den = 0 := Nat.mul_mod_left q den
  have hdiv : q * den / den = q := Nat.mul_div_cancel q hd
  simp [roundHalfEven, hmod, hdiv, hd]

/-- An integer within a half of a quotient, which is even if it is a whole half away. -/
structure IsHalfEven (num den q : Nat) : Prop where
  le_add_half : 2 * (q * den) ≤ 2 * num + den
  add_half_ge : 2 * num ≤ 2 * (q * den) + den
  even_of_half : 2 * (q * den) = 2 * num + den ∨ 2 * num = 2 * (q * den) + den → q % 2 = 0

/-- There is one such integer, and it is what the quotient is rounded to. -/
theorem roundHalfEven_eq_iff {num den q : Nat} (hd : 0 < den) :
    roundHalfEven num den = q ↔ IsHalfEven num den q := by
  have hmid (r : Nat) : (2 * r + 1) * den = 2 * (r * den) + den := by ring
  have hnext (r : Nat) : (r + 1) * den = r * den + den := Nat.succ_mul r den
  constructor
  · rintro rfl
    have habove : ¬ roundHalfEven num den < roundHalfEven num den := Nat.lt_irrefl _
    rw [lt_roundHalfEven_iff hd, hmid] at habove
    cases hq : roundHalfEven num den with
    | zero =>
      rw [hq] at habove
      exact ⟨by omega, by omega, fun _ => rfl⟩
    | succ r =>
      -- rounding steps over `r`, and not over `r + 1`
      have hbelow : r < roundHalfEven num den := by omega
      rw [lt_roundHalfEven_iff hd, hmid] at hbelow
      rw [hq, hnext] at habove
      refine ⟨?_, ?_, ?_⟩ <;> rw [hnext] <;> omega
  · rintro ⟨hlow, hhigh, heven⟩
    apply Nat.le_antisymm
    · refine Nat.le_of_not_lt fun hlt => ?_
      rw [lt_roundHalfEven_iff hd, hmid] at hlt
      omega
    · cases q with
      | zero => exact Nat.zero_le _
      | succ r =>
        rw [hnext] at hlow heven
        refine (lt_roundHalfEven_iff hd r).mpr ?_
        rw [hmid]
        omega

theorem div_le_roundHalfEven (num den : Nat) : num / den ≤ roundHalfEven num den := by
  unfold roundHalfEven
  dsimp only
  split_ifs <;> omega

theorem roundHalfEven_le (num den : Nat) : roundHalfEven num den ≤ num / den + 1 := by
  unfold roundHalfEven
  dsimp only
  split_ifs <;> omega

end TriggerLatency.Decimal
