import TriggerLatency.Proofs.Decimal.Fewest
import TriggerLatency.Proofs.Json.Scaling

/-!
# Numbers that are read back

A float from `0.00001` up to fourteen integer digits whose shortest decimal has at most fifteen
digits is read back as itself (`reread_of_short`). What its text spells is a whole number below
`2 ^ 53` over one of the first powers of ten (`exists_fraction`), and these are doubles both, so
the only rounding is that of their quotient. The quotient is the shortest decimal, and so it lies
in the rounding interval of the float.
-/

namespace TriggerLatency.Json

open Decimal Double

/-- How many digits the shortest decimal of a float has, unless that is a zero or not finite. -/
def significantDigits (x : Float) : Nat :=
  match Binary.ofFloat x with
  | .finite _ mantissa exponent => (natDigits (shortest .toEven mantissa exponent).digits).length
  | _ => 0

/-- A float has at most so many if any decimal of its rounding interval has. -/
theorem significantDigits_le_iff {x : Float} {negative : Bool} {m : Nat} {e : Int}
    (hx : Binary.ofFloat x = .finite negative m e) (hm : 0 < m) {n : Nat} (hn : 0 < n) :
    significantDigits x ≤ n
      ↔ ∃ (k : Int) (d : Nat), d < 10 ^ n ∧ (Interval.ofBinary m e).Contains k d := by
  obtain ⟨hbits, hlow, hhigh⟩ := bounds_of_ofFloat hx
  rw [significantDigits, hx]
  exact length_shortest_le_iff .toEven hm hbits hlow hhigh hn

/-! ## The decimal that is spelled -/

/-- The text of a decimal of few digits, neither small nor great, spells a whole number of few bits
over a small power of ten. -/
theorem exists_fraction {s : Scaled} (hpos : 0 < s.digits)
    (hshort : (natDigits s.digits).length ≤ 15)
    (hlow : 10 ^ (-s.exponent).toNat ≤ 2 * 10 ^ 6 * (s.digits * 10 ^ s.exponent.toNat))
    (hhigh : s.digits * 10 ^ s.exponent.toNat < 2 * 10 ^ 14 * 10 ^ (-s.exponent).toNat) :
    ∃ t K : Nat, s.exponent + K = t ∧ K < 23 ∧ s.digits * 10 ^ t < 2 ^ 53
      ∧ spelled s = ⟨s.digits * 10 ^ t, -K⟩ := by
  have hdigits : s.digits < 10 ^ 15 := (length_natDigits_le_iff (by omega)).mp hshort
  rcases Int.lt_or_le s.exponent 0 with hfraction | hwhole
  · -- digits behind the point are divided away
    have hself := spelled_eq_self (s := s) (Or.inl hfraction)
    obtain ⟨K, hK⟩ : ∃ K : Nat, s.exponent = -K := ⟨(-s.exponent).toNat, by omega⟩
    rw [hK] at hlow
    rw [show (-(K : Int)).toNat = 0 by omega, show (-(-(K : Int))).toNat = K by omega] at hlow
    have hplaces : K < 22 := (Nat.pow_lt_pow_iff_right (a := 10) (by omega)).mp (by omega)
    refine ⟨0, K, by omega, by omega, by omega, ?_⟩
    rw [hself, Nat.pow_zero, Nat.mul_one, ← hK]
  · -- a whole number has one more digit, behind the point
    rw [show (-s.exponent).toNat = 0 by omega] at hhigh
    have hlen := pow_length_natDigits_le hpos
    have hfew : (natDigits s.digits).length - 1 + s.exponent.toNat < 15 := by
      refine (Nat.pow_lt_pow_iff_right (a := 10) (by omega)).mp ?_
      calc 10 ^ ((natDigits s.digits).length - 1 + s.exponent.toNat)
          = 10 ^ ((natDigits s.digits).length - 1) * 10 ^ s.exponent.toNat := Nat.pow_add ..
        _ ≤ s.digits * 10 ^ s.exponent.toNat := Nat.mul_le_mul_right _ hlen
        _ < 10 ^ 15 := by omega
    refine ⟨s.exponent.toNat + 1, 1, by omega, by omega, ?_,
      spelled_of_whole hwhole (by omega)⟩
    rw [Nat.pow_succ, ← Nat.mul_assoc]
    omega

/-! ## The float that is read -/

/-- A fraction of doubles is read as the double nearest to it. -/
theorem scaled_eq_of_nearest {x : Float} {n D K : Nat} (hx : HasGrains x n) (hbits : D < 2 ^ 53)
    (hK : K < 23) (hn : nearest (D * grainsOfOne) (10 ^ K) = n) : scaled D (-K) = .ok x := by
  have hgrains := scaledGrains_of_small hbits (by omega : -23 < -(K : Int)) (by omega)
  have hup : (-(K : Int)).toNat = 0 := by omega
  have hdown : (-(-(K : Int))).toNat = K := by omega
  rw [hup, hdown, Nat.pow_zero, Nat.mul_one, hn] at hgrains
  rw [scaled_eq_ok_iff (by omega), hgrains]
  exact hx.isSigned

/-- A float between two decimal bounds is a number of grains between them. -/
theorem exists_hasGrains {x : Float} (hlow : 1e-5 ≤ x) (hhigh : x < 1e14) :
    ∃ n, HasGrains x n ∧ grainsOfOne ≤ 10 ^ 6 * n ∧ n < 10 ^ 14 * grainsOfOne := by
  have hnan := (isNaN_of_lt hhigh).1
  have hgreat : grains 1e14 = (10 ^ 14 * grainsOfOne : Nat) := by decide +kernel
  have hsmall : (grainsOfOne : Int) ≤ 10 ^ 6 * grains 1e-5 := by decide +kernel
  have hbelow := (lt_iff_grains hnan (by decide +kernel)).mp hhigh
  have habove := (le_iff_grains (by decide +kernel) hnan).mp hlow
  have hone := grainsOfOne_pos
  have hinf := mul_grainsOfOne_lt (n := 10 ^ 14) (by omega)
  refine ⟨(grains x).toNat, ⟨isFinite_iff_grains.mpr ⟨hnan, ?_, ?_⟩, ?_, ?_⟩, ?_, ?_⟩ <;> omega

/-- A decimal in the rounding interval of such a float is between bounds of the same kind. -/
theorem decimal_between {m d t K : Nat} {e k : Int} (hm : 0 < m) (he : -1074 ≤ e)
    (hsmall : grainsOfOne ≤ 10 ^ 6 * (m * 2 ^ (e + 1074).toNat))
    (hgreat : m * 2 ^ (e + 1074).toNat < 10 ^ 14 * grainsOfOne) (hk : k + K = t)
    (h : (Interval.ofBinary m e).Contains k d) :
    10 ^ K ≤ 2 * 10 ^ 6 * (d * 10 ^ t) ∧ d * 10 ^ t < 2 * 10 ^ 14 * 10 ^ K := by
  obtain ⟨hless, hmore⟩ := h.bounds hm he hk
  generalize m * 2 ^ (e + 1074).toNat = n at hsmall hgreat hless hmore
  have hone := grainsOfOne_pos
  have hten : 0 < 10 ^ K := Nat.pow_pos (by omega)
  constructor
  · refine Nat.le_of_mul_le_mul_right ?_ hone
    calc 10 ^ K * grainsOfOne
        ≤ 10 ^ K * (10 ^ 6 * n) := Nat.mul_le_mul_left _ hsmall
      _ = 10 ^ 6 * (n * 10 ^ K) := by ring
      _ ≤ 10 ^ 6 * (2 * (d * 10 ^ t * grainsOfOne)) := Nat.mul_le_mul_left _ hless
      _ = 2 * 10 ^ 6 * (d * 10 ^ t) * grainsOfOne := by ring
  · refine Nat.lt_of_mul_lt_mul_right (a := 2 * grainsOfOne) ?_
    calc d * 10 ^ t * (2 * grainsOfOne)
        = 2 * (d * 10 ^ t * grainsOfOne) := by ring
      _ ≤ 3 * (n * 10 ^ K) := hmore
      _ < 3 * (10 ^ 14 * grainsOfOne * 10 ^ K) := by gcongr
      _ ≤ 2 * 10 ^ 14 * 10 ^ K * (2 * grainsOfOne) := by nlinarith

/-- A float of few digits, neither small nor great, is read back as itself. -/
theorem reread_of_short {x : Float} (hlow : 1e-5 ≤ x) (hhigh : x < 1e14)
    (hshort : significantDigits x ≤ 15) : reread x = .ok x := by
  obtain ⟨n, hx, hsmall, hgreat⟩ := exists_hasGrains hlow hhigh
  obtain ⟨m, e, hm, hunpack, ⟨hbits, hlower, hupper, hfull⟩, hn⟩ := hx.exists_unpack
  have hbinary : Binary.ofFloat x = .finite false m e := by
    unfold Binary.ofFloat
    rw [hunpack]
    rfl
  obtain ⟨s, hs⟩ : ∃ s, s = shortest .toEven m e := ⟨_, rfl⟩
  have hcontains : (Interval.ofBinary m e).Contains s.exponent s.digits :=
    hs ▸ shortest_contains .toEven hm hbits hlower hupper
  have hpos : 0 < s.digits := hs ▸ (shortest_bounds .toEven hm hbits hlower hupper).1
  have hdigits : (natDigits s.digits).length ≤ 15 := by
    unfold significantDigits at hshort
    rw [hbinary] at hshort
    exact hs ▸ hshort
  -- the range of `x` is one for its shortest digits too
  obtain ⟨hbelow, habove⟩ := decimal_between hm hlower (hn ▸ hsmall) (hn ▸ hgreat)
    (by omega : s.exponent + (-s.exponent).toNat = s.exponent.toNat) hcontains
  obtain ⟨t, K, hk, hK, hfew, hspelled⟩ := exists_fraction hpos hdigits hbelow habove
  -- written as a fraction of two doubles, they round to `x` again
  have hnearest : nearest (s.digits * 10 ^ t * grainsOfOne) (10 ^ K) = n := by
    rw [nearest_eq_of_contains hm hbits hlower hfull hk hcontains, hn]
  have hscaled : scaled (s.digits * 10 ^ t) (-K) = .ok x :=
    scaled_eq_of_nearest hx hfew hK hnearest
  unfold reread spelledBinary
  rw [hbinary]
  dsimp only
  rw [if_neg hm.ne', ← hs, hspelled, hscaled]
  rfl

end TriggerLatency.Json
