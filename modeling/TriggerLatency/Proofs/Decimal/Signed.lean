import TriggerLatency.Proofs.Decimal.Reading
import TriggerLatency.Proofs.Double.Sum

/-!
# Floats and their signs

A float has a sign, and so has a zero. Its sign and its grains tell a finite float
(`IsSigned.unique`). Products and quotients of floats without a minus sign have none either, also
where they are too small for any bit (`isPositive_unpack_pack`), so their grains alone tell what
they are rounded to, a zero and an infinity included (`RoundsTo.mul`, `RoundsTo.div`).
-/

namespace TriggerLatency.Double

open Decimal Json
open Float.Model Float.Model.UnpackedFloat

/-! ## Values without a minus sign -/

/-- A number without a minus sign, which a zero or an infinity may have as well. -/
def IsPositive : UnpackedFloat → Prop
  | .notANumber => False
  | .infinity s => s = .positive
  | .zero s => s = .positive
  | .finite s _ _ _ => s = .positive

section

variable {u : UnpackedFloat}

theorem IsPositive.isNaN_eq (h : IsPositive u) : u.isNaN = false := by
  cases u with
  | notANumber => exact h.elim
  | _ => rfl

theorem unpackSign_pack (h : IsPositive u) :
    Sign.ofBitVec (unpackSign (UnpackedFloat.pack Format.binary64 u)) = .positive := by
  cases u with
  | notANumber => exact h.elim
  | infinity s => rw [show s = .positive from h]; rfl
  | zero s => rw [show s = .positive from h]; rfl
  | finite s m e hm =>
    rw [show s = .positive from h]
    simp only [UnpackedFloat.pack]
    split_ifs
    · rfl
    · rw [unpackSign_packComponents, Sign.ofBitVec_toBitVec]
    · rw [unpackSign_packComponents, Sign.ofBitVec_toBitVec]

/-- A value that is packed keeps its sign, also where it becomes a zero or an infinity. -/
theorem isPositive_unpack_pack (h : IsPositive u) :
    IsPositive (UnpackedFloat.unpack Format.binary64 (UnpackedFloat.pack Format.binary64 u)) := by
  have hsign := unpackSign_pack h
  have hnan := isNaN_unpack_pack h.isNaN_eq
  unfold UnpackedFloat.unpack at hnan ⊢
  dsimp only at hnan ⊢
  split_ifs at hnan ⊢
  · exact hsign
  · exact absurd hnan Bool.noConfusion
  · exact hsign
  · exact hsign
  · exact hsign

theorem isPositive_roundWithAccuracy (m : Nat) (e : Int) (acc : Accuracy) :
    IsPositive (roundWithAccuracy Format.binary64 .positive m e acc) := by
  unfold roundWithAccuracy
  dsimp only
  split_ifs <;> rfl

end

variable {x y : Float} {negative : Bool} {a b n : Nat}

/-! ## Sign and grains -/

/-- A finite float of so many grains under a sign, which a zero has as well. -/
structure IsSigned (x : Float) (negative : Bool) (n : Nat) : Prop where
  sign : ∃ mantissa exponent, Binary.ofFloat x = .finite negative mantissa exponent
  grains_eq : grains x = if negative then -(n : Int) else n

namespace IsSigned

theorem isFinite (h : IsSigned x negative n) : x.isFinite = true := by
  obtain ⟨m, e, hx⟩ := h.sign
  exact isFinite_iff_ofFloat.mpr ⟨_, _, _, hx⟩

theorem lt_infinity (h : IsSigned x negative n) : n < grainsOfInfinity := by
  obtain ⟨-, hlow, hhigh⟩ := isFinite_iff_grains.mp h.isFinite
  have hgrains := h.grains_eq
  split_ifs at hgrains <;> omega

theorem unique (hx : IsSigned x negative n) (hy : IsSigned y negative n) : x = y := by
  obtain ⟨_, _, hsx⟩ := hx.sign
  obtain ⟨_, _, hsy⟩ := hy.sign
  exact eq_of_grains_eq hsx hsy (hx.grains_eq.trans hy.grains_eq.symm)

theorem neg (h : IsSigned x negative n) : IsSigned (-x) (!negative) n := by
  obtain ⟨m, e, hx⟩ := h.sign
  have hneg := ofFloat_neg hx
  refine ⟨⟨m, e, hneg⟩, ?_⟩
  have hgrains := h.grains_eq
  rw [grains_of_ofFloat hx] at hgrains
  rw [grains_of_ofFloat hneg]
  cases negative with
  | false => exact congrArg Neg.neg hgrains
  | true => exact Int.neg_inj.mp hgrains

theorem hasGrains (h : IsSigned x false n) (hn : 0 < n) : HasGrains x n :=
  ⟨h.isFinite, h.grains_eq, hn⟩

end IsSigned

/-- A float has the sign that is put in front of it. -/
theorem isSigned_iff :
    IsSigned x negative n ↔ ∃ y, IsSigned y false n ∧ (if negative then -y else y) = x := by
  cases negative with
  | false => exact ⟨fun h => ⟨x, h, rfl⟩, fun ⟨y, hy, heq⟩ => heq ▸ hy⟩
  | true =>
    refine ⟨fun h => ⟨-x, h.neg, ?_⟩, fun ⟨y, hy, heq⟩ => heq ▸ hy.neg⟩
    obtain ⟨m, e, hx⟩ := h.sign
    exact neg_neg_of_ofFloat hx

theorem HasGrains.isSigned (h : HasGrains x n) : IsSigned x false n := by
  obtain ⟨m, e, hm, hunpack, -, -⟩ := h.exists_unpack
  refine ⟨⟨m, e, ?_⟩, h.grains_eq⟩
  rw [Binary.ofFloat, hunpack]
  rfl

theorem isSigned_zero : IsSigned 0 false 0 := ⟨⟨0, 0, rfl⟩, grains_zero⟩

theorem IsSigned.eq_zero (h : IsSigned x false 0) : x = 0 := h.unique isSigned_zero

/-! ## What is rounded -/

/-- A float without a minus sign, of so many grains or infinite if that is out of range. -/
structure RoundsTo (x : Float) (n : Nat) : Prop where
  positive : IsPositive x.toModel.unpack
  grains_eq : grains x = (min n grainsOfInfinity : Nat)

namespace RoundsTo

theorem isSigned (h : RoundsTo x n) (hn : n < grainsOfInfinity) : IsSigned x false n := by
  have hgrains := h.grains_eq
  rw [Nat.min_eq_left hn.le] at hgrains
  refine ⟨?_, hgrains⟩
  have hpositive := h.positive
  unfold Binary.ofFloat
  cases hx : x.toModel.unpack with
  | notANumber =>
    rw [hx] at hpositive
    exact hpositive.elim
  | infinity s =>
    rw [hx] at hpositive
    rw [grains, hx, show s = .positive from hpositive] at hgrains
    have hinfinite : (grainsOfInfinity : Int) = n := hgrains
    omega
  | zero s =>
    rw [hx] at hpositive
    exact ⟨0, 0, by rw [show s = .positive from hpositive]; rfl⟩
  | finite s m e hm =>
    rw [hx] at hpositive
    exact ⟨m, e, by rw [show s = .positive from hpositive]; rfl⟩

theorem isInf_iff (h : RoundsTo x n) : x.isInf = true ↔ grainsOfInfinity ≤ n := by
  constructor
  · intro hinf
    by_contra hlt
    have hfinite := (h.isSigned (Nat.not_le.mp hlt)).isFinite
    exact Bool.false_ne_true ((isNaN_and_isFinite_of_isInf hinf).2.symm.trans hfinite)
  · intro hle
    have hgrains := h.grains_eq
    rw [Nat.min_eq_right hle] at hgrains
    have hnan : x.isNaN = false := h.positive.isNaN_eq
    rw [eq_infinity hnan hgrains]
    rfl

/-- What is without a minus sign and in range rounds to its grains. -/
theorem of_isSigned (h : IsSigned x false n) : RoundsTo x n := by
  refine ⟨?_, by rw [Nat.min_eq_left h.lt_infinity.le]; exact h.grains_eq⟩
  obtain ⟨m, e, hx⟩ := h.sign
  rw [unpack_of_ofFloat hx, unpacked]
  simp only [Bool.false_eq_true, if_false]
  split_ifs <;> rfl

section

variable {u : UnpackedFloat}

/-- What packs as a value without a minus sign has none. -/
theorem of_pack (hx : x.toModel.unpack
      = UnpackedFloat.unpack Format.binary64 (UnpackedFloat.pack Format.binary64 u))
    (hu : IsPositive u) (hgrains : grains x = (min n grainsOfInfinity : Nat)) : RoundsTo x n := by
  refine ⟨?_, hgrains⟩
  rw [hx]
  exact isPositive_unpack_pack hu

theorem zero_of_pack (hx : x.toModel.unpack = UnpackedFloat.unpack Format.binary64
      (UnpackedFloat.pack Format.binary64 (.zero .positive))) : RoundsTo x 0 := by
  refine of_pack hx rfl ?_
  rw [grains, hx, unpack_pack (u := .zero .positive) trivial, Nat.zero_min]
  rfl

end

/-- A product is that of the grains, rounded. -/
theorem mul (hx : IsSigned x false a) (hy : HasGrains y b) :
    RoundsTo (x * y) (nearest (a * b) grainsOfOne) := by
  obtain ⟨m', e', hm', huy, -, -⟩ := hy.exists_unpack
  rcases Nat.eq_zero_or_pos a with rfl | ha
  · rw [hx.eq_zero, Nat.zero_mul, nearest_eq_zero grainsOfOne_pos]
    refine zero_of_pack ?_
    show UnpackedFloat.unpack _ (UnpackedFloat.pack _ (UnpackedFloat.mul _ (.zero .positive)
      y.toModel.unpack)) = _
    rw [huy]
    rfl
  · obtain ⟨m, e, hm, hux, -, -⟩ := (hx.hasGrains ha).exists_unpack
    refine of_pack ?_ (isPositive_roundWithAccuracy (m * m') (e + e') .exact)
      ((hx.hasGrains ha).grains_mul hy).2
    show UnpackedFloat.unpack _ (UnpackedFloat.pack _ (UnpackedFloat.mul _ x.toModel.unpack
      y.toModel.unpack)) = _
    rw [hux, huy]
    rfl

/-- A quotient is that of the grains, rounded. -/
theorem div (hx : IsSigned x false a) (hy : HasGrains y b) :
    RoundsTo (x / y) (nearest (a * grainsOfOne) b) := by
  obtain ⟨m', e', hm', huy, -, -⟩ := hy.exists_unpack
  rcases Nat.eq_zero_or_pos a with rfl | ha
  · rw [hx.eq_zero, Nat.zero_mul, nearest_eq_zero hy.pos]
    refine zero_of_pack ?_
    show UnpackedFloat.unpack _ (UnpackedFloat.pack _ (UnpackedFloat.div _ (.zero .positive)
      y.toModel.unpack)) = _
    rw [huy]
    rfl
  · obtain ⟨m, e, hm, hux, -, -⟩ := (hx.hasGrains ha).exists_unpack
    refine of_pack (u := UnpackedFloat.div Format.binary64 (.finite .positive m e hm)
      (.finite .positive m' e' hm')) ?_ (isPositive_roundWithAccuracy ..)
      ((hx.hasGrains ha).grains_div hy).2
    show UnpackedFloat.unpack _ (UnpackedFloat.pack _ (UnpackedFloat.div _ x.toModel.unpack
      y.toModel.unpack)) = _
    rw [hux, huy]

end RoundsTo

end TriggerLatency.Double
