import TriggerLatency.Json.Numeral
import TriggerLatency.Decimal.Layout
import Mathlib.Algebra.Group.Nat.Defs

/-!
# Digits in front of something else

Reading a run of digits stops where it ends (`takeWhile_digits`, `dropWhile_digits`), and a
significand of at most 64 bits gathers all of them (`gather_eq`).
-/

namespace TriggerLatency.Json

open Decimal

/-- Nothing that could go on with a run of digits. -/
def EndsDigits (rest : List Char) : Prop := ∀ c ∈ rest.head?, isDigit c = false

/-- Nothing that could go on with a number. -/
def EndsNumeral (rest : List Char) : Prop :=
  ∀ c ∈ rest.head?, isDigit c = false ∧ c ≠ '.' ∧ c ≠ 'e' ∧ c ≠ 'E'

variable {ds rest : List Char} {n : Nat}

theorem endsNumeral_nil : EndsNumeral [] := fun _ hc => nomatch hc

theorem EndsNumeral.endsDigits (h : EndsNumeral rest) : EndsDigits rest := fun c hc => (h c hc).1

/-- The digits are taken to their end. -/
theorem takeWhile_digits (hds : ∀ d ∈ ds, isDigit d = true) (hrest : EndsDigits rest) :
    (ds ++ rest).takeWhile isDigit = ds := by
  rw [List.takeWhile_append_of_pos hds]
  cases rest with
  | nil => simp
  | cons c rest =>
    have hc := hrest c rfl
    rw [List.takeWhile_cons_of_neg (by simp [hc]), List.append_nil]

/-- What is left begins behind them. -/
theorem dropWhile_digits (hds : ∀ d ∈ ds, isDigit d = true) (hrest : EndsDigits rest) :
    (ds ++ rest).dropWhile isDigit = rest := by
  rw [List.dropWhile_append_of_pos hds]
  cases rest with
  | nil => rfl
  | cons c rest =>
    have hc := hrest c rfl
    rw [List.dropWhile_cons_of_neg (by simp [hc])]

/-! ## Printed digits -/

theorem isDigit_of_mem_natDigits {d : Char} (h : d ∈ natDigits n) : isDigit d = true := by
  have hdigit := Nat.isDigit_of_mem_toDigits (by omega) (by omega) h
  simp only [Char.isDigit, Bool.and_eq_true, decide_eq_true_eq] at hdigit
  simp only [isDigit, Bool.and_eq_true, decide_eq_true_eq]
  exact hdigit

theorem natDigits_ne_nil : natDigits n ≠ [] := Nat.toDigits_ne_nil

/-- A positive number does not begin with a zero. -/
theorem head?_natDigits_ne_zero (hn : 0 < n) : (natDigits n).head? ≠ some '0' := by
  induction n using Nat.strongRecOn with
  | ind n ih =>
    unfold natDigits at ih ⊢
    rw [Nat.toDigits_eq_if (by omega)]
    by_cases hlt : n < 10
    · rw [if_pos hlt]
      intro h
      have hzero : n.digitChar = '0' := by simpa using h
      have hvalue := Nat.toNat_digitChar_sub_48_of_lt_ten hlt
      rw [hzero] at hvalue
      exact absurd hvalue (Nat.ne_of_lt hn)
    · -- the first digit is that of the number without its last one
      have ih := ih (n / 10) (by omega) (by omega)
      obtain ⟨d, ds, hds⟩ := List.exists_cons_of_ne_nil (@Nat.toDigits_ne_nil (n / 10) 10)
      rw [hds] at ih
      rw [if_neg hlt, hds]
      exact ih

theorem ofDigitChars_natDigits : Nat.ofDigitChars 10 (natDigits n) 0 = n :=
  Nat.ofDigitChars_ten_toDigits

theorem ofDigits_eq_ofDigitChars (ds : List Char) : ofDigits ds = Nat.ofDigitChars 10 ds 0 :=
  ofDigits_eq_foldl ds

theorem ofDigits_natDigits : ofDigits (natDigits n) = n := by
  rw [ofDigits_eq_ofDigitChars, ofDigitChars_natDigits]

/-- The first digit moves what is in front of it up by one place. -/
theorem ofDigitChars_cons (d : Char) (ds : List Char) (n : Nat) :
    Nat.ofDigitChars 10 (d :: ds) n = Nat.ofDigitChars 10 ds (n * 10 + digitValue d) := by
  rw [Nat.ofDigitChars_cons, Nat.mul_comm]
  rfl

/-- The value never shrinks while digits are read. -/
theorem le_ofDigitChars (ds : List Char) (n : Nat) : n ≤ Nat.ofDigitChars 10 ds n := by
  rw [Nat.ofDigitChars_eq_ofDigitChars_zero]
  have hpow : 1 ≤ 10 ^ ds.length := Nat.one_le_pow _ _ (by omega)
  have := Nat.le_mul_of_pos_left n hpow
  omega

/-- A significand that fits takes all digits. -/
theorem gather_eq {ds : List Char} {n : Nat} (hfits : Nat.ofDigitChars 10 ds n < 2 ^ 64) :
    gather n ds = (Nat.ofDigitChars 10 ds n, ds.length) := by
  induction ds generalizing n with
  | nil => rfl
  | cons d ds ih =>
    rw [ofDigitChars_cons] at hfits
    have hle := le_ofDigitChars ds (n * 10 + digitValue d)
    -- what has been gathered with this digit still fits, being less than the whole
    rw [gather]
    refine (if_pos (Nat.lt_of_le_of_lt hle hfits)).trans ?_
    rw [ih hfits, ofDigitChars_cons]
    rfl

end TriggerLatency.Json
