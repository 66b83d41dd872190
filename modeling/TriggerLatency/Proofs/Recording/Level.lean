import TriggerLatency.Recording.Row
import Mathlib.Data.List.Induction

/-!
# How levels are written

A level field is an integer of any length, and only zero and one are levels. So zeros may stand
in front of the digit that decides, any number of them, with a plus sign or none; and minus zero
is low, however long it is written. Nothing else is a level (`level?_eq_some_iff`).
-/

namespace TriggerLatency

/-! ## Numerals of zero and one -/

namespace Decimal

variable {d : Char} {ds : List Char}

theorem ofDigits_concat (ds : List Char) (d : Char) :
    ofDigits (ds ++ [d]) = 10 * ofDigits ds + digitValue d := by
  rw [ofDigits_eq_foldl, ofDigits_eq_foldl, List.foldl_append]
  rfl

/-- A digit is told by its value. -/
theorem digitValue_eq_iff (hd : isDigit d = true) {n : Nat} :
    digitValue d = n ↔ d.toNat = '0'.toNat + n := by
  have hzero : '0'.toNat ≤ d.toNat := by
    rw [isDigit, Bool.and_eq_true, decide_eq_true_eq] at hd
    exact UInt32.le_iff_toNat_le.mp (Char.le_def.mp hd.1)
  unfold digitValue
  omega

theorem ofDigits_eq_zero_iff (hds : ∀ d ∈ ds, isDigit d = true) :
    ofDigits ds = 0 ↔ ∀ d ∈ ds, d = '0' := by
  induction ds using List.reverseRecOn with
  | nil => exact ⟨fun _ d hd => absurd hd List.not_mem_nil, fun _ => rfl⟩
  | append_singleton ds d ih =>
    obtain ⟨hds, hd⟩ := List.forall_mem_append.mp hds
    have hzero : digitValue d = 0 ↔ d = '0' := by
      rw [digitValue_eq_iff (hd d (List.mem_singleton_self d)), Nat.add_zero, Char.toNat_inj]
    rw [ofDigits_concat, List.forall_mem_append, ← ih hds, List.forall_mem_singleton, ← hzero]
    omega

theorem ofDigits_eq_one_iff (hds : ∀ d ∈ ds, isDigit d = true) :
    ofDigits ds = 1 ↔ ∃ zeros, ds = List.replicate zeros '0' ++ ['1'] := by
  induction ds using List.reverseRecOn with
  | nil => simp [ofDigits_eq_foldl]
  | append_singleton ds d _ =>
    obtain ⟨hds, hd⟩ := List.forall_mem_append.mp hds
    have hone : digitValue d = 1 ↔ d = '1' := by
      rw [digitValue_eq_iff (hd d (List.mem_singleton_self d)), ← Char.toNat_inj]
      rfl
    have hsplit : ofDigits (ds ++ [d]) = 1 ↔ ofDigits ds = 0 ∧ digitValue d = 1 := by
      rw [ofDigits_concat]
      omega
    rw [hsplit, ofDigits_eq_zero_iff hds, hone]
    constructor
    · intro h
      exact ⟨ds.length, by rw [← List.eq_replicate_of_mem h.1, h.2]⟩
    · intro h
      obtain ⟨zeros, hzeros⟩ := h
      obtain ⟨rfl, rfl⟩ := List.append_singleton_inj.mp hzeros
      exact ⟨fun d hd => List.eq_of_mem_replicate hd, rfl⟩

end Decimal

/-! ## Levels -/

open Decimal

/-- The digit that stands for a level. -/
def Level.digit : Level → Char
  | .low => '0'
  | .high => '1'

/-- A field writes a level: by its digit behind any number of zeros, with a plus sign or none; or,
if it is low, by a minus sign and zeros, one at least. -/
inductive WritesLevel : List Char → Level → Prop
  | unsigned (zeros : Nat) (level : Level) :
      WritesLevel (List.replicate zeros '0' ++ [level.digit]) level
  | plus (zeros : Nat) (level : Level) :
      WritesLevel ('+' :: (List.replicate zeros '0' ++ [level.digit])) level
  | minus (zeros : Nat) : WritesLevel ('-' :: List.replicate (zeros + 1) '0') .low

section

variable {c : Char} {ds field : List Char} {level : Level}

theorem Level.ofInt?_natCast_eq_some_iff {n : Nat} :
    Level.ofInt? n = some level ↔ n = match level with | .low => 0 | .high => 1 := by
  rcases n with _ | _ | n
  · cases level <;> simp [ofInt?]
  · cases level <;> simp [ofInt?]
  · have hnone : Level.ofInt? ((n + 2 : Nat) : Int) = none := rfl
    rw [hnone]
    cases level <;> simp

theorem Level.ofInt?_neg_natCast_eq_some_iff {n : Nat} :
    Level.ofInt? (-n) = some level ↔ n = 0 ∧ level = .low := by
  cases n with
  | zero => cases level <;> simp [ofInt?]
  | succ n =>
    have hnone : Level.ofInt? (-((n + 1 : Nat) : Int)) = none := rfl
    rw [hnone]
    simp

/-- The text of a level without a sign holds digits only. -/
theorem isDigit_of_mem_unsigned {zeros : Nat}
    (hc : c ∈ List.replicate zeros '0' ++ [level.digit]) : isDigit c = true := by
  rcases List.mem_append.mp hc with hzero | hlast
  · rw [List.eq_of_mem_replicate hzero]
    rfl
  · rw [List.mem_singleton.mp hlast]
    cases level <;> rfl

/-- The digits of a level, without a sign or behind a plus sign. -/
theorem digits_eq_iff :
    (ds ≠ [] ∧ ds.all isDigit = true) ∧ Level.ofInt? (ofDigits ds) = some level
      ↔ ∃ zeros, ds = List.replicate zeros '0' ++ [level.digit] := by
  rw [Level.ofInt?_natCast_eq_some_iff]
  constructor
  · intro h
    obtain ⟨⟨hne, hall⟩, hvalue⟩ := h
    have hds : ∀ d ∈ ds, isDigit d = true := by simpa using hall
    cases level with
    | high => exact (ofDigits_eq_one_iff hds).mp hvalue
    | low =>
      -- of nothing but zeros the last one decides
      have hzeros := List.eq_replicate_of_mem ((ofDigits_eq_zero_iff hds).mp hvalue)
      obtain ⟨n, hn⟩ := Nat.exists_eq_add_one.mpr (List.length_pos_iff.mpr hne)
      rw [hn, List.replicate_succ'] at hzeros
      exact ⟨n, hzeros⟩
  · intro h
    obtain ⟨zeros, rfl⟩ := h
    have hds : ∀ d ∈ List.replicate zeros '0' ++ [level.digit], isDigit d = true :=
      fun d hd => isDigit_of_mem_unsigned hd
    refine ⟨⟨by simp, List.all_eq_true.mpr hds⟩, ?_⟩
    cases level with
    | high => exact (ofDigits_eq_one_iff hds).mpr ⟨zeros, rfl⟩
    | low =>
      refine (ofDigits_eq_zero_iff hds).mpr ?_
      intro d hd
      rcases List.mem_append.mp hd with hzero | hlast
      · exact List.eq_of_mem_replicate hzero
      · exact List.mem_singleton.mp hlast

/-- The digits of a level behind a minus sign. -/
theorem negative_digits_eq_iff :
    (ds ≠ [] ∧ ds.all isDigit = true) ∧ Level.ofInt? (-(ofDigits ds : Int)) = some level
      ↔ level = .low ∧ ∃ zeros, ds = List.replicate (zeros + 1) '0' := by
  have hlow : (ds ≠ [] ∧ ds.all isDigit = true) ∧ Level.ofInt? (ofDigits ds) = some .low
      ↔ ∃ zeros, ds = List.replicate zeros '0' ++ [Level.low.digit] := digits_eq_iff
  rw [Level.ofInt?_natCast_eq_some_iff] at hlow
  rw [Level.ofInt?_neg_natCast_eq_some_iff, ← and_assoc, hlow, and_comm]
  refine and_congr_right fun _ => exists_congr fun zeros => ?_
  rw [List.replicate_succ']
  rfl

/-- A field is read behind its sign, if it has one. -/
theorem level?_eq_some_iff_splitSign :
    level? field = some level ↔
      ((splitSign field).2 ≠ [] ∧ (splitSign field).2.all isDigit = true)
      ∧ Level.ofInt? (if (splitSign field).1 then -(ofDigits (splitSign field).2 : Int)
          else ofDigits (splitSign field).2) = some level := by
  unfold level? readInt? readSigned?
  dsimp only
  split
  · next hdigits => exact ⟨fun h => ⟨hdigits, h⟩, And.right⟩
  · next hnone =>
    exact ⟨fun h => absurd h.symm (Option.some_ne_none level), fun h => absurd h.1 hnone⟩

theorem splitSign_cases (field : List Char) :
    (∃ ds, field = '-' :: ds ∧ splitSign field = (true, ds))
    ∨ (∃ ds, field = '+' :: ds ∧ splitSign field = (false, ds))
    ∨ splitSign field = (false, field) := by
  unfold splitSign
  split
  · exact Or.inl ⟨_, rfl, rfl⟩
  · exact Or.inr (Or.inl ⟨_, rfl, rfl⟩)
  · exact Or.inr (Or.inr rfl)

/-- Digits have no sign. -/
theorem splitSign_of_digits (hfield : ∀ c ∈ field, isDigit c = true) :
    splitSign field = (false, field) := by
  rcases splitSign_cases field with ⟨ds, rfl, -⟩ | ⟨ds, rfl, -⟩ | hnone
  · exact absurd (hfield '-' (List.mem_cons_self ..)) (by decide)
  · exact absurd (hfield '+' (List.mem_cons_self ..)) (by decide)
  · exact hnone

/-- A field is a level exactly if it is written as one. -/
theorem level?_eq_some_iff : level? field = some level ↔ WritesLevel field level := by
  rw [level?_eq_some_iff_splitSign]
  constructor
  · intro h
    rcases splitSign_cases field with ⟨ds, rfl, hsign⟩ | ⟨ds, rfl, hsign⟩ | hsign
    · rw [hsign] at h
      obtain ⟨rfl, zeros, rfl⟩ := negative_digits_eq_iff.mp h
      exact .minus zeros
    · rw [hsign] at h
      obtain ⟨zeros, rfl⟩ := digits_eq_iff.mp h
      exact .plus zeros level
    · rw [hsign] at h
      obtain ⟨zeros, rfl⟩ := digits_eq_iff.mp h
      exact .unsigned zeros level
  · intro h
    cases h with
    | unsigned zeros =>
      rw [splitSign_of_digits fun c hc => isDigit_of_mem_unsigned hc]
      exact digits_eq_iff.mpr ⟨zeros, rfl⟩
    | plus zeros => exact digits_eq_iff.mpr ⟨zeros, rfl⟩
    | minus zeros => exact negative_digits_eq_iff.mpr ⟨rfl, zeros, rfl⟩

end

end TriggerLatency
