import TriggerLatency.Json.Value
import TriggerLatency.Json.Reader

/-!
# Reading strings

The inside of a string is read as the characters that it stands for (`quoted_append`). Whatever is
escaped when a string is written stands for itself (`denotes_escaped`), so every string that is
written reads as itself.

Not everything that has the form of a string (`IsBody`) stands for characters: the numeric escapes
of surrogates do in pairs only (`Denotes`).
-/

namespace TriggerLatency.Json

/-- The number that four hexadecimal digits write. -/
def hexUnit? (a b c d : Char) : Option Nat := do
  return 16 * (16 * (16 * (← hexValue? a) + (← hexValue? b)) + (← hexValue? c)) + (← hexValue? d)

/-- The inside of a string: characters that stand for themselves, and escapes. -/
inductive IsBody : List Char → Prop
  | nil : IsBody []
  | plain {c : Char} {body : List Char} :
      c ≠ '"' → c ≠ '\\' → ¬ c.toNat < 0x20 → IsBody body → IsBody (c :: body)
  | letter {c : Char} {body : List Char} :
      (letterEscape? c).isSome = true → IsBody body → IsBody ('\\' :: c :: body)
  | unit {a b c d : Char} {body : List Char} :
      (hexUnit? a b c d).isSome = true → IsBody body →
      IsBody ('\\' :: 'u' :: a :: b :: c :: d :: body)

/-- The first half of a surrogate pair. -/
def IsHigh (n : Nat) : Prop := 0xD800 ≤ n ∧ n < 0xDC00

/-- The second half of a surrogate pair. -/
def IsLow (n : Nat) : Prop := 0xDC00 ≤ n ∧ n < 0xE000

/-- The inside of a string, and the characters that it stands for. -/
inductive Denotes : List Char → List Char → Prop
  | nil : Denotes [] []
  | plain {c : Char} {body chars : List Char} :
      c ≠ '"' → c ≠ '\\' → ¬ c.toNat < 0x20 → Denotes body chars → Denotes (c :: body) (c :: chars)
  | letter {c x : Char} {body chars : List Char} :
      letterEscape? c = some x → Denotes body chars → Denotes ('\\' :: c :: body) (x :: chars)
  | unit {a b c d : Char} {n : Nat} {body chars : List Char} :
      hexUnit? a b c d = some n → ¬ IsHigh n → ¬ IsLow n → Denotes body chars →
      Denotes ('\\' :: 'u' :: a :: b :: c :: d :: body) (Char.ofNat n :: chars)
  | pair {a b c d a' b' c' d' : Char} {high low : Nat} {body chars : List Char} :
      hexUnit? a b c d = some high → hexUnit? a' b' c' d' = some low → IsHigh high → IsLow low →
      Denotes body chars →
      Denotes ('\\' :: 'u' :: a :: b :: c :: d :: '\\' :: 'u' :: a' :: b' :: c' :: d' :: body)
        (Char.ofNat (0x10000 + (high - 0xD800) * 0x400 + (low - 0xDC00)) :: chars)

variable {body chars : List Char} {a b c d : Char} {n : Nat}

/-- What stands for characters has the form of a string. -/
theorem Denotes.isBody (h : Denotes body chars) : IsBody body := by
  induction h with
  | nil => exact .nil
  | plain hquote hbackslash hcontrol _ ih => exact .plain hquote hbackslash hcontrol ih
  | letter hescape _ ih => exact .letter (by rw [hescape]; rfl) ih
  | unit hunit _ _ _ ih => exact .unit (by rw [hunit]; rfl) ih
  | pair hhigh hlow _ _ _ ih => exact .unit (by rw [hhigh]; rfl) (.unit (by rw [hlow]; rfl) ih)

/-! ## Numeric escapes -/

theorem hexUnit?_eq_some_iff : hexUnit? a b c d = some n ↔ ∃ i j k l, hexValue? a = some i
    ∧ hexValue? b = some j ∧ hexValue? c = some k ∧ hexValue? d = some l
    ∧ n = 16 * (16 * (16 * i + j) + k) + l := by
  unfold hexUnit?
  cases hexValue? a <;> cases hexValue? b <;> cases hexValue? c <;> cases hexValue? d <;>
    simp [eq_comm]

theorem quotedFrom_unit (acc text : List Char) :
    quotedFrom .plain acc ('\\' :: 'u' :: text) = quotedFrom (.hex 4 0 none) acc text := rfl

theorem quotedFrom_second_unit (high : Nat) (acc text : List Char) :
    quotedFrom (.paired high) acc ('\\' :: 'u' :: text)
      = quotedFrom (.hex 4 0 (some high)) acc text := rfl

/-- The four digits of a numeric escape that gives a character. -/
theorem quotedFrom_hex_some {high : Option Nat} {x : Char} {state : QuotedState}
    (h : hexUnit? a b c d = some n) (hstate : unitState n high = some (some x, state))
    (acc text : List Char) :
    quotedFrom (.hex 4 0 high) acc (a :: b :: c :: d :: text)
      = quotedFrom state (x :: acc) text := by
  obtain ⟨i, j, k, l, ha, hb, hc, hd, rfl⟩ := hexUnit?_eq_some_iff.mp h
  simp [quotedFrom, ha, hb, hc, hd, hstate]

/-- The four digits of a numeric escape that gives none yet. -/
theorem quotedFrom_hex_none {high : Option Nat} {state : QuotedState}
    (h : hexUnit? a b c d = some n) (hstate : unitState n high = some (none, state))
    (acc text : List Char) :
    quotedFrom (.hex 4 0 high) acc (a :: b :: c :: d :: text) = quotedFrom state acc text := by
  obtain ⟨i, j, k, l, ha, hb, hc, hd, rfl⟩ := hexUnit?_eq_some_iff.mp h
  simp [quotedFrom, ha, hb, hc, hd, hstate]

theorem unitState_of_single (hhigh : ¬ IsHigh n) (hlow : ¬ IsLow n) :
    unitState n none = some (some (Char.ofNat n), .plain) :=
  (if_neg hhigh).trans (if_neg hlow)

theorem unitState_of_high (h : IsHigh n) : unitState n none = some (none, .paired n) := if_pos h

theorem unitState_of_low (high : Nat) (h : IsLow n) : unitState n (some high)
    = some (some (Char.ofNat (0x10000 + (high - 0xD800) * 0x400 + (n - 0xDC00))), .plain) :=
  if_pos h

/-! ## Reading -/

/-- The inside of a string is read as the characters that it stands for. -/
theorem quoted_append (h : Denotes body chars) (rest : List Char) :
    quoted (body ++ '"' :: rest) = .ok (String.ofList chars, rest) := by
  have hread : ∀ acc, quotedFrom .plain acc (body ++ '"' :: rest)
      = .ok (String.ofList (acc.reverse ++ chars), rest) := by
    induction h with
    | nil => intro acc; simp [quotedFrom]
    | plain hquote hbackslash hcontrol _ ih =>
      intro acc
      rw [List.cons_append, quotedFrom, if_neg hquote, if_neg hbackslash, if_neg hcontrol, ih]
      simp
    | @letter c x _ _ hescape _ ih =>
      intro acc
      have hu : c ≠ 'u' := by
        rintro rfl
        exact nomatch hescape
      simp [quotedFrom, hu, hescape, ih]
    | unit hunit hhigh hlow _ ih =>
      intro acc
      simp only [List.cons_append, quotedFrom_unit,
        quotedFrom_hex_some hunit (unitState_of_single hhigh hlow), ih]
      simp
    | pair hhigh hlow hishigh hislow _ ih =>
      intro acc
      -- the first half waits for the second
      simp only [List.cons_append, quotedFrom_unit, quotedFrom_second_unit,
        quotedFrom_hex_none hhigh (unitState_of_high hishigh),
        quotedFrom_hex_some hlow (unitState_of_low _ hislow), ih]
      simp
  exact hread []

/-! ## Written strings -/

theorem hexValue?_hexDigit : ∀ d < 16, hexValue? (hexDigit d) = some d := by decide

/-- A character that was escaped, if it had to be, stands for itself. -/
theorem Denotes.escapeChar (c : Char) (h : Denotes body chars) :
    Denotes (escapeChar c ++ body) (c :: chars) := by
  unfold Json.escapeChar
  -- seven characters have an escape of their own
  split
  · subst c
    exact .letter rfl h
  split
  · subst c
    exact .letter rfl h
  split
  · subst c
    exact .letter rfl h
  split
  · subst c
    exact .letter rfl h
  split
  · subst c
    exact .letter rfl h
  split
  · subst c
    exact .letter rfl h
  split
  · subst c
    exact .letter rfl h
  split
  · rename_i hcontrol
    have hhigh := hexValue?_hexDigit (c.toNat / 16) (by omega)
    have hlow := hexValue?_hexDigit (c.toNat % 16) (by omega)
    have hunit : hexUnit? '0' '0' (hexDigit (c.toNat / 16)) (hexDigit (c.toNat % 16))
        = some c.toNat :=
      hexUnit?_eq_some_iff.mpr ⟨0, 0, _, _, rfl, rfl, hhigh, hlow, by omega⟩
    have hdenotes := Denotes.unit hunit (fun h => absurd h.1 (by omega))
      (fun h => absurd h.1 (by omega)) h
    rwa [Char.ofNat_toNat] at hdenotes
  · -- all else stands for itself
    rename_i hquote hbackslash _ _ _ _ _ hcontrol
    exact .plain hquote hbackslash hcontrol h

theorem denotes_escaped (chars : List Char) : Denotes (chars.flatMap escapeChar) chars := by
  induction chars with
  | nil => exact .nil
  | cons c chars ih =>
    rw [List.flatMap_cons]
    exact ih.escapeChar c

end TriggerLatency.Json
