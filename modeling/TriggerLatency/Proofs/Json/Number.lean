import TriggerLatency.Proofs.Decimal.Shortest
import TriggerLatency.Proofs.Double.Grain
import TriggerLatency.Proofs.Json.Numeral

/-!
# Reading numbers back

A count reads as itself (`reads_nat`). A float need not: its text is chosen so that a
correctly rounding reader would find it again, but the reader of this library scales the
digits by a power of ten, with a rounding of its own (`reread`). `reads_float` says what
is read for every float.
-/

namespace TriggerLatency.Json

open Decimal

/-- The decimal that stands in the text of another: a whole number that is not written with a
power of ten has a zero behind its point. -/
def spelled (s : Scaled) : Scaled :=
  if 0 ≤ s.exponent ∧ s.exponent + (natDigits s.digits).length - 1 < 16 then
    ⟨s.digits * 10 ^ (s.exponent.toNat + 1), -1⟩
  else s

theorem length_natDigits_pos (n : Nat) : 0 < (natDigits n).length :=
  List.length_pos_iff.mpr natDigits_ne_nil

theorem spelled_of_whole {s : Scaled} (hwhole : 0 ≤ s.exponent)
    (hfew : s.exponent + (natDigits s.digits).length - 1 < 16) :
    spelled s = ⟨s.digits * 10 ^ (s.exponent.toNat + 1), -1⟩ :=
  if_pos ⟨hwhole, hfew⟩

theorem spelled_eq_self {s : Scaled}
    (h : s.exponent < 0 ∨ 16 ≤ s.exponent + (natDigits s.digits).length - 1) : spelled s = s :=
  if_neg (by omega)

/-- The parts that spell a decimal. -/
structure Spells (p : Parts) (s : Scaled) : Prop where
  wellFormed : p.WellFormed
  real : p.fraction ≠ none ∨ p.exponent ≠ none
  significand : p.significand = (spelled s).digits
  power : p.power = (spelled s).exponent
  exponent : ∀ e, p.exponent = some e → e = s.exponent + (natDigits s.digits).length - 1

/-- One digit in front of the point, and a power of ten. -/
theorem exists_parts_scientific {s : Scaled}
    (he : s.exponent + (natDigits s.digits).length - 1 < -5
      ∨ 16 ≤ s.exponent + (natDigits s.digits).length - 1) :
    ∃ p : Parts, Spells p s
      ∧ scientificText (natDigits s.digits) (s.exponent + (natDigits s.digits).length - 1)
        = p.text := by
  have hlen := length_natDigits_pos s.digits
  have hself : spelled s = s := spelled_eq_self (by omega)
  have hvalue := @ofDigitChars_natDigits s.digits
  have hdigits := fun d hd => @isDigit_of_mem_natDigits s.digits d hd
  obtain ⟨e, hexp⟩ : ∃ e, e = s.exponent + (natDigits s.digits).length - 1 := ⟨_, rfl⟩
  have hexponent : ∀ k, some e = some k → k = s.exponent + (natDigits s.digits).length - 1 :=
    fun _ h => Option.some.inj h ▸ hexp
  rw [← hexp]
  obtain ⟨d, ds, hds⟩ := List.exists_cons_of_ne_nil (@natDigits_ne_nil s.digits)
  rw [hds] at hvalue hdigits hexp ⊢
  rw [List.length_cons] at hexp
  have hwhole : IsWhole [d] := by
    refine ⟨?_, List.cons_ne_nil d [], ?_⟩
    · intro c hc
      obtain rfl := List.mem_singleton.mp hc
      exact hdigits c (List.mem_cons_self ..)
    · intro h
      obtain rfl := Option.some.inj h
      rfl
  cases ds with
  | nil =>
    -- a single digit has no point behind it
    refine ⟨⟨[d], none, some e⟩,
      ⟨⟨hwhole, fun _ h => absurd h (by simp)⟩, Or.inr (by simp), ?_, ?_, hexponent⟩, rfl⟩
    · rw [hself]
      exact hvalue
    · rw [hself]
      simp only [Parts.power, Option.getD_some, Option.getD_none, List.length_nil] at hexp ⊢
      omega
  | cons c cs =>
    have hfraction : ∀ x ∈ c :: cs, isDigit x = true := fun x hx =>
      hdigits x (List.mem_cons_of_mem d hx)
    refine ⟨⟨[d], some (c :: cs), some e⟩, ⟨⟨hwhole, ?_⟩, Or.inl (by simp), ?_, ?_, hexponent⟩, ?_⟩
    · intro xs hxs
      obtain rfl := Option.some.inj hxs
      exact ⟨List.cons_ne_nil c cs, hfraction⟩
    · rw [hself]
      exact hvalue
    · rw [hself]
      simp only [Parts.power, Option.getD_some, List.length_cons] at hexp ⊢
      omega
    · simp [scientificText, Parts.text, fractionText, exponentText]

/-- A point in front of all digits. -/
theorem exists_parts_below_one {s : Scaled}
    (he : s.exponent + (natDigits s.digits).length - 1 < 0) :
    ∃ p : Parts, Spells p s
      ∧ positionalText true (natDigits s.digits) (s.exponent + (natDigits s.digits).length - 1)
        = p.text := by
  have hlen := length_natDigits_pos s.digits
  have hself : spelled s = s := spelled_eq_self (by omega)
  generalize hexp : s.exponent + (natDigits s.digits).length - 1 = e at he ⊢
  refine ⟨⟨['0'], some (List.replicate (-e - 1).toNat '0' ++ natDigits s.digits), none⟩,
    ⟨⟨isWhole_zero, ?_⟩, Or.inl (by simp), ?_, ?_, nofun⟩, ?_⟩
  · intro xs hxs
    obtain rfl := Option.some.inj hxs
    refine ⟨by simp [natDigits_ne_nil], ?_⟩
    intro d hd
    rcases List.mem_append.mp hd with hzero | hdigit
    · rw [List.eq_of_mem_replicate hzero]
      rfl
    · exact isDigit_of_mem_natDigits hdigit
  · -- the zeros behind the point count for nothing
    rw [hself, Parts.significand, Option.getD_some, Nat.ofDigitChars_append,
      Nat.ofDigitChars_append, Nat.ofDigitChars_replicate_zero]
    exact ofDigitChars_natDigits
  · rw [hself]
    simp only [Parts.power, Option.getD_some, Option.getD_none, List.length_append,
      List.length_replicate]
    omega
  · rw [positionalText, if_pos he]
    simp [Parts.text, fractionText, exponentText]

/-- A whole number is filled up with zeros, one of them behind the point. -/
theorem exists_parts_whole {s : Scaled} (hpos : 0 < s.digits) (hwhole : 0 ≤ s.exponent)
    (hfew : s.exponent + (natDigits s.digits).length - 1 < 16) :
    ∃ p : Parts, Spells p s
      ∧ positionalText true (natDigits s.digits) (s.exponent + (natDigits s.digits).length - 1)
        = p.text := by
  have hlen := length_natDigits_pos s.digits
  have hspelled := spelled_of_whole hwhole hfew
  have hplaces : (natDigits s.digits).length
      ≤ (s.exponent + (natDigits s.digits).length - 1).toNat + 1 := by omega
  have hzeros : (s.exponent + (natDigits s.digits).length - 1).toNat + 1
      - (natDigits s.digits).length = s.exponent.toNat := by omega
  rw [positionalText, if_neg (by omega)]
  dsimp only
  rw [if_pos hplaces, if_pos rfl, hzeros]
  refine ⟨⟨natDigits s.digits ++ List.replicate s.exponent.toNat '0', some ['0'], none⟩,
    ⟨⟨isWhole_append hpos ?_, ?_⟩, Or.inl (by simp), ?_, ?_, nofun⟩, ?_⟩
  · intro d hd
    rw [List.eq_of_mem_replicate hd]
    rfl
  · intro xs hxs
    obtain rfl := Option.some.inj hxs
    exact ⟨List.cons_ne_nil _ _, isDigit_of_mem_zero⟩
  · -- every zero multiplies by ten
    rw [hspelled, Parts.significand, Option.getD_some, Nat.ofDigitChars_append,
      Nat.ofDigitChars_append, ofDigitChars_natDigits, Nat.ofDigitChars_replicate_zero,
      Nat.pow_succ, Nat.mul_comm s.digits]
    show 10 * (10 ^ s.exponent.toNat * s.digits) + 0 = _
    rw [Nat.add_zero, ← Nat.mul_assoc, Nat.mul_comm 10]
  · rw [hspelled]
    rfl
  · simp [Parts.text, fractionText, exponentText]

/-- A point among the digits. -/
theorem exists_parts_among {s : Scaled} (hpos : 0 < s.digits) (hfraction : s.exponent < 0)
    (he : 0 ≤ s.exponent + (natDigits s.digits).length - 1) :
    ∃ p : Parts, Spells p s
      ∧ positionalText true (natDigits s.digits) (s.exponent + (natDigits s.digits).length - 1)
        = p.text := by
  have hself : spelled s = s := spelled_eq_self (Or.inl hfraction)
  rw [positionalText, if_neg (by omega)]
  generalize hplaces : (s.exponent + (natDigits s.digits).length - 1).toNat + 1 = places
  have hsome : places ≠ 0 := by omega
  have hleft : ¬ (natDigits s.digits).length ≤ places := by omega
  dsimp only
  rw [if_neg hleft]
  -- the point stands among the digits
  refine ⟨⟨(natDigits s.digits).take places, some ((natDigits s.digits).drop places), none⟩,
    ⟨⟨⟨?_, ?_, ?_⟩, ?_⟩, Or.inl (by simp), ?_, ?_, nofun⟩, ?_⟩
  · intro d hd
    exact isDigit_of_mem_natDigits (List.mem_of_mem_take hd)
  · simp [natDigits_ne_nil, hsome]
  · intro hhead
    rw [List.head?_take, if_neg hsome] at hhead
    exact absurd hhead (head?_natDigits_ne_zero hpos)
  · intro xs hxs
    obtain rfl := Option.some.inj hxs
    refine ⟨?_, fun d hd => isDigit_of_mem_natDigits (List.mem_of_mem_drop hd)⟩
    rw [Ne, List.drop_eq_nil_iff]
    exact hleft
  · rw [hself, Parts.significand, Option.getD_some, List.take_append_drop]
    exact ofDigitChars_natDigits
  · rw [hself]
    simp only [Parts.power, Option.getD_some, Option.getD_none, List.length_drop]
    omega
  · simp [Parts.text, fractionText, exponentText]

/-- Every text of a decimal spells it. -/
theorem exists_parts {s : Scaled} (hpos : 0 < s.digits) :
    ∃ p : Parts, Spells p s ∧ Layout.data.scaledText s = p.text := by
  unfold Layout.scaledText Layout.data
  dsimp only
  by_cases hscientific : s.exponent + (natDigits s.digits).length - 1 < -5
      ∨ 16 ≤ s.exponent + (natDigits s.digits).length - 1
  · rw [if_pos (by simpa using hscientific)]
    exact exists_parts_scientific hscientific
  · rw [if_neg (by simpa using hscientific)]
    by_cases hlow : s.exponent + (natDigits s.digits).length - 1 < 0
    · exact exists_parts_below_one hlow
    · by_cases hfraction : s.exponent < 0
      · exact exists_parts_among hpos hfraction (by omega)
      · exact exists_parts_whole hpos (by omega) (by omega)

/-- The digits that are spelled fit into 64 bits. -/
theorem spelled_digits_lt {s : Scaled} (h : s.digits < 2 ^ 64) : (spelled s).digits < 2 ^ 64 := by
  by_cases hwhole : 0 ≤ s.exponent ∧ s.exponent + (natDigits s.digits).length - 1 < 16
  · rw [spelled_of_whole hwhole.1 hwhole.2]
    have hlen := length_natDigits_pos s.digits
    have hfew : s.digits < 10 ^ (natDigits s.digits).length :=
      (Nat.length_toDigits_le_iff (by omega) hlen).mp (Nat.le_refl _)
    calc s.digits * 10 ^ (s.exponent.toNat + 1)
        < 10 ^ (natDigits s.digits).length * 10 ^ (s.exponent.toNat + 1) :=
          Nat.mul_lt_mul_of_pos_right hfew (Nat.pow_pos (by omega))
      _ = 10 ^ ((natDigits s.digits).length + (s.exponent.toNat + 1)) := (Nat.pow_add ..).symm
      _ ≤ 10 ^ 17 := Nat.pow_le_pow_right (by omega) (by omega)
      _ < 2 ^ 64 := by omega
  · rw [spelled_eq_self (by omega)]
    exact h

/-- The decimal in the text of a positive float, or of zero. -/
def spelledBinary (mantissa : Nat) (exponent : Int) : Scaled :=
  if mantissa = 0 then ⟨0, -1⟩ else spelled (shortest .toEven mantissa exponent)

/-- What is read back for a float: the decimal in its text, scaled, under its sign; or the fault of
`null`, if it has no numeral. -/
def reread (x : Float) : Except Fault Float :=
  match Binary.ofFloat x with
  | .finite negative mantissa exponent =>
    (scaled (spelledBinary mantissa exponent).digits (spelledBinary mantissa exponent).exponent).map
      fun y => if negative then -y else y
  | _ => .error .mismatch

/-- The text of a float, up to its sign. -/
def magnitudeText (mantissa : Nat) (exponent : Int) : List Char :=
  if mantissa = 0 then positionalText true ['0'] 0
  else Layout.data.scaledText (shortest .toEven mantissa exponent)

/-- The parts of the text of a positive float, or of zero. -/
structure SpellsMagnitude (p : Parts) (mantissa : Nat) (exponent : Int) : Prop where
  wellFormed : p.WellFormed
  real : p.fraction ≠ none ∨ p.exponent ≠ none
  significand : p.significand = (spelledBinary mantissa exponent).digits
  power : p.power = (spelledBinary mantissa exponent).exponent
  fits : p.significand < 2 ^ 64
  exponent_small : ∀ k, p.exponent = some k → k.natAbs < 400
  text_eq : magnitudeText mantissa exponent = p.text

theorem exists_parts_magnitude {m : Nat} {e : Int} (hbits : m < 2 ^ 53) (hlow : -1074 ≤ e)
    (hhigh : e ≤ 971) : ∃ p : Parts, SpellsMagnitude p m e := by
  -- zero has no shortest digits, and is written by itself
  by_cases hzero : m = 0
  · have hspelled : spelledBinary m e = ⟨0, -1⟩ := if_pos hzero
    refine ⟨⟨['0'], some ['0'], none⟩, ⟨isWhole_zero, ?_⟩, Or.inl (by simp), ?_, ?_,
      Nat.two_pow_pos 64, nofun, if_pos hzero⟩
    · intro ds hds
      obtain rfl := Option.some.inj hds
      exact ⟨List.cons_ne_nil _ _, isDigit_of_mem_zero⟩
    · rw [hspelled]
      rfl
    · rw [hspelled]
      rfl
  · have hspelled : spelledBinary m e = spelled (shortest .toEven m e) := if_neg hzero
    obtain ⟨hpos, hlt⟩ := shortest_bounds .toEven (Nat.pos_of_ne_zero hzero) hbits hlow hhigh
    obtain ⟨hleast, hgreatest⟩ := shortest_exponent_bounds .toEven hbits hlow hhigh
    obtain ⟨p, hp, htext⟩ := exists_parts hpos
    have hfits := spelled_digits_lt (s := shortest .toEven m e) (by omega)
    have hlen : (natDigits (shortest .toEven m e).digits).length ≤ 20 :=
      (Nat.length_toDigits_le_iff (by omega) (by omega)).mpr (by omega)
    refine ⟨p, hp.wellFormed, hp.real, hspelled ▸ hp.significand, hspelled ▸ hp.power,
      hp.significand ▸ hfits, fun k hk => ?_, (if_neg hzero).trans htext⟩
    have hexponent := hp.exponent k hk
    omega

/-- The numeral of a finite float is read as the decimal in its text. -/
theorem numeral_magnitudeText {m : Nat} {e : Int} (hbits : m < 2 ^ 53) (hlow : -1074 ≤ e)
    (hhigh : e ≤ 971) (negative : Bool) {rest : List Char} (hrest : EndsNumeral rest) :
    numeral negative (magnitudeText m e ++ rest)
      = (scaled (spelledBinary m e).digits (spelledBinary m e).exponent).map
          fun y => (.real (if negative then -y else y), rest) := by
  obtain ⟨p, hp⟩ := exists_parts_magnitude hbits hlow hhigh
  rw [hp.text_eq, numeral_text hp.wellFormed negative hrest, ofParts_real negative hp.real hp.fits,
    hp.significand, hp.power]
  cases scaled (spelledBinary m e).digits (spelledBinary m e).exponent <;> rfl

/-- The numeral of a finite float begins with a digit. -/
theorem exists_digit_magnitudeText {m : Nat} {e : Int} (hbits : m < 2 ^ 53) (hlow : -1074 ≤ e)
    (hhigh : e ≤ 971) : ∃ d ds, magnitudeText m e = d :: ds ∧ isDigit d = true := by
  obtain ⟨p, hp⟩ := exists_parts_magnitude hbits hlow hhigh
  obtain ⟨d, ds, hds⟩ := List.exists_cons_of_ne_nil hp.wellFormed.whole.ne_nil
  refine ⟨d, ds ++ (fractionText p.fraction ++ exponentText p.exponent), ?_, ?_⟩
  · rw [hp.text_eq, Parts.text, hds, List.cons_append]
  · exact hp.wellFormed.whole.digits d (hds ▸ List.mem_cons_self ..)

/-! ## What is read -/

/-- The parts of a float are within the bounds of a double. -/
theorem bounds_of_ofFloat {x : Float} {negative : Bool} {m : Nat} {e : Int}
    (h : Binary.ofFloat x = .finite negative m e) : m < 2 ^ 53 ∧ -1074 ≤ e ∧ e ≤ 971 := by
  have hcanonical := Double.canonical_toModel x
  unfold Binary.ofFloat at h
  cases hx : x.toModel.unpack with
  | notANumber => simp [hx] at h
  | infinity s => simp [hx] at h
  | zero s =>
    rw [hx] at h
    obtain ⟨-, rfl, rfl⟩ := Binary.finite.inj h
    omega
  | finite s m' e' hm =>
    rw [hx] at h hcanonical
    obtain ⟨-, rfl, rfl⟩ := Binary.finite.inj h
    exact ⟨hcanonical.1, hcanonical.2.1, hcanonical.2.2.1⟩

/-- A float has a numeral exactly if it is finite. -/
theorem isFinite_iff_ofFloat {x : Float} :
    x.isFinite = true ↔ ∃ negative m e, Binary.ofFloat x = .finite negative m e := by
  have hfin : x.isFinite = x.toModel.unpack.isFinite := rfl
  rw [hfin]
  unfold Binary.ofFloat
  cases x.toModel.unpack <;> simp [Float.Model.UnpackedFloat.isFinite]

theorem ne_of_isDigit {c d : Char} (hc : isDigit c = true) (hd : isDigit d = false) : c ≠ d :=
  fun heq => Bool.false_ne_true (hd.symm.trans (heq ▸ hc))

/-- A digit is no white space. -/
theorem isBlank_of_isDigit {c : Char} (h : isDigit c = true) : isBlank c = false := by
  simp [isBlank, ne_of_isDigit h (d := ' ') rfl, ne_of_isDigit h (d := '\n') rfl,
    ne_of_isDigit h (d := '\t') rfl, ne_of_isDigit h (d := '\r') rfl]

theorem skipBlank_append {blanks : List Char} (hblanks : ∀ c ∈ blanks, isBlank c = true)
    (text : List Char) : skipBlank (blanks ++ text) = skipBlank text :=
  List.dropWhile_append_of_pos hblanks

theorem skipBlank_cons {c : Char} (hc : isBlank c = false) (text : List Char) :
    skipBlank (c :: text) = c :: text :=
  List.dropWhile_cons_of_neg (by simp [hc])

/-- A reader that is given a text, with white space in front and the end of a number behind it,
reads the text and stops. -/
def Reads {α : Type} (read : Reader α) (text : List Char) (x : Except Fault α) : Prop :=
  ∀ blanks rest, (∀ c ∈ blanks, isBlank c = true) → EndsNumeral rest →
    read (blanks ++ (text ++ rest)) = x.map fun a => (a, rest)

/-- Without white space in front. -/
theorem Reads.append {α : Type} {read : Reader α} {text rest : List Char} {x : Except Fault α}
    (h : Reads read text x) (hrest : EndsNumeral rest) :
    read (text ++ rest) = x.map fun a => (a, rest) :=
  h [] rest (fun _ hc => nomatch hc) hrest

/-- A text that is read to its end is read as a whole. -/
theorem Reads.readAll_eq {α : Type} {read : Reader α} {text : List Char} {x : Except Fault α}
    (h : Reads read text x) : readAll read text = x := by
  have hread := h.append endsNumeral_nil
  rw [List.append_nil] at hread
  rw [readAll, hread]
  cases x <;> rfl

theorem readNumeral_append {blanks : List Char} (hblanks : ∀ c ∈ blanks, isBlank c = true)
    (text : List Char) : readNumeral (blanks ++ text) = readNumeral text := by
  unfold readNumeral
  rw [skipBlank_append hblanks]

theorem readNumeral_of_isDigit {d : Char} (hd : isDigit d = true) (text : List Char) :
    readNumeral (d :: text) = numeral false (d :: text) := by
  unfold readNumeral
  rw [skipBlank_cons (isBlank_of_isDigit hd)]
  split
  · rename_i heq
    exact absurd heq (by simp)
  · rename_i heq
    exact absurd (List.cons.inj heq).1 (ne_of_isDigit hd rfl)
  · rename_i heq
    obtain ⟨rfl, rfl⟩ := List.cons.inj heq
    rw [if_pos hd]

/-- The text of a finite float: its magnitude under its sign. -/
theorem floatText_of_finite {x : Float} {negative : Bool} {m : Nat} {e : Int}
    (hx : Binary.ofFloat x = .finite negative m e) :
    floatText x = (if negative then ['-'] else []) ++ magnitudeText m e := by
  rw [floatText, if_pos (isFinite_iff_ofFloat.mpr ⟨negative, m, e, hx⟩), Layout.chars, hx]
  rfl

/-- The text of a finite float is a number. -/
theorem exists_spellsNumber {x : Float} (hx : x.isFinite = true) : ∃ negative m e p,
    Binary.ofFloat x = .finite negative m e ∧ SpellsMagnitude p m e
      ∧ SpellsNumber (Layout.data.chars x) negative p := by
  obtain ⟨negative, m, e, hparts⟩ := isFinite_iff_ofFloat.mp hx
  obtain ⟨hbits, hlow, hhigh⟩ := bounds_of_ofFloat hparts
  obtain ⟨p, hp⟩ := exists_parts_magnitude hbits hlow hhigh
  have hchars := floatText_of_finite hparts
  rw [floatText, if_pos hx, hp.text_eq] at hchars
  exact ⟨negative, m, e, p, hparts, hp, hchars ▸ spellsNumber_of_parts hp.wellFormed negative⟩

/-- The text of any other float. -/
theorem floatText_of_not_finite {x : Float} (hx : ¬ x.isFinite = true) :
    floatText x = ['n', 'u', 'l', 'l'] :=
  if_neg hx

/-- A float without a numeral is refused. -/
theorem reread_of_not_finite {x : Float} (hx : ¬ x.isFinite = true) :
    reread x = .error .mismatch := by
  unfold reread
  cases h : Binary.ofFloat x with
  | nan => rfl
  | infinite negative => rfl
  | finite negative m e => exact absurd (isFinite_iff_ofFloat.mpr ⟨negative, m, e, h⟩) hx

/-- What is read for a float. -/
theorem reads_float (x : Float) : Reads readFloat (floatText x) (reread x) := by
  intro blanks rest hblanks hrest
  rw [readFloat, readNumeral_append hblanks]
  by_cases hfin : x.isFinite = true
  · unfold reread
    obtain ⟨negative, m, e, hx⟩ := isFinite_iff_ofFloat.mp hfin
    obtain ⟨hbits, hlow, hhigh⟩ := bounds_of_ofFloat hx
    have hnumeral : readNumeral ((if negative then ['-'] else []) ++ (magnitudeText m e ++ rest))
        = numeral negative (magnitudeText m e ++ rest) := by
      cases negative with
      | true => rfl
      | false =>
        -- no white space and no sign in front of the digits
        obtain ⟨d, ds, hds, hd⟩ := exists_digit_magnitudeText hbits hlow hhigh
        rw [hds]
        exact readNumeral_of_isDigit hd (ds ++ rest)
    rw [floatText_of_finite hx, List.append_assoc, hx, hnumeral,
      numeral_magnitudeText hbits hlow hhigh negative hrest]
    dsimp only
    cases scaled (spelledBinary m e).digits (spelledBinary m e).exponent <;> rfl
  · rw [floatText_of_not_finite hfin, reread_of_not_finite hfin]
    rfl

/-- A count of 64 bits reads as itself. -/
theorem reads_nat {n : Nat} (hn : n < 2 ^ 64) : Reads readNat (natDigits n) (.ok n) := by
  intro blanks rest hblanks hrest
  have hnumeral : numeral false (natDigits n ++ rest) = .ok (.natural n, rest) := by
    have h := numeral_text (p := ⟨natDigits n, none, none⟩)
      ⟨isWhole_natDigits n, fun _ h => absurd h (by simp)⟩ false hrest
    rw [ofParts_natural hn, Parts.text] at h
    simpa [fractionText, exponentText, Except.map] using h
  obtain ⟨d, ds, hds⟩ := List.exists_cons_of_ne_nil (@natDigits_ne_nil n)
  have hd := @isDigit_of_mem_natDigits n d (hds ▸ List.mem_cons_self ..)
  have hread : readNumeral (natDigits n ++ rest) = .ok (.natural n, rest) := by
    rw [← hnumeral, hds]
    exact readNumeral_of_isDigit hd (ds ++ rest)
  rw [readNat, readNumeral_append hblanks, hread]
  rfl

end TriggerLatency.Json
