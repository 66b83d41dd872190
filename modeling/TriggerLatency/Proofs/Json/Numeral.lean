import TriggerLatency.Proofs.Json.Digits
import TriggerLatency.Json.Value
import TriggerLatency.Json.Typed

/-!
# Reading numerals back

A numeral is a whole part, perhaps a fraction and perhaps a power of ten (`Parts`). In front
of anything that could not go on with it the reader takes each part to its end, and is left
with what follows (`numeral_text`). What it makes of the parts depends on whether there is
more than a whole part: digits alone are a count as long as they fit into 64 bits
(`ofParts_natural`), and anything else is a significand that is scaled by a power of ten
(`ofParts_real`).
-/

namespace TriggerLatency.Json

open Decimal

variable {ds rest : List Char} {n : Nat}

/-! ## The parts of a numeral -/

/-- Digits that can stand in front of a point: a zero stands alone. -/
structure IsWhole (ds : List Char) : Prop where
  digits : ∀ d ∈ ds, isDigit d = true
  ne_nil : ds ≠ []
  zero_alone : ds.head? = some '0' → ds = ['0']

theorem isDigit_of_mem_zero : ∀ d ∈ ['0'], isDigit d = true := by
  intro d hd
  rw [List.mem_singleton.mp hd]
  rfl

theorem isWhole_zero : IsWhole ['0'] :=
  ⟨isDigit_of_mem_zero, List.cons_ne_nil _ _, fun _ => rfl⟩

/-- Digits with a positive number in front are such. -/
theorem isWhole_append (hn : 0 < n) (hds : ∀ d ∈ ds, isDigit d = true) :
    IsWhole (natDigits n ++ ds) := by
  refine ⟨?_, by simp [natDigits_ne_nil], ?_⟩
  · intro d hd
    rcases List.mem_append.mp hd with h | h
    · exact isDigit_of_mem_natDigits h
    · exact hds d h
  · obtain ⟨c, cs, hcs⟩ := List.exists_cons_of_ne_nil (@natDigits_ne_nil n)
    have hhead := head?_natDigits_ne_zero hn
    rw [hcs] at hhead ⊢
    exact fun h => absurd h hhead

theorem isWhole_natDigits (n : Nat) : IsWhole (natDigits n) := by
  rcases Nat.eq_zero_or_pos n with rfl | hpos
  · exact isWhole_zero
  · have h : IsWhole (natDigits n ++ []) :=
      isWhole_append hpos fun d hd => absurd hd List.not_mem_nil
    rwa [List.append_nil] at h

theorem wholePart_append (hds : IsWhole ds) (hrest : EndsDigits rest) :
    wholePart (ds ++ rest) = .ok (ds, rest) := by
  obtain ⟨c, cs, rfl⟩ := List.exists_cons_of_ne_nil hds.ne_nil
  by_cases hzero : c = '0'
  · -- a zero stands alone, and no digit may follow it
    subst hzero
    obtain rfl : cs = [] := by simpa using hds.zero_alone rfl
    cases rest with
    | nil => rfl
    | cons d rest =>
      have hd := hrest d rfl
      simp [wholePart, hd]
  · -- any other digit takes those behind it along
    have hcs : ∀ d ∈ cs, isDigit d = true := fun d hd => hds.digits d (List.mem_cons_of_mem c hd)
    have hc := hds.digits c (List.mem_cons_self ..)
    rw [List.cons_append, wholePart.eq_def]
    simp [hc, takeWhile_digits hcs hrest, dropWhile_digits hcs hrest]

/-- A fraction, if there is one. -/
def fractionText : Option (List Char) → List Char
  | none => []
  | some ds => '.' :: ds

/-- The mark of a power of ten, if there is one. -/
def exponentText : Option Int → List Char
  | none => []
  | some e => 'e' :: (if e < 0 then '-' else '+') :: natDigits e.natAbs

/-- A sign, and whether it is that of a negative number. -/
inductive SpellsSign : List Char → Bool → Prop
  | none : SpellsSign [] false
  | plus : SpellsSign ['+'] false
  | minus : SpellsSign ['-'] true

/-- The end of a numeral, and the power of ten that it spells, if it does. -/
inductive SpellsExponent : List Char → Option Int → Prop
  | none : SpellsExponent [] none
  | some {mark : Char} {sign ds : List Char} {negative : Bool} :
      (mark = 'e' ∨ mark = 'E') → SpellsSign sign negative →
      ds ≠ [] → (∀ d ∈ ds, isDigit d = true) →
      SpellsExponent (mark :: (sign ++ ds))
        (some (if negative then -(Nat.ofDigitChars 10 ds 0 : Int) else Nat.ofDigitChars 10 ds 0))

variable {ending : List Char} {exponent : Option Int}

theorem spellsExponent_exponentText (exponent : Option Int) :
    SpellsExponent (exponentText exponent) exponent := by
  cases exponent with
  | none => exact .none
  | some e =>
    have hds : ∀ d ∈ natDigits e.natAbs, isDigit d = true := fun d hd => isDigit_of_mem_natDigits hd
    rcases Int.lt_or_le e 0 with he | he
    · have h := SpellsExponent.some (Or.inl rfl) .minus natDigits_ne_nil hds
      have hvalue : -(e.natAbs : Int) = e := by omega
      rw [ofDigitChars_natDigits, if_pos rfl, hvalue] at h
      rw [exponentText, if_pos he]
      exact h
    · have h := SpellsExponent.some (Or.inl rfl) .plus natDigits_ne_nil hds
      have hvalue : (e.natAbs : Int) = e := by omega
      rw [ofDigitChars_natDigits, if_neg Bool.false_ne_true, hvalue] at h
      rw [exponentText, if_neg (Int.not_lt.mpr he)]
      exact h

theorem SpellsExponent.endsDigits (h : SpellsExponent ending exponent) (hrest : EndsNumeral rest) :
    EndsDigits (ending ++ rest) := by
  cases h with
  | none => exact hrest.endsDigits
  | some hmark _ _ _ =>
    intro c hc
    obtain rfl := Option.some.inj hc
    rcases hmark with rfl | rfl <;> rfl

/-- A power of ten does not begin with a point. -/
theorem SpellsExponent.ne_point (h : SpellsExponent ending exponent) (text : List Char) :
    ending ≠ '.' :: text := by
  intro htext
  cases h with
  | none => exact nomatch htext
  | some hmark =>
    obtain ⟨rfl, -⟩ := List.cons.inj htext
    exact absurd hmark (by decide)

theorem endsDigits_fractionText (fraction : Option (List Char))
    (hending : SpellsExponent ending exponent) (hrest : EndsNumeral rest) :
    EndsDigits (fractionText fraction ++ (ending ++ rest)) := by
  cases fraction with
  | none => exact hending.endsDigits hrest
  | some ds =>
    intro c hc
    obtain rfl : '.' = c := Option.some.inj hc
    rfl

theorem fractionPart_append {fraction : Option (List Char)}
    (hending : SpellsExponent ending exponent)
    (hfraction : ∀ ds, fraction = some ds → ds ≠ [] ∧ ∀ d ∈ ds, isDigit d = true)
    (hrest : EndsNumeral rest) :
    fractionPart (fractionText fraction ++ (ending ++ rest)) = .ok (fraction, ending ++ rest) := by
  have hends := hending.endsDigits hrest
  cases fraction with
  | some ds =>
    obtain ⟨hne, hds⟩ := hfraction ds rfl
    rw [fractionText, List.cons_append, fractionPart, takeWhile_digits hds hends,
      dropWhile_digits hds hends, if_neg hne]
  | none =>
    rw [fractionText, List.nil_append, fractionPart.eq_def]
    split
    · -- what follows is no point
      rename_i text htext
      cases hending with
      | some hmark _ _ _ =>
        obtain ⟨rfl, -⟩ := List.cons.inj htext
        exact absurd hmark (by decide)
      | none =>
        obtain ⟨-, hpoint, -⟩ := hrest '.' (by rw [show rest = '.' :: text from htext]; rfl)
        exact absurd rfl hpoint
    · rfl

theorem splitSign_append {sign ds : List Char} {negative : Bool} (h : SpellsSign sign negative)
    (hds : ds ≠ []) (hdigits : ∀ d ∈ ds, isDigit d = true) (rest : List Char) :
    splitSign (sign ++ (ds ++ rest)) = (negative, ds ++ rest) := by
  cases h with
  | plus => rfl
  | minus => rfl
  | none =>
    obtain ⟨d, ds, rfl⟩ := List.exists_cons_of_ne_nil hds
    have hd := hdigits d (List.mem_cons_self ..)
    rw [List.nil_append, List.cons_append, splitSign.eq_def]
    split
    · rename_i heq
      obtain ⟨rfl, -⟩ := List.cons.inj heq
      exact absurd hd (by decide)
    · rename_i heq
      obtain ⟨rfl, -⟩ := List.cons.inj heq
      exact absurd hd (by decide)
    · rfl

theorem exponentPart_append (hending : SpellsExponent ending exponent)
    (hrest : EndsNumeral rest) : exponentPart (ending ++ rest) = .ok (exponent, rest) := by
  cases hending with
  | none =>
    cases rest with
    | nil => rfl
    | cons c rest =>
      -- what follows is no mark of a power
      obtain ⟨-, -, he, hE⟩ := hrest c rfl
      simp [exponentPart, he, hE]
  | some hmark hsign hne hds =>
    rw [List.cons_append, exponentPart, if_pos hmark, List.append_assoc,
      splitSign_append hsign hne hds]
    dsimp only
    rw [takeWhile_digits hds hrest.endsDigits, dropWhile_digits hds hrest.endsDigits, if_neg hne,
      ofDigits_eq_ofDigitChars]

/-! ## Whole numerals -/

/-- A numeral in its parts. -/
structure Parts where
  whole : List Char
  fraction : Option (List Char)
  exponent : Option Int

namespace Parts

/-- The numeral as it is written. -/
def text (p : Parts) : List Char :=
  p.whole ++ (fractionText p.fraction ++ exponentText p.exponent)

/-- The parts are such that the numeral can be read. -/
structure WellFormed (p : Parts) : Prop where
  whole : IsWhole p.whole
  fraction : ∀ ds, p.fraction = some ds → ds ≠ [] ∧ ∀ d ∈ ds, isDigit d = true

/-- The numeral without its point and its power of ten. -/
def significand (p : Parts) : Nat := Nat.ofDigitChars 10 (p.whole ++ p.fraction.getD []) 0

/-- The power of ten that makes up for the point. -/
def power (p : Parts) : Int := p.exponent.getD 0 - (p.fraction.getD []).length

end Parts

/-- A number with its sign, and the parts that it spells. -/
structure SpellsNumber (token : List Char) (negative : Bool) (p : Parts) : Prop where
  wellFormed : p.WellFormed
  token_eq : ∃ ending, SpellsExponent ending p.exponent
    ∧ token = (if negative then ['-'] else []) ++ (p.whole ++ (fractionText p.fraction ++ ending))

theorem spellsNumber_natDigits (n : Nat) :
    SpellsNumber (natDigits n) false ⟨natDigits n, none, none⟩ :=
  ⟨⟨isWhole_natDigits n, nofun⟩, [], .none, by simp [fractionText]⟩

/-- A numeral under its sign. -/
theorem spellsNumber_of_parts {p : Parts} (hp : p.WellFormed) (negative : Bool) :
    SpellsNumber ((if negative then ['-'] else []) ++ p.text) negative p :=
  ⟨hp, _, spellsExponent_exponentText p.exponent, rfl⟩

/-- A numeral is read to its end, however it spells its power of ten and whatever its parts are
worth. -/
theorem numeral_append {p : Parts} (hp : p.WellFormed) (hending : SpellsExponent ending p.exponent)
    (negative : Bool) (hrest : EndsNumeral rest) :
    numeral negative (p.whole ++ (fractionText p.fraction ++ (ending ++ rest)))
      = (Numeral.ofParts negative p.whole p.fraction p.exponent).map fun n => (n, rest) := by
  rw [numeral, wholePart_append hp.whole (endsDigits_fractionText p.fraction hending hrest)]
  dsimp only [bind, Except.bind]
  rw [fractionPart_append hending hp.fraction hrest]
  dsimp only [bind, Except.bind]
  rw [exponentPart_append hending hrest]
  rfl

theorem numeral_text {p : Parts} (hp : p.WellFormed) (negative : Bool) (hrest : EndsNumeral rest) :
    numeral negative (p.text ++ rest)
      = (Numeral.ofParts negative p.whole p.fraction p.exponent).map fun n => (n, rest) := by
  rw [Parts.text, List.append_assoc, List.append_assoc]
  exact numeral_append hp (spellsExponent_exponentText p.exponent) negative hrest

/-- Digits alone that fit into the significand are a count. -/
theorem ofParts_natural (hn : n < 2 ^ 64) :
    Numeral.ofParts false (natDigits n) none none = .ok (.natural n) := by
  have hgather : gather 0 (natDigits n) = (n, (natDigits n).length) := by
    rw [gather_eq (by rwa [ofDigitChars_natDigits]), ofDigitChars_natDigits]
  unfold Numeral.ofParts
  rw [hgather]
  simp

/-- What has a fraction or a power of ten is not, and its value is scaled. -/
theorem ofParts_real {p : Parts} (negative : Bool) (hreal : p.fraction ≠ none ∨ p.exponent ≠ none)
    (hfits : p.significand < 2 ^ 64) :
    Numeral.ofParts negative p.whole p.fraction p.exponent
      = (scaled p.significand p.power).map fun x => .real (if negative then -x else x) := by
  unfold Parts.significand at hfits ⊢
  rw [Nat.ofDigitChars_append] at hfits ⊢
  have hwhole := gather_eq (Nat.lt_of_le_of_lt (le_ofDigitChars _ _) hfits)
  have hnotNatural : ¬ (p.fraction = none ∧ p.exponent = none
      ∧ p.whole.length - p.whole.length = 0) :=
    fun ⟨hf, he, _⟩ => hreal.elim (fun h => h hf) (fun h => h he)
  have hpower : ((p.whole.length - p.whole.length : Nat) : Int) - (p.fraction.getD []).length
      + p.exponent.getD 0 = p.power := by
    unfold Parts.power
    omega
  unfold Numeral.ofParts
  rw [hwhole]
  dsimp only
  rw [if_neg hnotNatural, gather_eq hfits, hpower]
  generalize scaled (Nat.ofDigitChars 10 (p.fraction.getD []) (Nat.ofDigitChars 10 p.whole 0))
    p.power = x
  cases x <;> rfl

end TriggerLatency.Json
