import TriggerLatency.Proofs.Json.Grammar

/-!
# Skipping a value

The automaton that passes over a value stops exactly behind it (`skipValue_append`), however deeply
the value is nested. This is shown for all phrases of the grammar at once (`Phrase.IsSkipped`): a
value leads to where the automaton stands behind a value (`resume`), inside the brackets that were
open before, and so do the elements of an array or the members of an object with the bracket behind
them.
-/

namespace TriggerLatency.Json

open Decimal

variable {state state' : SkipState} {bs bs' : List Bracket} {c : Char} {text rest ds : List Char}

/-- Where the automaton goes on behind a value: the end, or inside a bracket. -/
def resume : List Bracket → List Char → Except Fault (List Char)
  | [], rest => .ok rest
  | b :: bs, rest => skipFrom .after (b :: bs) rest

theorem skipFrom_more (h : skipStep bs c text state = .more state' bs') :
    skipFrom state bs (c :: text) = skipFrom state' bs' text := by
  rw [skipFrom, h]

theorem skipFrom_completed (h : skipStep bs c text state = completed bs') :
    skipFrom state bs (c :: text) = resume bs' text := by
  rw [skipFrom, h]
  cases bs' <;> rfl

/-- Characters that leave the automaton where it stands. -/
theorem skipFrom_append {cs : List Char}
    (hstay : ∀ c ∈ cs, ∀ text, skipStep bs c text state = .more state bs) (text : List Char) :
    skipFrom state bs (cs ++ text) = skipFrom state bs text := by
  induction cs with
  | nil => rfl
  | cons c cs ih =>
    obtain ⟨hc, hcs⟩ := List.forall_mem_cons.mp hstay
    rw [List.cons_append, skipFrom_more (hc _), ih hcs]

/-! ## White space -/

theorem ne_of_isBlank {d : Char} (hc : isBlank c = true) (hd : isBlank d = false) : c ≠ d :=
  fun heq => Bool.false_ne_true (hd.symm.trans (heq ▸ hc))

/-- Where white space may stand. -/
inductive Waits : SkipState → List Bracket → Prop
  | value {brackets : List Bracket} : Waits .value brackets
  | firstItem {brackets : List Bracket} : Waits .firstItem brackets
  | firstKey {brackets : List Bracket} : Waits .firstKey brackets
  | key {brackets : List Bracket} : Waits .key brackets
  | colon {brackets : List Bracket} : Waits .colon brackets
  | after {b : Bracket} {brackets : List Bracket} : Waits .after (b :: brackets)

theorem skipFrom_blanks {blanks : List Char} (h : Waits state bs) (hblanks : AreBlank blanks)
    (text : List Char) : skipFrom state bs (blanks ++ text) = skipFrom state bs text := by
  refine skipFrom_append (fun c hc text => ?_) text
  have hblank := hblanks c hc
  cases h with
  | value => exact if_pos hblank
  | firstItem => exact (if_neg (ne_of_isBlank hblank rfl)).trans (if_pos hblank)
  | firstKey => exact (if_neg (ne_of_isBlank hblank rfl)).trans (if_pos hblank)
  | key => exact if_pos hblank
  | colon => exact if_pos hblank
  | after => exact if_pos hblank

/-! ## Numbers -/

/-- Where a number may end. -/
inductive MayEnd : SkipState → Prop
  | zero : MayEnd .zero
  | whole : MayEnd .whole
  | fraction : MayEnd .fraction
  | exponent : MayEnd .exponent

/-- A number ends in front of what cannot go on with it. -/
theorem MayEnd.skipFrom_eq (h : MayEnd state) (hrest : EndsNumeral rest) :
    skipFrom state bs rest = resume bs rest := by
  cases rest with
  | nil => cases h <;> cases bs <;> rfl
  | cons c text =>
    obtain ⟨hdigit, hpoint, he, hE⟩ := hrest c rfl
    have hstep : skipStep bs c text state = afterValue c bs := by
      cases h <;> simp [skipStep, isMark, hdigit, hpoint, he, hE]
    rw [skipFrom, hstep]
    cases bs <;> rfl

/-- Where a digit goes on. -/
theorem skipFrom_digits (hstate : state = .whole ∨ state = .fraction ∨ state = .exponent)
    (hds : ∀ d ∈ ds, isDigit d = true) (text : List Char) :
    skipFrom state bs (ds ++ text) = skipFrom state bs text := by
  refine skipFrom_append (fun d hd text => ?_) text
  rcases hstate with rfl | rfl | rfl <;> exact if_pos (hds d hd)

/-- The digits of a power of ten, behind its mark and sign. -/
theorem skipFrom_exponent (hstate : state = .mark ∨ state = .markSign) (hne : ds ≠ [])
    (hds : ∀ d ∈ ds, isDigit d = true) (hrest : EndsNumeral rest) :
    skipFrom state bs (ds ++ rest) = resume bs rest := by
  obtain ⟨d, ds, rfl⟩ := List.exists_cons_of_ne_nil hne
  obtain ⟨hd, hds⟩ := List.forall_mem_cons.mp hds
  have hstep : skipStep bs d (ds ++ rest) state = .more .exponent bs := by
    rcases hstate with rfl | rfl
    · have hsign : ¬ (d = '+' ∨ d = '-') := by
        rintro (rfl | rfl) <;> exact absurd hd (by decide)
      exact (if_neg hsign).trans (if_pos hd)
    · exact if_pos hd
  rw [List.cons_append, skipFrom_more hstep, skipFrom_digits (Or.inr (Or.inr rfl)) hds,
    MayEnd.exponent.skipFrom_eq hrest]

/-- The end of a number, with a power of ten or without. -/
theorem skipFrom_ending {ending : List Char} {exponent : Option Int}
    (hstate : state = .zero ∨ state = .whole ∨ state = .fraction)
    (h : SpellsExponent ending exponent) (hrest : EndsNumeral rest) :
    skipFrom state bs (ending ++ rest) = resume bs rest := by
  cases h with
  | none => rcases hstate with rfl | rfl | rfl <;> exact MayEnd.skipFrom_eq (by constructor) hrest
  | @some mark sign ds negative hmark hsign hne hds =>
    have hstep : ∀ text, skipStep bs mark text state = .more .mark bs := by
      rcases hmark with rfl | rfl <;> rcases hstate with rfl | rfl | rfl <;> exact fun text => rfl
    rw [List.cons_append, skipFrom_more (hstep _), List.append_assoc]
    cases hsign with
    | none => exact skipFrom_exponent (Or.inl rfl) hne hds hrest
    | plus =>
      rw [List.singleton_append, skipFrom_more rfl]
      exact skipFrom_exponent (Or.inr rfl) hne hds hrest
    | minus =>
      rw [List.singleton_append, skipFrom_more rfl]
      exact skipFrom_exponent (Or.inr rfl) hne hds hrest

/-- What stands behind the digits in front of a point. -/
theorem skipFrom_fraction {p : Parts} {ending : List Char} (hp : p.WellFormed)
    (hstate : state = .zero ∨ state = .whole) (hending : SpellsExponent ending p.exponent)
    (hrest : EndsNumeral rest) :
    skipFrom state bs (fractionText p.fraction ++ (ending ++ rest)) = resume bs rest := by
  cases hfraction : p.fraction with
  | none => exact skipFrom_ending (hstate.imp_right Or.inl) hending hrest
  | some ds =>
    obtain ⟨hne, hds⟩ := hp.fraction ds hfraction
    obtain ⟨d, ds, rfl⟩ := List.exists_cons_of_ne_nil hne
    obtain ⟨hd, hds⟩ := List.forall_mem_cons.mp hds
    have hpoint : ∀ text, skipStep bs '.' text state = .more .point bs := by
      rcases hstate with rfl | rfl <;> exact fun text => rfl
    have hdigit : ∀ text, skipStep bs d text .point = .more .fraction bs := fun text => if_pos hd
    rw [fractionText, List.cons_append, skipFrom_more (hpoint _), List.cons_append,
      skipFrom_more (hdigit _), skipFrom_digits (Or.inr (Or.inl rfl)) hds]
    exact skipFrom_ending (Or.inr (Or.inr rfl)) hending hrest

/-- The digits in front of the point, with a sign or without, and what follows them. -/
theorem skipFrom_whole {p : Parts} {ending : List Char} (hp : p.WellFormed)
    (hstate : state = .value ∨ state = .minus) (hending : SpellsExponent ending p.exponent)
    (hrest : EndsNumeral rest) :
    skipFrom state bs (p.whole ++ (fractionText p.fraction ++ (ending ++ rest)))
      = resume bs rest := by
  obtain ⟨c, cs, hcs⟩ := List.exists_cons_of_ne_nil hp.whole.ne_nil
  have hdigits := hp.whole.digits
  have hzero := hp.whole.zero_alone
  rw [hcs] at hdigits hzero ⊢
  obtain ⟨hc, hdigits⟩ := List.forall_mem_cons.mp hdigits
  -- a zero in front is the only digit there
  by_cases hc0 : c = '0'
  · subst hc0
    obtain rfl : cs = [] := by simpa using hzero rfl
    have hstep : ∀ text, skipStep bs '0' text state = .more .zero bs := by
      rcases hstate with rfl | rfl <;> exact fun text => rfl
    rw [List.singleton_append, skipFrom_more (hstep _)]
    exact skipFrom_fraction hp (Or.inl rfl) hending hrest
  · have hstep : ∀ text, skipStep bs c text state = .more .whole bs := by
      intro text
      rcases hstate with rfl | rfl
      · simp [skipStep, beginValue, isBlank_of_isDigit hc, ne_of_isDigit hc (d := '"') rfl,
          ne_of_isDigit hc (d := '[') rfl, ne_of_isDigit hc (d := '\x7b') rfl,
          ne_of_isDigit hc (d := '-') rfl, hc0, hc]
      · exact (if_neg hc0).trans (if_pos hc)
    rw [List.cons_append, skipFrom_more (hstep _), skipFrom_digits (Or.inl rfl) hdigits]
    exact skipFrom_fraction hp (Or.inr rfl) hending hrest

theorem skipFrom_number {token : List Char} {negative : Bool} {p : Parts}
    (h : SpellsNumber token negative p) (hrest : EndsNumeral rest) :
    skipFrom .value bs (token ++ rest) = resume bs rest := by
  obtain ⟨ending, hending, rfl⟩ := h.token_eq
  simp only [List.append_assoc]
  cases negative with
  | false => exact skipFrom_whole h.wellFormed (Or.inl rfl) hending hrest
  | true =>
    rw [if_pos rfl, List.singleton_append, skipFrom_more rfl]
    exact skipFrom_whole h.wellFormed (Or.inr rfl) hending hrest

/-! ## Strings -/

theorem skipFrom_hex {a b c d : Char} (h : (hexUnit? a b c d).isSome = true) (isKey : Bool)
    (text : List Char) :
    skipFrom (.hex isKey 4) bs (a :: b :: c :: d :: text) = skipFrom (.string isKey) bs text := by
  obtain ⟨n, hn⟩ := Option.isSome_iff_exists.mp h
  obtain ⟨i, j, k, l, ha, hb, hc, hd, -⟩ := hexUnit?_eq_some_iff.mp hn
  have hfirst : ∀ text, skipStep bs a text (.hex isKey 4) = .more (.hex isKey 3) bs := by
    simp [skipStep, ha]
  have hsecond : ∀ text, skipStep bs b text (.hex isKey 3) = .more (.hex isKey 2) bs := by
    simp [skipStep, hb]
  have hthird : ∀ text, skipStep bs c text (.hex isKey 2) = .more (.hex isKey 1) bs := by
    simp [skipStep, hc]
  have hfourth : ∀ text, skipStep bs d text (.hex isKey 1) = .more (.string isKey) bs := by
    simp [skipStep, hd]
  rw [skipFrom_more (hfirst _), skipFrom_more (hsecond _), skipFrom_more (hthird _),
    skipFrom_more (hfourth _)]

/-- A string is passed over up to its closing quote. -/
theorem skipFrom_body {body : List Char} (h : IsBody body) (isKey : Bool) (text : List Char) :
    skipFrom (.string isKey) bs (body ++ '"' :: text)
      = skipFrom (.string isKey) bs ('"' :: text) := by
  induction h with
  | nil => rfl
  | plain hquote hbackslash hcontrol _ ih =>
    rw [List.cons_append, skipFrom_more, ih]
    exact (if_neg hquote).trans ((if_neg hbackslash).trans (if_neg hcontrol))
  | @letter c body hescape _ ih =>
    have hu : c ≠ 'u' := by
      rintro rfl
      exact absurd hescape (by decide)
    rw [List.cons_append, skipFrom_more rfl, List.cons_append, skipFrom_more, ih]
    exact (if_neg hu).trans (if_pos hescape)
  | unit hunit _ ih =>
    rw [List.cons_append, skipFrom_more rfl, List.cons_append, skipFrom_more rfl]
    exact (skipFrom_hex hunit isKey _).trans ih

/-! ## Phrases -/

/-- What the automaton makes of a phrase. -/
def Phrase.IsSkipped : Phrase → List Char → Prop
  | .value _, text => ∀ bs rest, EndsNumeral rest →
    skipFrom .value bs (text ++ rest) = resume bs rest
  | .element _, text => ∀ b bs rest, EndsNumeral rest →
    skipFrom .value (b :: bs) (text ++ rest) = skipFrom .after (b :: bs) rest
  | .elements _, text => ∀ bs rest,
    skipFrom .value (.square :: bs) (text ++ ']' :: rest) = resume bs rest
  | .member _ _, text => ∀ b bs rest, EndsNumeral rest →
    skipFrom .key (b :: bs) (text ++ rest) = skipFrom .after (b :: bs) rest
  | .members _, text => ∀ bs rest,
    skipFrom .key (.brace :: bs) (text ++ '\x7d' :: rest) = resume bs rest

/-- Behind an opening square bracket, a value begins as it does elsewhere. -/
theorem skipFrom_firstItem {ds : List Document} (h : (Phrase.elements ds).IsText text)
    (rest : List Char) :
    skipFrom .firstItem bs (text ++ rest) = skipFrom .value bs (text ++ rest) := by
  obtain ⟨blanks, c, cs, rfl, hblanks, hblank, hbracket⟩ := exists_head_of_elements h
  have hstep : ∀ text, skipStep bs c text .firstItem = skipStep bs c text .value := fun text =>
    (if_neg hbracket).trans (if_neg (by simp [hblank]))
  rw [List.append_assoc, skipFrom_blanks .firstItem hblanks, skipFrom_blanks .value hblanks,
    List.cons_append, skipFrom, hstep, ← skipFrom]

/-- Behind an opening brace, a key begins as it does elsewhere. -/
theorem skipFrom_firstKey {ms : List (List Char × Document)} (h : (Phrase.members ms).IsText text)
    (rest : List Char) :
    skipFrom .firstKey bs (text ++ rest) = skipFrom .key bs (text ++ rest) := by
  obtain ⟨blanks, cs, rfl, hblanks⟩ := exists_head_of_members h
  rw [List.append_assoc, skipFrom_blanks .firstKey hblanks, skipFrom_blanks .key hblanks]
  rfl

/-- Every phrase is passed over to its end. -/
theorem Phrase.IsText.isSkipped {p : Phrase} (h : p.IsText text) : p.IsSkipped text := by
  -- the brackets open around a phrase are arbitrary, so the parts of it can be passed over in turn
  induction h with
  | null => intro bs rest _; cases bs <;> rfl
  | true => intro bs rest _; cases bs <;> rfl
  | false => intro bs rest _; cases bs <;> rfl
  | number hnumber => exact fun bs rest hrest => skipFrom_number hnumber hrest
  | string hbody =>
    intro bs rest _
    rw [List.cons_append, skipFrom_more rfl, List.append_assoc, List.singleton_append,
      skipFrom_body hbody, skipFrom_completed rfl]
  | emptyArray hblanks =>
    intro bs rest _
    rw [List.cons_append, skipFrom_more rfl, List.append_assoc, skipFrom_blanks .firstItem hblanks,
      List.singleton_append, skipFrom_completed rfl]
    rfl
  | array htext ih =>
    intro bs rest _
    rw [List.cons_append, skipFrom_more rfl, List.append_assoc, List.singleton_append,
      skipFrom_firstItem htext]
    exact ih bs rest
  | emptyObject hblanks =>
    intro bs rest _
    rw [List.cons_append, skipFrom_more rfl, List.append_assoc, skipFrom_blanks .firstKey hblanks,
      List.singleton_append, skipFrom_completed rfl]
    rfl
  | object htext ih =>
    intro bs rest _
    rw [List.cons_append, skipFrom_more rfl, List.append_assoc, List.singleton_append,
      skipFrom_firstKey htext]
    exact ih bs rest
  | element hbefore _ hafter ih =>
    intro b bs rest hrest
    rw [List.append_assoc, skipFrom_blanks .value hbefore, List.append_assoc,
      ih _ _ (hrest.blanks_append hafter)]
    exact skipFrom_blanks .after hafter rest
  | lastElement _ ih =>
    intro bs rest
    rw [ih _ _ _ (endsNumeral_delimiter (Or.inr (Or.inl rfl)))]
    exact skipFrom_completed rfl
  | elements _ _ ih ihs =>
    intro bs rest
    rw [List.append_assoc, List.cons_append, ih _ _ _ (endsNumeral_delimiter (Or.inl rfl)),
      skipFrom_more rfl]
    exact ihs bs rest
  | member hbefore hkey hbetween _ ih =>
    intro b bs rest hrest
    rw [List.append_assoc, skipFrom_blanks .key hbefore, List.cons_append, skipFrom_more rfl,
      List.append_assoc, List.cons_append, skipFrom_body hkey, skipFrom_more rfl, List.append_assoc,
      skipFrom_blanks .colon hbetween, List.cons_append, skipFrom_more rfl]
    exact ih b bs rest hrest
  | lastMember _ ih =>
    intro bs rest
    rw [ih _ _ _ (endsNumeral_delimiter (Or.inr (Or.inr rfl)))]
    exact skipFrom_completed rfl
  | members _ _ ih ihs =>
    intro bs rest
    rw [List.append_assoc, List.cons_append, ih _ _ _ (endsNumeral_delimiter (Or.inl rfl)),
      skipFrom_more rfl]
    exact ihs bs rest

/-- A value is passed over to its end, with the white space in front of it. -/
theorem skipValue_append {d : Document} {blanks : List Char} (hblanks : AreBlank blanks)
    (h : d.IsValueText text) (hrest : EndsNumeral rest) :
    skipValue (blanks ++ (text ++ rest)) = .ok ((), rest) := by
  have hskip := h.isSkipped [] rest hrest
  rw [skipValue, skipFrom_blanks .value hblanks, hskip]
  rfl

end TriggerLatency.Json
