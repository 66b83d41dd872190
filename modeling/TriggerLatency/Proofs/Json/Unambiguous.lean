import TriggerLatency.Proofs.Json.Skip

/-!
# One document for each text

A text is that of one document at most (`Document.IsText.unique`). The first character of a value
tells of which kind it is (`kind_eq_of_head`). Where it ends is told by what passes over it, since
that stops behind the value whichever document it is taken for (`value_append_inj`).
-/

namespace TriggerLatency.Json

open Decimal

variable {d d' : Document} {text text' rest rest' : List Char}

/-! ## Where phrases end -/

/-- Nothing, or what may stand behind a value. -/
def Closes (rest : List Char) : Prop := ∀ c ∈ rest.head?, IsDelimiter c

theorem Closes.cons {c : Char} (hc : IsDelimiter c) (rest : List Char) : Closes (c :: rest) := by
  intro d hd
  obtain rfl := Option.some.inj hd
  exact hc

theorem closes_nil : Closes [] := fun _ hc => nomatch hc

theorem Closes.endsNumeral (h : Closes rest) : EndsNumeral rest := by
  cases rest with
  | nil => exact endsNumeral_nil
  | cons c rest => exact endsNumeral_delimiter (h c rfl)

theorem Closes.skipBlank_eq (h : Closes rest) : skipBlank rest = rest := by
  cases rest with
  | nil => rfl
  | cons c rest =>
    have hblank : isBlank c = false := by
      rcases h c rfl with rfl | rfl | rfl <;> rfl
    exact skipBlank_cons hblank rest

/-- White space ends in front of what it would not pass over. -/
theorem blanks_append_inj {blanks blanks' : List Char} (hblanks : AreBlank blanks)
    (hblanks' : AreBlank blanks') (hrest : skipBlank rest = rest)
    (hrest' : skipBlank rest' = rest') (h : blanks ++ rest = blanks' ++ rest') :
    blanks = blanks' ∧ rest = rest' := by
  have hskip := congrArg skipBlank h
  rw [skipBlank_append hblanks, skipBlank_append hblanks', hrest, hrest'] at hskip
  subst hskip
  exact ⟨List.append_cancel_right h, rfl⟩

theorem value_append_inj (hvalue : d.IsValueText text) (hvalue' : d'.IsValueText text')
    (hrest : EndsNumeral rest) (hrest' : EndsNumeral rest') (h : text ++ rest = text' ++ rest') :
    text = text' ∧ rest = rest' := by
  have hskip := hvalue.isSkipped [] rest hrest
  rw [h, hvalue'.isSkipped [] rest' hrest'] at hskip
  obtain rfl := Except.ok.inj hskip
  exact ⟨List.append_cancel_right h, rfl⟩

theorem body_append_inj {body body' : List Char} (hbody : IsBody body) (hbody' : IsBody body')
    (h : body ++ '"' :: rest = body' ++ '"' :: rest') : body = body' ∧ rest = rest' := by
  have hquote : ∀ text, skipFrom (.string false) [] ('"' :: text) = .ok text := fun _ => rfl
  have hskip : skipFrom (.string false) [] _ = _ := skipFrom_body hbody false rest
  rw [h, skipFrom_body hbody' false rest', hquote, hquote] at hskip
  obtain rfl := Except.ok.inj hskip
  exact ⟨List.append_cancel_right h, rfl⟩

theorem skipBlank_value (h : d.IsValueText text) (rest : List Char) :
    skipBlank (text ++ rest) = text ++ rest := by
  obtain ⟨c, cs, rfl, hblank, -⟩ := exists_head_of_value h
  exact skipBlank_cons hblank (cs ++ rest)

/-- A value is told from the white space around it. -/
theorem padded_append_inj {before before' after after' : List Char} (hbefore : AreBlank before)
    (hbefore' : AreBlank before') (hvalue : d.IsValueText text) (hvalue' : d'.IsValueText text')
    (hafter : AreBlank after) (hafter' : AreBlank after') (hrest : Closes rest)
    (hrest' : Closes rest')
    (h : before ++ (text ++ (after ++ rest)) = before' ++ (text' ++ (after' ++ rest'))) :
    before = before' ∧ text = text' ∧ after = after' ∧ rest = rest' := by
  obtain ⟨hbefore, htail⟩ := blanks_append_inj hbefore hbefore' (skipBlank_value hvalue _)
    (skipBlank_value hvalue' _) h
  obtain ⟨htext, hend⟩ := value_append_inj hvalue hvalue'
    (hrest.endsNumeral.blanks_append hafter) (hrest'.endsNumeral.blanks_append hafter') htail
  exact ⟨hbefore, htext, blanks_append_inj hafter hafter' hrest.skipBlank_eq
    hrest'.skipBlank_eq hend⟩

theorem element_append_inj (helement : d.IsText text) (helement' : d'.IsText text')
    (hrest : Closes rest) (hrest' : Closes rest') (h : text ++ rest = text' ++ rest') :
    text = text' ∧ rest = rest' := by
  cases helement with
  | element hbefore hvalue hafter =>
    cases helement' with
    | element hbefore' hvalue' hafter' =>
      simp only [List.append_assoc] at h
      obtain ⟨rfl, rfl, rfl, rfl⟩ := padded_append_inj hbefore hbefore' hvalue hvalue' hafter
        hafter' hrest hrest' h
      exact ⟨rfl, rfl⟩

/-- A member taken apart: its key and the text of its value. -/
structure IsMember (key : List Char) (d : Document) (value text : List Char) : Prop where
  isBody : IsBody key
  isText : d.IsText value
  text_eq : ∃ before between, AreBlank before ∧ AreBlank between
    ∧ text = before ++ '"' :: (key ++ '"' :: (between ++ ':' :: value))

theorem exists_isMember {key : List Char} (h : (Phrase.member key d).IsText text) :
    ∃ value, IsMember key d value text := by
  cases h with
  | member hbefore hkey hbetween hvalue =>
    exact ⟨_, hkey, hvalue, _, _, hbefore, hbetween, rfl⟩

theorem member_append_inj {key key' value value' : List Char} (hmember : IsMember key d value text)
    (hmember' : IsMember key' d' value' text') (hrest : Closes rest) (hrest' : Closes rest')
    (h : text ++ rest = text' ++ rest') :
    key = key' ∧ value = value' ∧ text = text' ∧ rest = rest' := by
  obtain ⟨before, between, hbefore, hbetween, rfl⟩ := hmember.text_eq
  obtain ⟨before', between', hbefore', hbetween', rfl⟩ := hmember'.text_eq
  simp only [List.append_assoc, List.cons_append] at h
  have hquote : ∀ text, skipBlank ('"' :: text) = '"' :: text := fun _ => rfl
  have hcolon : ∀ text, skipBlank (':' :: text) = ':' :: text := fun _ => rfl
  obtain ⟨rfl, hkeys⟩ := blanks_append_inj hbefore hbefore' (hquote _) (hquote _) h
  obtain ⟨rfl, hcolons⟩ := body_append_inj hmember.isBody hmember'.isBody (List.cons.inj hkeys).2
  obtain ⟨rfl, hvalues⟩ := blanks_append_inj hbetween hbetween' (hcolon _) (hcolon _) hcolons
  obtain ⟨rfl, rfl⟩ := element_append_inj hmember.isText hmember'.isText hrest hrest'
    (List.cons.inj hvalues).2
  exact ⟨rfl, rfl, rfl, rfl⟩

/-! ## What kind a value is of -/

/-- The kinds of values. -/
inductive Kind
  | null
  | bool (b : Bool)
  | number
  | string
  | array
  | object

def Document.kind : Document → Kind
  | .null => .null
  | .bool b => .bool b
  | .number _ => .number
  | .string _ => .string
  | .array _ => .array
  | .object _ => .object

/-- The kind of the value that begins with a character. -/
def Kind.ofHead (c : Char) : Kind :=
  if c = 'n' then .null
  else if c = 't' then .bool true
  else if c = 'f' then .bool false
  else if c = '"' then .string
  else if c = '[' then .array
  else if c = '\x7b' then .object
  else .number

theorem ofHead_of_isDigit {c : Char} (h : isDigit c = true) : Kind.ofHead c = .number := by
  have hne : ∀ {d}, isDigit d = false → c ≠ d := ne_of_isDigit h
  simp [Kind.ofHead, hne (d := 'n') rfl, hne (d := 't') rfl, hne (d := 'f') rfl,
    hne (d := '"') rfl, hne (d := '[') rfl, hne (d := '\x7b') rfl]

theorem exists_head_of_kind (h : d.IsValueText text) :
    ∃ c cs, text = c :: cs ∧ d.kind = Kind.ofHead c := by
  cases h with
  | number hnumber =>
    obtain ⟨c, cs, hcs, rfl | hc⟩ := hnumber.exists_head
    · exact ⟨'-', cs, hcs, rfl⟩
    · exact ⟨c, cs, hcs, (ofHead_of_isDigit hc).symm⟩
  | _ => exact ⟨_, _, rfl, rfl⟩

/-- The first character tells the kind. -/
theorem kind_eq_of_head {c : Char} {cs : List Char} (h : d.IsValueText (c :: cs)) :
    d.kind = Kind.ofHead c := by
  obtain ⟨c', cs', hcs, hkind⟩ := exists_head_of_kind h
  rw [hkind, (List.cons.inj hcs).1]

/-- A text is that of values of one kind only. -/
theorem kind_eq_of_value (h : d.IsValueText text) (h' : d'.IsValueText text) :
    d'.kind = d.kind := by
  obtain ⟨c, cs, rfl, hkind⟩ := exists_head_of_kind h
  rw [hkind, kind_eq_of_head h']

/-! ## What a phrase says -/

/-- Whether a phrase is the only one of its sort with a text. -/
def Phrase.IsOnly : Phrase → List Char → Prop
  | .value d, text => ∀ d' : Document, d'.IsValueText text → d' = d
  | .element d, text => ∀ d' : Document, d'.IsText text → d' = d
  | .elements ds, text => ∀ ds', (Phrase.elements ds').IsText text → ds' = ds
  | .member key d, text => ∀ key' d', (Phrase.member key' d').IsText text → key' = key ∧ d' = d
  | .members ms, text => ∀ ms', (Phrase.members ms').IsText text → ms' = ms

/-- White space alone has no elements. -/
theorem not_isText_elements {ds : List Document} (h : AreBlank text) :
    ¬ (Phrase.elements ds).IsText text := by
  intro htext
  obtain ⟨blanks, c, cs, rfl, -, hblank, -⟩ := exists_head_of_elements htext
  exact Bool.false_ne_true (hblank.symm.trans (h c (by simp)))

/-- White space alone has no members. -/
theorem not_isText_members {ms : List (List Char × Document)} (h : AreBlank text) :
    ¬ (Phrase.members ms).IsText text := by
  intro htext
  obtain ⟨blanks, cs, rfl, -⟩ := exists_head_of_members htext
  exact absurd (h '"' (by simp)) (by decide)

/-- An element is not followed by another where it is the last one. -/
theorem ne_append_comma (h : d.IsText text) (h' : d'.IsText text') (texts : List Char) :
    text ≠ text' ++ ',' :: texts := by
  intro heq
  rw [← List.append_nil text] at heq
  exact nomatch (element_append_inj h h' closes_nil (.cons (Or.inl rfl) texts) heq).2

theorem ne_member_append_comma {key key' value value' : List Char} (h : IsMember key d value text)
    (h' : IsMember key' d' value' text') (texts : List Char) : text ≠ text' ++ ',' :: texts := by
  intro heq
  rw [← List.append_nil text] at heq
  exact nomatch (member_append_inj h h' closes_nil (.cons (Or.inl rfl) texts) heq).2.2.2

/-- A text between quotes is that of a string only. -/
theorem eq_string_of_value {body : List Char} (h : d.IsValueText ('"' :: (body ++ ['"']))) :
    d = .string body := by
  have hkind := kind_eq_of_head h
  generalize htext : '"' :: (body ++ ['"']) = text at h
  cases h with
  | string _ => rw [List.append_cancel_right (List.cons.inj htext).2]
  | _ => exact nomatch hkind

/-- A text between brackets is that of an array only. -/
theorem array_of_value {inner : List Char} (h : d.IsValueText ('[' :: (inner ++ [']']))) :
    (d = .array [] ∧ AreBlank inner)
      ∨ ∃ ds, d = .array ds ∧ (Phrase.elements ds).IsText inner := by
  have hkind := kind_eq_of_head h
  generalize htext : '[' :: (inner ++ [']']) = text at h
  cases h with
  | emptyArray hblanks =>
    rw [List.append_cancel_right (List.cons.inj htext).2]
    exact Or.inl ⟨rfl, hblanks⟩
  | array helements =>
    rw [List.append_cancel_right (List.cons.inj htext).2]
    exact Or.inr ⟨_, rfl, helements⟩
  | _ => exact nomatch hkind

/-- A text between braces is that of an object only. -/
theorem object_of_value {inner : List Char}
    (h : d.IsValueText ('\x7b' :: (inner ++ ['\x7d']))) :
    (d = .object [] ∧ AreBlank inner)
      ∨ ∃ ms, d = .object ms ∧ (Phrase.members ms).IsText inner := by
  have hkind := kind_eq_of_head h
  generalize htext : '\x7b' :: (inner ++ ['\x7d']) = text at h
  cases h with
  | emptyObject hblanks =>
    rw [List.append_cancel_right (List.cons.inj htext).2]
    exact Or.inl ⟨rfl, hblanks⟩
  | object hmembers =>
    rw [List.append_cancel_right (List.cons.inj htext).2]
    exact Or.inr ⟨_, rfl, hmembers⟩
  | _ => exact nomatch hkind

/-- No phrase has a text of another one of its sort. -/
theorem Phrase.IsText.isOnly {p : Phrase} (h : p.IsText text) : p.IsOnly text := by
  induction h with
  | null | true | false =>
    intro d' h'
    have hkind := kind_eq_of_head h'
    cases h' <;> first | rfl | exact nomatch hkind
  | number hnumber =>
    intro d' h'
    have hkind := kind_eq_of_value (.number hnumber) h'
    cases h' <;> first | rfl | exact nomatch hkind
  | string _ => exact fun d' h' => eq_string_of_value h'
  | emptyArray hblanks =>
    intro d' h'
    rcases array_of_value h' with ⟨heq, -⟩ | ⟨ds, -, helements⟩
    · exact heq
    · exact absurd helements (not_isText_elements hblanks)
  | array helements ih =>
    intro d' h'
    rcases array_of_value h' with ⟨-, hblanks⟩ | ⟨ds, heq, helements'⟩
    · exact absurd helements (not_isText_elements hblanks)
    · rw [heq, ih ds helements']
  | emptyObject hblanks =>
    intro d' h'
    rcases object_of_value h' with ⟨heq, -⟩ | ⟨ms, -, hmembers⟩
    · exact heq
    · exact absurd hmembers (not_isText_members hblanks)
  | object hmembers ih =>
    intro d' h'
    rcases object_of_value h' with ⟨-, hblanks⟩ | ⟨ms, heq, hmembers'⟩
    · exact absurd hmembers (not_isText_members hblanks)
    · rw [heq, ih ms hmembers']
  | @element d before value after hbefore hvalue hafter ih =>
    intro d' h'
    generalize htext : before ++ (value ++ after) = text at h'
    cases h' with
    | @element _ before' value' after' hbefore' hvalue' hafter' =>
      rw [← List.append_nil after, ← List.append_nil after'] at htext
      obtain ⟨-, rfl, -, -⟩ := padded_append_inj hbefore hbefore' hvalue hvalue' hafter hafter'
        closes_nil closes_nil htext
      exact ih _ hvalue'
  | lastElement h ih =>
    intro ds' h'
    cases h' with
    | lastElement h' => rw [ih _ h']
    | elements h' _ => exact absurd rfl (ne_append_comma h h' _)
  | @elements d ds text texts h hs ih ihs =>
    intro ds' h'
    generalize htext : text ++ ',' :: texts = whole at h'
    cases h' with
    | lastElement h' => exact absurd htext.symm (ne_append_comma h' h _)
    | elements h' hs' =>
      -- the first elements end at the same comma
      obtain ⟨rfl, hrest⟩ := element_append_inj h h' (.cons (Or.inl rfl) _) (.cons (Or.inl rfl) _)
        htext
      obtain ⟨-, rfl⟩ := List.cons.inj hrest
      rw [ih _ h', ihs _ hs']
  | member hbefore hkey hbetween helement ih =>
    intro key' d' h'
    obtain ⟨value', hmember'⟩ := exists_isMember h'
    have hmember : IsMember _ _ _ _ := ⟨hkey, helement, _, _, hbefore, hbetween, rfl⟩
    obtain ⟨hkeys, hvalues, -, -⟩ := member_append_inj hmember hmember' closes_nil closes_nil rfl
    rw [hvalues] at ih
    exact ⟨hkeys.symm, ih _ hmember'.isText⟩
  | lastMember h ih =>
    intro ms' h'
    obtain ⟨value, hmember⟩ := exists_isMember h
    cases h' with
    | lastMember h' =>
      obtain ⟨rfl, rfl⟩ := ih _ _ h'
      rfl
    | members h' _ =>
      obtain ⟨value', hmember'⟩ := exists_isMember h'
      exact absurd rfl (ne_member_append_comma hmember hmember' _)
  | @members key d ms text texts h hs ih ihs =>
    intro ms' h'
    obtain ⟨value, hmember⟩ := exists_isMember h
    generalize htext : text ++ ',' :: texts = whole at h'
    cases h' with
    | lastMember h' =>
      obtain ⟨value', hmember'⟩ := exists_isMember h'
      exact absurd htext.symm (ne_member_append_comma hmember' hmember _)
    | members h' hs' =>
      obtain ⟨value', hmember'⟩ := exists_isMember h'
      -- the first members end at the same comma
      obtain ⟨-, -, rfl, hrest⟩ := member_append_inj hmember hmember' (.cons (Or.inl rfl) _)
        (.cons (Or.inl rfl) _) htext
      obtain ⟨-, rfl⟩ := List.cons.inj hrest
      obtain ⟨rfl, rfl⟩ := ih _ _ h'
      rw [ihs _ hs']

/-- A text says one thing only. -/
theorem Document.IsText.unique (h : d.IsText text) (h' : d'.IsText text) : d' = d := h.isOnly d' h'

end TriggerLatency.Json
