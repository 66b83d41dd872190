import TriggerLatency.Proofs.Json.Grammar

/-!
# Written values are JSON

The text of a value is one of the grammar, in any layout that sets the parts apart with white space
(`Value.isText_chars`). What it says is the value, part by part (`Value.document`).
-/

namespace TriggerLatency.Json

open Decimal

/-- A layout that sets the parts apart with nothing but white space. -/
structure Spacing.IsBlank (sp : Spacing) : Prop where
  newline : ∀ depth, ∀ c ∈ sp.newline depth, isBlank c = true
  colon : ∃ blanks, sp.colon = ':' :: blanks ∧ ∀ c ∈ blanks, isBlank c = true

theorem Spacing.isBlank_pretty : Spacing.pretty.IsBlank where
  newline depth c hc := by
    rcases List.mem_cons.mp hc with rfl | hspace
    · rfl
    · rw [List.eq_of_mem_replicate hspace]
      rfl
  colon := ⟨[' '], rfl, areBlank_singleton rfl⟩

mutual

/-- What the text of a value says. -/
def Value.document : Value → Document
  | .null => .null
  | .nat n => .number (natDigits n)
  | .float x => if x.isFinite then .number (Layout.data.chars x) else .null
  | .string s => .string (s.toList.flatMap escapeChar)
  | .array vs => .array (itemDocuments vs)
  | .object ms => .object (memberDocuments ms)

def itemDocuments : List Value → List Document
  | [] => []
  | v :: vs => v.document :: itemDocuments vs

def memberDocuments : List (String × Value) → List (List Char × Document)
  | [] => []
  | (k, v) :: ms => (k.toList.flatMap escapeChar, v.document) :: memberDocuments ms

end

theorem itemDocuments_eq_map (vs : List Value) : itemDocuments vs = vs.map Value.document := by
  induction vs with
  | nil => rfl
  | cons v vs ih => rw [itemDocuments, ih, List.map_cons]

variable {sp : Spacing} {depth : Nat} {before outer : List Char}

/-- The items of an array, with white space in front of the first and behind the last. -/
theorem isText_elements (hsp : sp.IsBlank) {v : Value} {vs : List Value} (hbefore : AreBlank before)
    (houter : AreBlank outer) (hv : v.document.IsValueText (v.chars sp depth))
    (hvs : ∀ v ∈ vs, v.document.IsValueText (v.chars sp depth)) :
    (Phrase.elements (v.document :: itemDocuments vs)).IsText
      (before ++ (v.chars sp depth ++ (itemsChars sp depth vs ++ outer))) := by
  induction vs generalizing v before with
  | nil =>
    rw [itemsChars, List.nil_append]
    exact .lastElement (.element hbefore hv houter)
  | cons w ws ih =>
    obtain ⟨hw, hws⟩ := List.forall_mem_cons.mp hvs
    have hfirst := Phrase.IsText.element hbefore hv areBlank_nil
    have h := Phrase.IsText.elements hfirst (ih (hsp.newline depth) hw hws)
    simpa [itemsChars, itemDocuments] using h

/-- A key, a colon and a value. -/
theorem isText_member (hsp : sp.IsBlank) (hbefore : AreBlank before) (houter : AreBlank outer)
    (k : String) {v : Value} (hv : v.document.IsValueText (v.chars sp depth)) :
    (Phrase.member (k.toList.flatMap escapeChar) v.document).IsText
      (before ++ (stringText k ++ (sp.colon ++ (v.chars sp depth ++ outer)))) := by
  obtain ⟨blanks, hcolon, hblanks⟩ := hsp.colon
  have h := Phrase.IsText.member hbefore (denotes_escaped k.toList).isBody
    areBlank_nil (.element hblanks hv houter)
  simpa [stringText, hcolon] using h

/-- The members of an object, with white space in front of the first and behind the last. -/
theorem isText_members (hsp : sp.IsBlank) {k : String} {v : Value} {ms : List (String × Value)}
    (hbefore : AreBlank before) (houter : AreBlank outer)
    (hv : v.document.IsValueText (v.chars sp depth))
    (hms : ∀ m ∈ ms, m.2.document.IsValueText (m.2.chars sp depth)) :
    (Phrase.members (memberDocuments ((k, v) :: ms))).IsText
      (before ++ (stringText k ++ (sp.colon ++ (v.chars sp depth
        ++ (membersChars sp depth ms ++ outer))))) := by
  induction ms generalizing k v before with
  | nil =>
    rw [membersChars, List.nil_append]
    exact .lastMember (isText_member hsp hbefore houter k hv)
  | cons m ms ih =>
    obtain ⟨hm, hms⟩ := List.forall_mem_cons.mp hms
    have hfirst := isText_member hsp hbefore areBlank_nil k hv
    have h := Phrase.IsText.members hfirst (ih (k := m.1) (hsp.newline depth) hm hms)
    simpa [membersChars, memberDocuments] using h

mutual

/-- The text of a value is a text of what it says. -/
theorem Value.isText_chars (hsp : sp.IsBlank) (depth : Nat) : (v : Value) →
    v.document.IsValueText (v.chars sp depth)
  | .null => by
    rw [Value.chars, Value.document]
    exact .null
  | .nat n => by
    rw [Value.chars, Value.document]
    exact .number (spellsNumber_natDigits n)
  | .float x => by
    rw [Value.chars, Value.document, floatText]
    by_cases hx : x.isFinite = true
    · obtain ⟨_, _, _, _, -, -, hnumber⟩ := exists_spellsNumber hx
      rw [if_pos hx, if_pos hx]
      exact .number hnumber
    · rw [if_neg hx, if_neg hx]
      exact .null
  | .string s => by
    rw [Value.chars, Value.document]
    exact .string (denotes_escaped s.toList).isBody
  | .array [] => by
    rw [Value.chars, Value.document, itemDocuments]
    exact .emptyArray areBlank_nil
  | .array (v :: vs) => by
    rw [Value.chars, Value.document, itemDocuments]
    have h := Phrase.IsText.array (isText_elements hsp (hsp.newline (depth + 1)) (hsp.newline depth)
      (v.isText_chars hsp (depth + 1)) (isText_itemValues hsp (depth + 1) vs))
    simpa using h
  | .object [] => by
    rw [Value.chars, Value.document, memberDocuments]
    exact .emptyObject areBlank_nil
  | .object ((k, v) :: ms) => by
    rw [Value.chars, Value.document]
    have h := Phrase.IsText.object (isText_members (k := k) hsp (hsp.newline (depth + 1))
      (hsp.newline depth) (v.isText_chars hsp (depth + 1)) (isText_memberValues hsp (depth + 1) ms))
    simpa using h

theorem isText_itemValues (hsp : sp.IsBlank) (depth : Nat) : (vs : List Value) →
    ∀ v ∈ vs, v.document.IsValueText (v.chars sp depth)
  | [] => fun v hv => nomatch hv
  | v :: vs => by
    intro w hw
    rcases List.mem_cons.mp hw with heq | hw
    · exact heq ▸ v.isText_chars hsp depth
    · exact isText_itemValues hsp depth vs w hw

theorem isText_memberValues (hsp : sp.IsBlank) (depth : Nat) : (ms : List (String × Value)) →
    ∀ m ∈ ms, m.2.document.IsValueText (m.2.chars sp depth)
  | [] => fun m hm => nomatch hm
  | (k, v) :: ms => by
    intro m hm
    rcases List.mem_cons.mp hm with heq | hm
    · exact heq ▸ v.isText_chars hsp depth
    · exact isText_memberValues hsp depth ms m hm

end

theorem Value.isText_pretty (v : Value) : v.document.IsText v.pretty.toList := by
  have h := Phrase.IsText.element areBlank_nil
    (v.isText_chars Spacing.isBlank_pretty 0) areBlank_nil
  rw [Value.pretty, String.toList_ofList]
  simpa using h

end TriggerLatency.Json
