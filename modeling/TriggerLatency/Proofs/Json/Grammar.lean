import TriggerLatency.Proofs.Json.Number
import TriggerLatency.Proofs.Json.Quoted

/-!
# The grammar of JSON

What a JSON text says is a `Document`, in which numbers and the insides of strings stand as they
are written. A text is described phrase by phrase (`Phrase.IsText`), with white space wherever the
grammar allows it and commas nowhere else.

A value begins with a character that neither white space nor a closing bracket begins with
(`exists_head_of_value`), so that a reader can tell what stands in front of it.
-/

namespace TriggerLatency.Json

open Decimal

/-- What a JSON text says. -/
inductive Document
  | null
  | bool (b : Bool)
  | number (token : List Char)
  | string (body : List Char)
  | array (items : List Document)
  | object (members : List (List Char × Document))

/-- White space. -/
abbrev AreBlank (cs : List Char) : Prop := ∀ c ∈ cs, isBlank c = true

theorem areBlank_nil : AreBlank [] := fun _ hc => nomatch hc

theorem areBlank_singleton {c : Char} (hc : isBlank c = true) : AreBlank [c] := by
  intro d hd
  rw [List.mem_singleton.mp hd]
  exact hc

/-- A part of a JSON text. -/
inductive Phrase
  | value (d : Document)
  /-- A value with white space around it. -/
  | element (d : Document)
  /-- One element or more, with commas between them. -/
  | elements (ds : List Document)
  /-- A key, a colon and an element. -/
  | member (key : List Char) (d : Document)
  /-- One member or more, with commas between them. -/
  | members (ms : List (List Char × Document))

namespace Phrase

/-- The texts of a phrase. -/
inductive IsText : Phrase → List Char → Prop
  | null : IsText (.value .null) ['n', 'u', 'l', 'l']
  | true : IsText (.value (.bool true)) ['t', 'r', 'u', 'e']
  | false : IsText (.value (.bool false)) ['f', 'a', 'l', 's', 'e']
  | number {token : List Char} {negative : Bool} {p : Parts} :
      SpellsNumber token negative p → IsText (.value (.number token)) token
  | string {body : List Char} :
      IsBody body → IsText (.value (.string body)) ('"' :: (body ++ ['"']))
  | emptyArray {blanks : List Char} :
      AreBlank blanks → IsText (.value (.array [])) ('[' :: (blanks ++ [']']))
  | array {ds : List Document} {text : List Char} :
      IsText (.elements ds) text → IsText (.value (.array ds)) ('[' :: (text ++ [']']))
  | emptyObject {blanks : List Char} :
      AreBlank blanks → IsText (.value (.object [])) ('\x7b' :: (blanks ++ ['\x7d']))
  | object {ms : List (List Char × Document)} {text : List Char} :
      IsText (.members ms) text → IsText (.value (.object ms)) ('\x7b' :: (text ++ ['\x7d']))
  | element {d : Document} {before text after : List Char} :
      AreBlank before → IsText (.value d) text → AreBlank after →
      IsText (.element d) (before ++ (text ++ after))
  | lastElement {d : Document} {text : List Char} :
      IsText (.element d) text → IsText (.elements [d]) text
  | elements {d : Document} {ds : List Document} {text texts : List Char} :
      IsText (.element d) text → IsText (.elements ds) texts →
      IsText (.elements (d :: ds)) (text ++ ',' :: texts)
  | member {key : List Char} {d : Document} {before between text : List Char} :
      AreBlank before → IsBody key → AreBlank between → IsText (.element d) text →
      IsText (.member key d) (before ++ '"' :: (key ++ '"' :: (between ++ ':' :: text)))
  | lastMember {key : List Char} {d : Document} {text : List Char} :
      IsText (.member key d) text → IsText (.members [(key, d)]) text
  | members {key : List Char} {d : Document} {ms : List (List Char × Document)}
      {text texts : List Char} :
      IsText (.member key d) text → IsText (.members ms) texts →
      IsText (.members ((key, d) :: ms)) (text ++ ',' :: texts)

end Phrase

/-- A text of a document alone. -/
abbrev Document.IsValueText (d : Document) (text : List Char) : Prop :=
  (Phrase.value d).IsText text

/-- A text of a document, with white space around it. -/
abbrev Document.IsText (d : Document) (text : List Char) : Prop :=
  (Phrase.element d).IsText text

variable {d : Document} {text token rest : List Char} {negative : Bool} {p : Parts}

/-! ## What stands in front of a value and behind it -/

/-- What may stand behind a value inside an array or an object, apart from white space. -/
def IsDelimiter (c : Char) : Prop := c = ',' ∨ c = ']' ∨ c = '\x7d'

/-- A number in front of a delimiter is at its end. -/
theorem endsNumeral_delimiter {c : Char} (hc : IsDelimiter c) : EndsNumeral (c :: rest) := by
  intro d hd
  obtain rfl := Option.some.inj hd
  rcases hc with rfl | rfl | rfl <;> decide

/-- White space in between makes no difference. -/
theorem EndsNumeral.blanks_append {blanks : List Char} (hrest : EndsNumeral rest)
    (hblanks : AreBlank blanks) : EndsNumeral (blanks ++ rest) := by
  cases blanks with
  | nil => exact hrest
  | cons b bs =>
    intro d hd
    obtain rfl := Option.some.inj hd
    have hb := hblanks b (List.mem_cons_self ..)
    simp only [isBlank, Bool.or_eq_true, decide_eq_true_eq] at hb
    rcases hb with ((rfl | rfl) | rfl) | rfl <;> decide

/-- A number begins with a minus sign or with a digit. -/
theorem SpellsNumber.exists_head (h : SpellsNumber token negative p) :
    ∃ c cs, token = c :: cs ∧ (c = '-' ∨ isDigit c = true) := by
  obtain ⟨ending, -, rfl⟩ := h.token_eq
  cases negative with
  | true => exact ⟨'-', _, rfl, Or.inl rfl⟩
  | false =>
    obtain ⟨c, cs, hcs⟩ := List.exists_cons_of_ne_nil h.wellFormed.whole.ne_nil
    have hc := h.wellFormed.whole.digits c (hcs ▸ List.mem_cons_self ..)
    rw [hcs]
    exact ⟨c, _, rfl, Or.inr hc⟩

/-- A value begins neither with white space nor as an array ends. -/
theorem exists_head_of_value (h : d.IsValueText text) :
    ∃ c cs, text = c :: cs ∧ isBlank c = false ∧ c ≠ ']' := by
  cases h with
  | null => exact ⟨_, _, rfl, rfl, by decide⟩
  | true => exact ⟨_, _, rfl, rfl, by decide⟩
  | false => exact ⟨_, _, rfl, rfl, by decide⟩
  | string _ => exact ⟨_, _, rfl, rfl, by decide⟩
  | emptyArray _ => exact ⟨_, _, rfl, rfl, by decide⟩
  | array _ => exact ⟨_, _, rfl, rfl, by decide⟩
  | emptyObject _ => exact ⟨_, _, rfl, rfl, by decide⟩
  | object _ => exact ⟨_, _, rfl, rfl, by decide⟩
  | number hnumber =>
    obtain ⟨c, cs, hcs, rfl | hc⟩ := hnumber.exists_head
    · exact ⟨_, cs, hcs, rfl, by decide⟩
    · exact ⟨c, cs, hcs, isBlank_of_isDigit hc, ne_of_isDigit hc rfl⟩

theorem exists_head_of_element (h : d.IsText text) :
    ∃ blanks c cs, text = blanks ++ c :: cs ∧ AreBlank blanks ∧ isBlank c = false ∧ c ≠ ']' := by
  cases h with
  | element hbefore hvalue _ =>
    obtain ⟨c, cs, rfl, hhead⟩ := exists_head_of_value hvalue
    exact ⟨_, c, _, rfl, hbefore, hhead⟩

theorem exists_head_of_elements {ds : List Document} (h : (Phrase.elements ds).IsText text) :
    ∃ blanks c cs, text = blanks ++ c :: cs ∧ AreBlank blanks ∧ isBlank c = false ∧ c ≠ ']' := by
  cases h with
  | lastElement h => exact exists_head_of_element h
  | elements h _ =>
    obtain ⟨blanks, c, cs, rfl, hhead⟩ := exists_head_of_element h
    exact ⟨blanks, c, _, by rw [List.append_assoc, List.cons_append], hhead⟩

/-- A member taken apart: its key, a colon and its value, with white space around each. -/
theorem exists_of_member {key : List Char} (h : (Phrase.member key d).IsText text) :
    ∃ lead between before value after, AreBlank lead ∧ IsBody key ∧ AreBlank between
      ∧ AreBlank before ∧ d.IsValueText value ∧ AreBlank after
      ∧ text = lead ++ '"' :: (key ++ '"' :: (between ++ ':' :: (before ++ (value ++ after)))) := by
  cases h with
  | member hlead hkey hbetween helement =>
    cases helement with
    | element hbefore hvalue hafter =>
      exact ⟨_, _, _, _, _, hlead, hkey, hbetween, hbefore, hvalue, hafter, rfl⟩

theorem exists_head_of_members {ms : List (List Char × Document)}
    (h : (Phrase.members ms).IsText text) :
    ∃ blanks cs, text = blanks ++ '"' :: cs ∧ AreBlank blanks := by
  cases h with
  | lastMember h =>
    obtain ⟨lead, _, _, _, _, hlead, -, -, -, -, -, rfl⟩ := exists_of_member h
    exact ⟨lead, _, rfl, hlead⟩
  | members h _ =>
    obtain ⟨lead, _, _, _, _, hlead, -, -, -, -, -, rfl⟩ := exists_of_member h
    exact ⟨lead, _, by rw [List.append_assoc, List.cons_append], hlead⟩

end TriggerLatency.Json
