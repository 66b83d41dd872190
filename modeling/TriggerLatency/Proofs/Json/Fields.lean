import TriggerLatency.Proofs.Json.Skip

/-!
# Reading the fields of a record

A record is read from any text of an object or an array, whatever the order of its members and the
white space between them. What the members of an object make of the draft that the reader fills is
an inductive relation (`Fills`), with members that nobody asked for among them; so is what the
items of an array make of it (`FillsInOrder`).
-/

namespace TriggerLatency.Json

variable {α σ : Type} {fields : List (Field σ)} {s s' : σ} {d : Document}
  {ms : List (List Char × Document)} {text rest blanks : List Char} {first : Bool}

/-- A document that is read as something, whatever its text. -/
def ReadsAs (read : Reader α) (d : Document) (x : Except Fault α) : Prop :=
  ∀ text, d.IsValueText text → Reads read text x

/-- A text with white space around it is read as a whole. -/
theorem ReadsAs.readAll_eq {read : Reader α} {x : Except Fault α} (h : ReadsAs read d x)
    (htext : d.IsText text) : readAll read text = x := by
  cases htext with
  | @element _ before text after hbefore hvalue hafter =>
    have hrest : EndsNumeral (after ++ []) := endsNumeral_nil.blanks_append hafter
    have hskip := skipBlank_append hafter []
    rw [List.append_nil] at hrest hskip
    rw [readAll, h text hvalue before after hbefore hrest]
    cases x with
    | error e => rfl
    | ok a => exact if_pos hskip

/-! ## Single values -/

theorem colon_append (hblanks : AreBlank blanks) (rest : List Char) :
    colon (blanks ++ ':' :: rest) = .ok rest := by
  rw [colon, skipBlank_append hblanks, skipBlank_cons rfl]
  rfl

/-- A number is read as what its parts are worth. -/
theorem readsAs_float {token : List Char} {negative : Bool} {p : Parts} {n : Numeral}
    (h : SpellsNumber token negative p)
    (hn : Numeral.ofParts negative p.whole p.fraction p.exponent = .ok n) :
    ReadsAs readFloat (.number token) (.ok n.toFloat) := by
  rintro _ ⟨⟩ blanks rest hblanks hrest
  obtain ⟨ending, hending, htoken⟩ := h.token_eq
  have hnumeral := numeral_append h.wellFormed hending negative hrest
  rw [hn] at hnumeral
  have hread : readNumeral (token ++ rest) = .ok (n, rest) := by
    rw [htoken, List.append_assoc, List.append_assoc, List.append_assoc]
    cases negative with
    | true => exact hnumeral
    | false =>
      obtain ⟨d, ds, hds⟩ := List.exists_cons_of_ne_nil h.wellFormed.whole.ne_nil
      have hd := h.wellFormed.whole.digits d (hds ▸ List.mem_cons_self ..)
      rw [hds] at hnumeral ⊢
      exact (readNumeral_of_isDigit hd _).trans hnumeral
  rw [readFloat, readNumeral_append hblanks, hread]
  rfl

/-- A string is read as the characters that it stands for. -/
theorem readsAs_string {body chars : List Char} (h : Denotes body chars) :
    ReadsAs readString (.string body) (.ok (String.ofList chars)) := by
  rintro _ ⟨⟩ blanks rest hblanks -
  rw [readString, skipBlank_append hblanks, List.cons_append, skipBlank_cons rfl, List.append_assoc]
  exact quoted_append h rest

section

variable {names : List (String × α)} {body name : List Char} {a : α}

/-- A string that is a name is read as what it names. -/
theorem readsAs_choice (h : Denotes body name)
    (hname : names.lookup (String.ofList name) = some a) :
    ReadsAs (readChoice names) (.string body) (.ok a) := by
  rintro _ ⟨⟩ blanks rest hblanks -
  rw [readChoice, skipBlank_append hblanks, List.cons_append, skipBlank_cons rfl, List.append_assoc]
  show (quoted (body ++ '"' :: rest) >>= _) = _
  rw [quoted_append h]
  dsimp only [bind, Except.bind]
  rw [hname]
  rfl

/-- So is an object with the name for its only key and null for its value. -/
theorem readsAs_choice_key (h : Denotes body name)
    (hname : names.lookup (String.ofList name) = some a) :
    ReadsAs (readChoice names) (.object [(body, .null)]) (.ok a) := by
  intro text htext blanks rest hblanks _
  cases htext with
  | object htext =>
    cases htext with
    | members _ h => exact nomatch h
    | lastMember hmember =>
      obtain ⟨lead, between, before, value, after, hlead, -, hbetween, hbefore, ⟨⟩, hafter, rfl⟩ :=
        exists_of_member hmember
      -- the parts of the object, each with what stands behind it
      have hkey : ∀ text, onlyKey (lead ++ '"' :: (body ++ '"' :: text))
          = .ok (String.ofList name, text) := by
        intro text
        rw [onlyKey, skipBlank_append hlead, skipBlank_cons rfl]
        exact quoted_append h text
      have hnull : ∀ text,
          readNull (before ++ (['n', 'u', 'l', 'l'] ++ text)) = .ok ((), text) := by
        intro text
        rw [readNull, skipBlank_append hbefore]
        rfl
      have hend : skipBlank (after ++ '\x7d' :: rest) = '\x7d' :: rest := by
        rw [skipBlank_append hafter, skipBlank_cons rfl]
      rw [readChoice, skipBlank_append hblanks, List.cons_append, skipBlank_cons rfl]
      show (onlyKey _ >>= _) = _
      simp only [List.append_assoc, List.cons_append, List.nil_append] at hkey hnull ⊢
      rw [hkey]
      dsimp only [bind, Except.bind]
      rw [hname]
      dsimp only
      rw [colon_append hbetween]
      dsimp only
      rw [hnull]
      dsimp only
      rw [hend]
      rfl

end

/-! ## The members of an object -/

/-- A field with a slot is read as its value is. -/
theorem reads_slot {β : Type} {read : Reader β} {text : List Char} {x : Except Fault β}
    (name : String) (get : σ → Option β) (set : σ → β → σ) (s : σ) (h : Reads read text x) :
    Reads ((Field.slot name get set read).read s) text (x.map (set s)) := by
  intro blanks rest hblanks hrest
  dsimp only [Field.slot]
  rw [h blanks rest hblanks hrest]
  cases x <;> rfl

/-- What reading the members of an object makes of a draft, one member after the other. -/
inductive Fills (fields : List (Field σ)) : σ → List (List Char × Document) → Except Fault σ → Prop
  | nil {s : σ} : Fills fields s [] (.ok s)
  /-- A member that nobody asked for. -/
  | unknown {s : σ} {key name : List Char} {d : Document} {ms : List (List Char × Document)}
      {x : Except Fault σ} :
      Denotes key name → fields.find? (·.name = String.ofList name) = none →
      Fills fields s ms x → Fills fields s ((key, d) :: ms) x
  /-- A member for a field that the draft already has. -/
  | repeated {s : σ} {key name : List Char} {d : Document} {ms : List (List Char × Document)}
      {f : Field σ} :
      Denotes key name → fields.find? (·.name = String.ofList name) = some f → f.filled s = true →
      Fills fields s ((key, d) :: ms) (.error .mismatch)
  /-- A member for a new field. -/
  | field {s s' : σ} {key name : List Char} {d : Document} {ms : List (List Char × Document)}
      {f : Field σ} {x : Except Fault σ} :
      Denotes key name → fields.find? (·.name = String.ofList name) = some f → f.filled s = false →
      ReadsAs (f.read s) d (.ok s') → Fills fields s' ms x → Fills fields s ((key, d) :: ms) x

/-- What is ahead of the reader in front of some members, up to the closing brace: nothing but white
space, or the members, with a comma in front if they are not the first. -/
inductive MembersAhead : Bool → List (List Char × Document) → List Char → Prop
  | none {first : Bool} {blanks : List Char} : AreBlank blanks → MembersAhead first [] blanks
  | first {ms : List (List Char × Document)} {text : List Char} :
      (Phrase.members ms).IsText text → MembersAhead true ms text
  | next {ms : List (List Char × Document)} {blanks text : List Char} :
      AreBlank blanks → (Phrase.members ms).IsText text →
      MembersAhead false ms (blanks ++ ',' :: text)

theorem nextKey_end (first : Bool) (hblanks : AreBlank blanks) (rest : List Char) :
    nextKey first (blanks ++ '\x7d' :: rest) = .ok (false, rest) := by
  rw [nextKey, skipBlank_append hblanks, skipBlank_cons rfl]
  rfl

theorem nextKey_quote (hblanks : AreBlank blanks) (rest : List Char) :
    nextKey true (blanks ++ '"' :: rest) = .ok (true, rest) := by
  rw [nextKey, skipBlank_append hblanks, skipBlank_cons rfl]
  rfl

theorem nextKey_comma_quote {before : List Char} (hblanks : AreBlank blanks)
    (hbefore : AreBlank before) (rest : List Char) :
    nextKey false (blanks ++ ',' :: (before ++ '"' :: rest)) = .ok (true, rest) := by
  have hskip : skipBlank (before ++ '"' :: rest) = '"' :: rest := by
    rw [skipBlank_append hbefore, skipBlank_cons rfl]
  rw [nextKey, skipBlank_append hblanks, skipBlank_cons rfl]
  simp [hskip]

namespace MembersAhead

/-- Behind a value that is followed by members there is the end of a number. -/
theorem endsNumeral (h : MembersAhead false ms text) (rest : List Char) :
    EndsNumeral (text ++ '\x7d' :: rest) := by
  cases h with
  | none hblanks => exact (endsNumeral_delimiter (Or.inr (Or.inr rfl))).blanks_append hblanks
  | next hblanks _ =>
    rw [List.append_assoc, List.cons_append]
    exact (endsNumeral_delimiter (Or.inl rfl)).blanks_append hblanks

/-- The first of some members, and the others behind it. -/
theorem exists_of_members {key : List Char} (h : (Phrase.members ((key, d) :: ms)).IsText text) :
    ∃ lead between before value after, AreBlank lead ∧ AreBlank between ∧ AreBlank before
      ∧ d.IsValueText value ∧ MembersAhead false ms after
      ∧ text = lead ++ '"' :: (key ++ '"' :: (between ++ ':' :: (before ++ (value ++ after)))) := by
  cases h with
  | lastMember h =>
    obtain ⟨lead, between, before, value, after, hlead, -, hbetween, hbefore, hvalue, hafter,
      rfl⟩ := exists_of_member h
    exact ⟨lead, between, before, value, after, hlead, hbetween, hbefore, hvalue, .none hafter, rfl⟩
  | members h hs =>
    obtain ⟨lead, between, before, value, after, hlead, -, hbetween, hbefore, hvalue, hafter,
      rfl⟩ := exists_of_member h
    exact ⟨lead, between, before, value, _, hlead, hbetween, hbefore, hvalue, .next hafter hs,
      by simp⟩

/-- The reader is led to the first of the members that are ahead. -/
theorem exists_nextKey {key : List Char} (h : MembersAhead first ((key, d) :: ms) text) :
    ∃ between before value after, AreBlank between ∧ AreBlank before ∧ d.IsValueText value
      ∧ MembersAhead false ms after
      ∧ ∀ rest, nextKey first (text ++ rest)
        = .ok (true, key ++ '"' :: (between ++ ':' :: (before ++ (value ++ (after ++ rest))))) := by
  cases h with
  | first h =>
    obtain ⟨lead, between, before, value, after, hlead, hbetween, hbefore, hvalue, hafter, rfl⟩ :=
      exists_of_members h
    refine ⟨between, before, value, after, hbetween, hbefore, hvalue, hafter, fun rest => ?_⟩
    simp only [List.append_assoc, List.cons_append]
    exact nextKey_quote hlead _
  | next hblanks h =>
    obtain ⟨lead, between, before, value, after, hlead, hbetween, hbefore, hvalue, hafter, rfl⟩ :=
      exists_of_members h
    refine ⟨between, before, value, after, hbetween, hbefore, hvalue, hafter, fun rest => ?_⟩
    simp only [List.append_assoc, List.cons_append]
    exact nextKey_comma_quote hblanks hlead _

end MembersAhead

/-- One member, up to its value: it is read, or passed over, and the members behind it follow. -/
theorem members_of_nextKey {key name between : List Char}
    (hnext : nextKey first text = .ok (true, key ++ '"' :: (between ++ ':' :: rest)))
    (hname : Denotes key name) (hbetween : AreBlank between) (fuel : Nat) (s : σ) :
    members fields (fuel + 1) first s text
      = match fields.find? (·.name = String.ofList name) with
        | some f =>
          if f.filled s then .error .mismatch
          else f.read s rest >>= fun p => members fields fuel false p.1 p.2
        | none => skipValue rest >>= fun p => members fields fuel false s p.2 := by
  rw [members, hnext]
  dsimp only [bind, Except.bind]
  rw [quoted_append hname]
  dsimp only
  rewrite [colon_append hbetween]
  rfl

/-- The members of an object are read up to the closing brace. -/
theorem members_append {x : Except Fault σ} (h : Fills fields s ms x) :
    ∀ {first : Bool} {text : List Char} {fuel : Nat}, MembersAhead first ms text →
      ms.length < fuel →
      members fields fuel first s (text ++ '\x7d' :: rest) = x.map fun s => (s, rest) := by
  -- the fuel only has to outlast the members
  induction h with
  | nil =>
    intro first text fuel hahead hfuel
    obtain ⟨fuel, rfl⟩ := Nat.exists_eq_succ_of_ne_zero (Nat.ne_of_gt hfuel)
    cases hahead with
    | none hblanks =>
      rw [members, nextKey_end first hblanks]
      rfl
    | first h => exact nomatch h
    | next _ h => exact nomatch h
  | unknown hname hfind _ ih =>
    intro first text fuel hahead hfuel
    obtain ⟨fuel, rfl⟩ := Nat.exists_eq_succ_of_ne_zero (Nat.ne_of_gt (Nat.zero_lt_of_lt hfuel))
    obtain ⟨between, before, value, after, hbetween, hbefore, hvalue, hafter, hnext⟩ :=
      hahead.exists_nextKey
    rw [members_of_nextKey (hnext _) hname hbetween, hfind]
    dsimp only
    rw [skipValue_append hbefore hvalue (hafter.endsNumeral rest)]
    exact ih hafter (Nat.lt_of_succ_lt_succ hfuel)
  | repeated hname hfind hfilled =>
    intro first text fuel hahead hfuel
    obtain ⟨fuel, rfl⟩ := Nat.exists_eq_succ_of_ne_zero (Nat.ne_of_gt (Nat.zero_lt_of_lt hfuel))
    obtain ⟨between, before, value, after, hbetween, -, -, -, hnext⟩ := hahead.exists_nextKey
    rw [members_of_nextKey (hnext _) hname hbetween, hfind]
    exact if_pos hfilled
  | field hname hfind hfilled hread _ ih =>
    intro first text fuel hahead hfuel
    obtain ⟨fuel, rfl⟩ := Nat.exists_eq_succ_of_ne_zero (Nat.ne_of_gt (Nat.zero_lt_of_lt hfuel))
    obtain ⟨between, before, value, after, hbetween, hbefore, hvalue, hafter, hnext⟩ :=
      hahead.exists_nextKey
    rw [members_of_nextKey (hnext _) hname hbetween, hfind]
    dsimp only
    rw [hfilled, if_neg Bool.false_ne_true,
      hread value hvalue before _ hbefore (hafter.endsNumeral rest)]
    exact ih hafter (Nat.lt_of_succ_lt_succ hfuel)

/-- Every member has at least its quotes. -/
theorem length_le_of_members (h : (Phrase.members ms).IsText text) : ms.length ≤ text.length := by
  induction ms generalizing text with
  | nil => exact Nat.zero_le _
  | cons m ms ih =>
    cases h with
    | lastMember h =>
      obtain ⟨_, _, _, _, _, -, -, -, -, -, -, rfl⟩ := exists_of_member h
      simp only [List.length_cons, List.length_nil, List.length_append]
      omega
    | members _ hs =>
      have hlength := ih hs
      simp only [List.length_cons, List.length_append]
      omega

theorem readRecord_object (shape : RecordShape σ α) (text : List Char) :
    readRecord shape ('\x7b' :: text)
      = members shape.fields (text.length + 1) true shape.empty text >>= fun p =>
        complete (shape.ofObject p.1) >>= fun r => .ok (r, p.2) := by
  rw [readRecord, skipBlank_cons rfl]
  rfl

theorem readRecord_array (shape : RecordShape σ α) (text : List Char) :
    readRecord shape ('[' :: text)
      = positional shape.fields true shape.empty text >>= fun p =>
        complete (shape.ofArray p.1) >>= fun r => endArray p.2 >>= fun rest => .ok (r, rest) := by
  rw [readRecord, skipBlank_cons rfl]
  rfl

/-- A record is read from an object as its members fill it. -/
theorem readsAs_record {shape : RecordShape σ α} {x : Except Fault σ}
    (h : Fills shape.fields shape.empty ms x) :
    ReadsAs (readRecord shape) (.object ms) (x >>= fun s => complete (shape.ofObject s)) := by
  intro text htext blanks rest hblanks _
  -- an object with or without members, from behind its brace on
  have hread : ∀ {text : List Char}, MembersAhead true ms text → ms.length ≤ text.length →
      readRecord shape ('\x7b' :: (text ++ '\x7d' :: rest))
        = (x >>= fun s => complete (shape.ofObject s)).map fun a => (a, rest) := by
    intro text hahead hlength
    rw [readRecord_object, members_append h hahead (by rw [List.length_append]; omega)]
    cases x with
    | error e => rfl
    | ok s =>
      show (complete (shape.ofObject s)).bind _ = (complete (shape.ofObject s)).map _
      cases complete (shape.ofObject s) <;> rfl
  rw [readRecord, skipBlank_append hblanks, ← readRecord]
  cases htext with
  | emptyObject hblanks =>
    rw [List.cons_append, List.append_assoc]
    exact hread (.none hblanks) (Nat.zero_le _)
  | object htext =>
    rw [List.cons_append, List.append_assoc]
    exact hread (.first htext) (length_le_of_members htext)

/-! ## The items of an array -/

/-- What reading the items of an array makes of a draft, one field after the other. There may be
fewer items than fields. -/
inductive FillsInOrder : List (Field σ) → σ → List Document → σ → Prop
  | nil {fields : List (Field σ)} {s : σ} : FillsInOrder fields s [] s
  | cons {f : Field σ} {fields : List (Field σ)} {s s' s'' : σ} {d : Document}
      {ds : List Document} :
      ReadsAs (f.read s) d (.ok s') → FillsInOrder fields s' ds s'' →
      FillsInOrder (f :: fields) s (d :: ds) s''

/-- What is ahead of the reader in front of some items, up to the closing bracket. -/
inductive ItemsAhead : Bool → List Document → List Char → Prop
  | none {first : Bool} {blanks : List Char} : AreBlank blanks → ItemsAhead first [] blanks
  | first {ds : List Document} {text : List Char} :
      (Phrase.elements ds).IsText text → ItemsAhead true ds text
  | next {ds : List Document} {blanks text : List Char} :
      AreBlank blanks → (Phrase.elements ds).IsText text →
      ItemsAhead false ds (blanks ++ ',' :: text)

theorem endArray_append (hblanks : AreBlank blanks) (rest : List Char) :
    endArray (blanks ++ ']' :: rest) = .ok rest := by
  rw [endArray, skipBlank_append hblanks, skipBlank_cons rfl]
  rfl

theorem nextItem_end (first : Bool) (hblanks : AreBlank blanks) (rest : List Char) :
    nextItem first (blanks ++ ']' :: rest) = .ok (false, ']' :: rest) := by
  rw [nextItem, skipBlank_append hblanks, skipBlank_cons rfl]
  rfl

/-- A value is an item. -/
theorem nextItem_value (hblanks : AreBlank blanks) (h : d.IsValueText text) (rest : List Char) :
    nextItem true (blanks ++ (text ++ rest)) = .ok (true, text ++ rest) := by
  obtain ⟨c, cs, rfl, hblank, hbracket⟩ := exists_head_of_value h
  rw [nextItem, skipBlank_append hblanks, List.cons_append, skipBlank_cons hblank]
  simp

theorem nextItem_behind_comma (hblanks : AreBlank blanks) (rest : List Char) :
    nextItem false (blanks ++ ',' :: rest) = match skipBlank rest with
      | [] => .error .truncated
      | ']' :: _ => .error .malformed
      | rest => .ok (true, rest) := by
  rw [nextItem, skipBlank_append hblanks, skipBlank_cons rfl]
  rfl

/-- So is a value behind a comma. -/
theorem nextItem_comma_value {before : List Char} (hblanks : AreBlank blanks)
    (hbefore : AreBlank before) (h : d.IsValueText text) (rest : List Char) :
    nextItem false (blanks ++ ',' :: (before ++ (text ++ rest))) = .ok (true, text ++ rest) := by
  obtain ⟨c, cs, rfl, hblank, hbracket⟩ := exists_head_of_value h
  rw [nextItem_behind_comma hblanks, skipBlank_append hbefore, List.cons_append,
    skipBlank_cons hblank]
  -- a value is no closing bracket
  split
  · rename_i heq
    exact absurd heq (List.cons_ne_nil c _)
  · rename_i heq
    exact absurd (List.cons.inj heq).1 hbracket
  · rfl

namespace ItemsAhead

variable {ds : List Document}

/-- Behind an item that is followed by others there is the end of a number. -/
theorem endsNumeral (h : ItemsAhead false ds text) (rest : List Char) :
    EndsNumeral (text ++ ']' :: rest) := by
  cases h with
  | none hblanks => exact (endsNumeral_delimiter (Or.inr (Or.inl rfl))).blanks_append hblanks
  | next hblanks _ =>
    rw [List.append_assoc, List.cons_append]
    exact (endsNumeral_delimiter (Or.inl rfl)).blanks_append hblanks

/-- The first of some items, and the others behind it. -/
theorem exists_of_elements (h : (Phrase.elements (d :: ds)).IsText text) :
    ∃ before value after, AreBlank before ∧ d.IsValueText value ∧ ItemsAhead false ds after
      ∧ text = before ++ (value ++ after) := by
  cases h with
  | lastElement h =>
    cases h with
    | element hbefore hvalue hafter => exact ⟨_, _, _, hbefore, hvalue, .none hafter, rfl⟩
  | elements h hs =>
    cases h with
    | element hbefore hvalue hafter =>
      exact ⟨_, _, _, hbefore, hvalue, .next hafter hs, by simp⟩

/-- The reader is led to the first of the items that are ahead. -/
theorem exists_nextItem (h : ItemsAhead first (d :: ds) text) :
    ∃ value after, d.IsValueText value ∧ ItemsAhead false ds after
      ∧ ∀ rest, nextItem first (text ++ rest) = .ok (true, value ++ (after ++ rest)) := by
  cases h with
  | first h =>
    obtain ⟨before, value, after, hbefore, hvalue, hafter, rfl⟩ := exists_of_elements h
    refine ⟨value, after, hvalue, hafter, fun rest => ?_⟩
    simp only [List.append_assoc]
    exact nextItem_value hbefore hvalue _
  | next hblanks h =>
    obtain ⟨before, value, after, hbefore, hvalue, hafter, rfl⟩ := exists_of_elements h
    refine ⟨value, after, hvalue, hafter, fun rest => ?_⟩
    simp only [List.append_assoc, List.cons_append]
    exact nextItem_comma_value hblanks hbefore hvalue _

end ItemsAhead

/-- The items of an array are read up to the closing bracket. -/
theorem positional_append {ds : List Document} (h : FillsInOrder fields s ds s')
    (rest : List Char) : ∀ {first : Bool} {text : List Char}, ItemsAhead first ds text →
      ∃ text', positional fields first s (text ++ ']' :: rest) = .ok (s', text')
        ∧ endArray text' = .ok rest := by
  induction h with
  | @nil fields s =>
    intro first text hahead
    cases hahead with
    | none hblanks =>
      cases fields with
      | nil => exact ⟨_, rfl, endArray_append hblanks rest⟩
      | cons f fields =>
        -- the next field finds the end of the array
        refine ⟨']' :: rest, ?_, rfl⟩
        rw [positional, nextItem_end first hblanks]
        rfl
    | first h => exact nomatch h
    | next _ h => exact nomatch h
  | cons hread _ ih =>
    intro first text hahead
    obtain ⟨value, after, hvalue, hafter, hnext⟩ := hahead.exists_nextItem
    obtain ⟨text', hpositional, hend⟩ := ih hafter
    refine ⟨text', ?_, hend⟩
    have hitem := (hread value hvalue).append (hafter.endsNumeral rest)
    rw [positional, hnext]
    dsimp only [bind, Except.bind]
    rw [hitem]
    exact hpositional

/-- A record is read from an array as its items fill it in order. -/
theorem readsAs_record_of_array {shape : RecordShape σ α} {ds : List Document}
    (h : FillsInOrder shape.fields shape.empty ds s) :
    ReadsAs (readRecord shape) (.array ds) (complete (shape.ofArray s)) := by
  intro text htext blanks rest hblanks _
  have hread : ∀ {text : List Char}, ItemsAhead true ds text →
      readRecord shape ('[' :: (text ++ ']' :: rest))
        = (complete (shape.ofArray s)).map fun a => (a, rest) := by
    intro text hahead
    obtain ⟨text', hpositional, hend⟩ := positional_append h rest hahead
    rw [readRecord_array, hpositional]
    dsimp only [bind, Except.bind]
    rw [hend]
    cases complete (shape.ofArray s) <;> rfl
  rw [readRecord, skipBlank_append hblanks, ← readRecord]
  cases htext with
  | emptyArray hblanks =>
    rw [List.cons_append, List.append_assoc]
    exact hread (.none hblanks)
  | array htext =>
    rw [List.cons_append, List.append_assoc]
    exact hread (.first htext)

end TriggerLatency.Json
