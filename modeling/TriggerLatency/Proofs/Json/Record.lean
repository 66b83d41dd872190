import TriggerLatency.Proofs.Json.Fields
import TriggerLatency.Proofs.Json.Written

/-!
# Reading lists and records back

What is written for a list or a record is read part by part, in whatever layout: white
space is passed over, and every part `Reads` on its own. The first part that cannot be
read decides the fault (`reads_list`, `reads_record`).

A part that ends in a number needs to know what stands behind it, since digits would go on
with it. Behind every part of a list or a record stands white space or a delimiter
(`endsNumeral_itemsChars`, `endsNumeral_membersChars`), and neither does.

What the members of a record make of the draft that the reader fills is an inductive
relation, `ReadsMembers`. Unlike `Fills` it is about nothing but the texts that are written, and
goes on to the fault of a member that cannot be read. A record of this library is read by listing
its fields (`ReadsMembers.slot`).
-/

namespace TriggerLatency.Json

/-! ## Single values -/

section

variable {sp : Spacing} {depth : Nat}

theorem reads_natValue {n : Nat} (hn : n < 2 ^ 64) :
    Reads readNat ((Value.nat n).chars sp depth) (.ok n) := by
  rw [Value.chars]
  exact reads_nat hn

theorem reads_floatValue (x : Float) :
    Reads readFloat ((Value.float x).chars sp depth) (reread x) := by
  rw [Value.chars]
  exact reads_float x

/-- A string reads as itself. -/
theorem reads_stringValue (s : String) :
    Reads readString ((Value.string s).chars sp depth) (.ok s) := by
  have hescaped := denotes_escaped s.toList
  have hread := readsAs_string hescaped _ (.string hescaped.isBody)
  rw [String.ofList_toList] at hread
  rw [Value.chars]
  exact hread

/-- A name reads as what it names. -/
theorem reads_name {α : Type} {names : List (String × α)} {name : String} {a : α}
    (h : names.lookup name = some a) :
    Reads (readChoice names) ((Value.string name).chars sp depth) (.ok a) := by
  have hescaped := denotes_escaped name.toList
  rw [Value.chars]
  exact readsAs_choice hescaped (by rw [String.ofList_toList, h]) _ (.string hescaped.isBody)

end

/-! ## Lists -/

section

variable {α β : Type} {read : Reader β} {sp : Spacing} {toJson : α → Value}
  {result : α → Except Fault β}

/-- An item behind a comma. -/
theorem nextItem_comma (hsp : sp.IsBlank) (depth : Nat) (v : Value) (text : List Char) :
    nextItem false (',' :: (sp.newline depth ++ (v.chars sp depth ++ text)))
      = .ok (true, v.chars sp depth ++ text) :=
  nextItem_comma_value areBlank_nil (hsp.newline depth) (v.isText_chars hsp depth) text

theorem endsNumeral_itemsChars (sp : Spacing) (depth : Nat) {outer : List Char}
    (houter : ∀ c ∈ outer, isBlank c = true) (vs : List Value) (rest : List Char) :
    EndsNumeral (itemsChars sp depth vs ++ (outer ++ ']' :: rest)) := by
  cases vs with
  | nil =>
    rw [itemsChars]
    exact (endsNumeral_delimiter (Or.inr (Or.inl rfl))).blanks_append houter
  | cons v vs =>
    rw [itemsChars]
    exact endsNumeral_delimiter (Or.inl rfl)

/-- Every item has at least its comma. -/
theorem length_le_itemsChars (sp : Spacing) (depth : Nat) (vs : List Value) :
    vs.length ≤ (itemsChars sp depth vs).length := by
  induction vs with
  | nil => exact Nat.zero_le _
  | cons v vs ih =>
    rw [itemsChars, List.length_cons, List.length_cons, List.length_append, List.length_append]
    omega

/-- The items behind the first. -/
theorem items_itemsChars (hsp : sp.IsBlank) {depth : Nat} {outer : List Char}
    (houter : ∀ c ∈ outer, isBlank c = true) (rest : List Char) {as : List α}
    (hread : ∀ a ∈ as, Reads read ((toJson a).chars sp depth) (result a)) :
    ∀ fuel, as.length < fuel →
      items read fuel false (itemsChars sp depth (as.map toJson) ++ (outer ++ ']' :: rest))
        = (as.mapM result).map fun bs => (bs, rest) := by
  induction as with
  | nil =>
    intro fuel hfuel
    obtain ⟨fuel, rfl⟩ := Nat.exists_eq_succ_of_ne_zero (Nat.ne_of_gt hfuel)
    rw [List.map_nil, itemsChars, List.nil_append, items, nextItem_end false houter]
    rfl
  | cons a as ih =>
    intro fuel hfuel
    obtain ⟨fuel, rfl⟩ := Nat.exists_eq_succ_of_ne_zero (Nat.ne_of_gt (Nat.zero_lt_of_lt hfuel))
    have hfirst := (hread a (List.mem_cons_self ..)).append
      (endsNumeral_itemsChars sp depth houter (as.map toJson) rest)
    have hothers := ih (fun b hb => hread b (List.mem_cons_of_mem a hb)) fuel (by simpa using hfuel)
    rw [List.map_cons, itemsChars, List.cons_append, List.append_assoc, List.append_assoc, items,
      nextItem_comma hsp]
    dsimp only [bind, Except.bind]
    rw [hfirst, List.mapM_cons]
    cases result a with
    | error f => rfl
    | ok b =>
      -- the item is read, and the others behind it
      dsimp only [Except.map, bind, Except.bind]
      rw [hothers]
      cases as.mapM result <;> rfl

/-- A list is read item by item. -/
theorem reads_list (hsp : sp.IsBlank) {depth : Nat} {as : List α}
    (hread : ∀ a ∈ as, Reads read ((toJson a).chars sp (depth + 1)) (result a)) :
    Reads (readList read) ((Value.array (as.map toJson)).chars sp depth) (as.mapM result) := by
  intro blanks rest hblanks _
  rw [readList, skipBlank_append hblanks, ← readList]
  cases as with
  | nil =>
    rw [List.map_nil, Value.chars]
    rfl
  | cons a as =>
    -- the reader has fuel for as many items as there are characters
    have houter := hsp.newline depth
    have hfirst := (hread a (List.mem_cons_self ..)).append
      (endsNumeral_itemsChars sp (depth + 1) houter (as.map toJson) rest)
    have hothers := items_itemsChars hsp houter rest
      (fun b hb => hread b (List.mem_cons_of_mem a hb))
    have htext : (Value.array ((a :: as).map toJson)).chars sp depth ++ rest
        = '[' :: (sp.newline (depth + 1) ++ ((toJson a).chars sp (depth + 1)
          ++ (itemsChars sp (depth + 1) (as.map toJson)
          ++ (sp.newline depth ++ ']' :: rest)))) := by
      simp [Value.chars]
    have hfuel := length_le_itemsChars sp (depth + 1) (as.map toJson)
    rw [List.length_map] at hfuel
    rw [htext, readList, skipBlank_cons rfl]
    show items read (_ + 1) true _ = _
    rw [items, nextItem_value (hsp.newline (depth + 1)) ((toJson a).isText_chars hsp (depth + 1))]
    dsimp only [bind, Except.bind]
    rw [hfirst, List.mapM_cons]
    cases result a with
    | error f => rfl
    | ok b =>
      dsimp only [Except.map, bind, Except.bind]
      rw [hothers _ (by simp only [List.length_append, List.length_cons]; omega)]
      cases as.mapM result <;> rfl

end

/-! ## Records -/

section

variable {σ α : Type} {sp : Spacing} {fields : List (Field σ)}

/-- What reading the members of an object makes of a draft, one member after the other. -/
inductive ReadsMembers (sp : Spacing) (depth : Nat) (fields : List (Field σ)) :
    σ → List (String × Value) → Except Fault σ → Prop
  | nil (s : σ) : ReadsMembers sp depth fields s [] (.ok s)
  | cons {s : σ} {k : String} {v : Value} {ms : List (String × Value)} {f : Field σ}
      {x : Except Fault σ} {next : σ → Except Fault σ} :
      fields.find? (·.name = k) = some f → f.filled s = false →
      Reads (f.read s) (v.chars sp depth) x →
      (∀ s', x = .ok s' → ReadsMembers sp depth fields s' ms (next s')) →
      ReadsMembers sp depth fields s ((k, v) :: ms) (x >>= next)

/-- A member that fills a slot of its own. -/
theorem ReadsMembers.slot {β : Type} {depth : Nat} {name : String} {get : σ → Option β}
    {set : σ → β → σ} {read : Reader β} {s : σ} {v : Value} {ms : List (String × Value)}
    {x : Except Fault β} {next : β → Except Fault σ}
    (hfind : fields.find? (·.name = name) = some (Field.slot name get set read))
    (hempty : get s = none) (hread : Reads read (v.chars sp depth) x)
    (hnext : ∀ b, x = .ok b → ReadsMembers sp depth fields (set s b) ms (next b)) :
    ReadsMembers sp depth fields s ((name, v) :: ms) (x >>= next) := by
  have hfilled : (Field.slot name get set read).filled s = false := by
    show (get s).isSome = false
    rw [hempty]
    rfl
  have hslot := reads_slot name get set s hread
  -- a fault leaves nothing to say about the members behind it
  cases x with
  | error e =>
    have hrest : ∀ s', (Except.error e).map (set s) = .ok s' →
        ReadsMembers sp depth fields s' ms (.error e) := fun s' hs' => nomatch hs'
    have h := ReadsMembers.cons hfind hfilled hslot hrest
    exact h
  | ok b =>
    have hrest : ∀ s', (Except.ok b : Except Fault β).map (set s) = .ok s' →
        ReadsMembers sp depth fields s' ms (next b) := by
      intro s' hs'
      obtain rfl := Except.ok.inj hs'
      exact hnext b rfl
    have h := ReadsMembers.cons hfind hfilled hslot hrest
    exact h

/-- The first member. -/
theorem nextKey_first (hsp : sp.IsBlank) (depth : Nat) (k : String) (text : List Char) :
    nextKey true (sp.newline depth ++ (stringText k ++ text))
      = .ok (true, k.toList.flatMap escapeChar ++ '"' :: text) := by
  have h := nextKey_quote (hsp.newline depth) (k.toList.flatMap escapeChar ++ '"' :: text)
  simpa [stringText] using h

/-- A member behind a comma. -/
theorem nextKey_comma (hsp : sp.IsBlank) (depth : Nat) (k : String) (text : List Char) :
    nextKey false (',' :: (sp.newline depth ++ (stringText k ++ text)))
      = .ok (true, k.toList.flatMap escapeChar ++ '"' :: text) := by
  have h := nextKey_comma_quote areBlank_nil (hsp.newline depth)
    (k.toList.flatMap escapeChar ++ '"' :: text)
  simpa [stringText] using h

/-- One member behind the quote of its key. -/
theorem members_step (hsp : sp.IsBlank) {depth : Nat} {s : σ} {k : String} {v : Value} {f : Field σ}
    {x : Except Fault σ} {first : Bool} {text rest : List Char}
    (hkey : nextKey first text
      = .ok (true, k.toList.flatMap escapeChar ++ '"' :: (sp.colon ++ (v.chars sp depth ++ rest))))
    (hfind : fields.find? (·.name = k) = some f) (hfilled : f.filled s = false)
    (hread : Reads (f.read s) (v.chars sp depth) x) (hrest : EndsNumeral rest) (fuel : Nat) :
    members fields (fuel + 1) first s text = x >>= fun s' => members fields fuel false s' rest := by
  obtain ⟨blanks, hcolon, hblanks⟩ := hsp.colon
  have hnext : nextKey first text = .ok (true, k.toList.flatMap escapeChar
      ++ '"' :: ([] ++ ':' :: (blanks ++ (v.chars sp depth ++ rest)))) := by
    rw [hkey, hcolon]
    rfl
  rw [members_of_nextKey hnext (denotes_escaped k.toList) areBlank_nil, String.ofList_toList, hfind]
  dsimp only
  rw [hfilled, if_neg Bool.false_ne_true, hread blanks rest hblanks hrest]
  cases x <;> rfl

theorem endsNumeral_membersChars (depth : Nat) {outer : List Char}
    (houter : ∀ c ∈ outer, isBlank c = true) (ms : List (String × Value)) (rest : List Char) :
    EndsNumeral (membersChars sp depth ms ++ (outer ++ '\x7d' :: rest)) := by
  cases ms with
  | nil =>
    rw [membersChars]
    exact (endsNumeral_delimiter (Or.inr (Or.inr rfl))).blanks_append houter
  | cons m ms =>
    rw [membersChars]
    exact endsNumeral_delimiter (Or.inl rfl)

/-- Every member has at least its comma. -/
theorem length_le_membersChars (sp : Spacing) (depth : Nat) (ms : List (String × Value)) :
    ms.length ≤ (membersChars sp depth ms).length := by
  induction ms with
  | nil => exact Nat.zero_le _
  | cons m ms ih =>
    rw [membersChars]
    simp only [List.length_cons, List.length_append]
    omega

/-- The members behind the first. -/
theorem members_membersChars (hsp : sp.IsBlank) {depth : Nat} {outer : List Char}
    (houter : ∀ c ∈ outer, isBlank c = true) (rest : List Char) {s : σ}
    {ms : List (String × Value)} {x : Except Fault σ}
    (h : ReadsMembers sp depth fields s ms x) :
    ∀ fuel, ms.length < fuel →
      members fields fuel false s (membersChars sp depth ms ++ (outer ++ '\x7d' :: rest))
        = x.map fun s => (s, rest) := by
  induction h with
  | nil s =>
    intro fuel hfuel
    obtain ⟨fuel, rfl⟩ := Nat.exists_eq_succ_of_ne_zero (Nat.ne_of_gt hfuel)
    rw [membersChars, List.nil_append, members, nextKey_end false houter]
    rfl
  | @cons s k v ms f x next hfind hfilled hread _ ih =>
    intro fuel hfuel
    obtain ⟨fuel, rfl⟩ := Nat.exists_eq_succ_of_ne_zero (Nat.ne_of_gt (Nat.zero_lt_of_lt hfuel))
    have hkey : nextKey false (membersChars sp depth ((k, v) :: ms) ++ (outer ++ '\x7d' :: rest))
        = .ok (true, k.toList.flatMap escapeChar ++ '"' :: (sp.colon ++ (v.chars sp depth
          ++ (membersChars sp depth ms ++ (outer ++ '\x7d' :: rest))))) := by
      rw [membersChars]
      simp only [List.cons_append, List.append_assoc]
      exact nextKey_comma hsp depth k _
    rw [members_step hsp hkey hfind hfilled hread (endsNumeral_membersChars depth houter ms rest)]
    cases x with
    | error e => rfl
    | ok s' => exact ih s' rfl fuel (by simpa using hfuel)

/-- A record is read member by member. -/
theorem reads_record (hsp : sp.IsBlank) {shape : RecordShape σ α} {depth : Nat}
    {ms : List (String × Value)} {x : Except Fault σ}
    (h : ReadsMembers sp (depth + 1) shape.fields shape.empty ms x) :
    Reads (readRecord shape) ((Value.object ms).chars sp depth)
      (x >>= fun s => complete (shape.ofObject s)) := by
  intro blanks rest hblanks _
  rw [readRecord, skipBlank_append hblanks, ← readRecord]
  have houter := hsp.newline depth
  cases h with
  | nil s =>
    have hend : nextKey true ('\x7d' :: rest) = .ok (false, rest) :=
      nextKey_end true areBlank_nil rest
    rw [Value.chars, List.cons_append, readRecord_object, List.cons_append, List.nil_append,
      members, hend]
    show (complete (shape.ofObject shape.empty)).bind _
      = (complete (shape.ofObject shape.empty)).map _
    cases complete (shape.ofObject shape.empty) <;> rfl
  | @cons _ k v ms f x next hfind hfilled hread hnext =>
    have htext : (Value.object ((k, v) :: ms)).chars sp depth ++ rest
        = '\x7b' :: (sp.newline (depth + 1) ++ (stringText k ++ (sp.colon ++ (v.chars sp (depth + 1)
          ++ (membersChars sp (depth + 1) ms ++ (sp.newline depth ++ '\x7d' :: rest)))))) := by
      simp [Value.chars]
    have hfuel := length_le_membersChars sp (depth + 1) ms
    rw [htext, readRecord_object, members_step hsp (nextKey_first hsp (depth + 1) k _) hfind
      hfilled hread (endsNumeral_membersChars (depth + 1) houter ms rest)]
    cases x with
    | error e => rfl
    | ok s' =>
      dsimp only [bind, Except.bind]
      rw [members_membersChars hsp houter rest (hnext s' rfl) _
        (by simp only [List.length_append, List.length_cons]; omega)]
      cases next s' <;> rfl

end

/-! ## Optional values -/

section

variable {α : Type} {read : Reader α}

/-- A value that is absent. -/
theorem reads_null : Reads (readOption read) ['n', 'u', 'l', 'l'] (.ok none) := by
  intro blanks rest hblanks _
  rw [readOption, skipBlank_append hblanks]
  rfl

/-- A value that is there, and does not begin as `null` does. -/
theorem Reads.some {c : Char} {cs : List Char} {x : Except Fault α} (h : Reads read (c :: cs) x)
    (hblank : Json.isBlank c = false) (hnull : c ≠ 'n') :
    Reads (readOption read) (c :: cs) (x.map Option.some) := by
  intro blanks rest hblanks hrest
  have hread := h.append hrest
  rw [List.cons_append] at hread
  rw [readOption, skipBlank_append hblanks, List.cons_append, skipBlank_cons hblank]
  split
  · rename_i heq
    exact absurd (List.cons.inj heq).1 hnull
  · rw [hread]
    cases x <;> rfl

end

end TriggerLatency.Json
