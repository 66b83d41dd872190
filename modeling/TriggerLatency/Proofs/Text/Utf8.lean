import TriggerLatency.Text.Utf8

/-!
# Decoding what was encoded

The bytes of a text decode to that text (`decode?_encode`). A character takes one to four
bytes; whatever their number, the decoder that stands between sequences reads them into that one
character and stands between sequences again (`completes_utf8EncodeChar`), so a text is read
character by character.

Nothing else decodes (`decode?_eq_some_iff`): a decoder that stands between sequences and reads
its bytes to their end without a malformed piece has those of a character in front of it
(`Decodes.beginsWithChar`). The ranges of the second byte are what makes that so.
-/

namespace TriggerLatency.Text.Utf8

/-- From a state of the decoder some bytes complete one character, and nothing is open behind
them. -/
def Completes (state : Option Partial) (bytes : List UInt8) (c : Char) : Prop :=
  (Transducer.run step state bytes).1.flatten = [some c]
    ∧ (Transducer.run step state bytes).2 = none

variable {state : Option Partial} {bytes : List UInt8} {c : Char} {n k : Nat}

/-- A byte that gives no piece leaves the character to those behind it. -/
theorem Completes.cons {b : UInt8} {next : Option Partial} (hstep : step state b = ([], next))
    (h : Completes next bytes c) : Completes state (b :: bytes) c := by
  unfold Completes
  rw [Transducer.run_cons, hstep]
  exact h

/-- A byte that gives the character. -/
theorem completes_singleton {b : UInt8} (hstep : step state b = ([some c], none)) :
    Completes state [b] c := by
  unfold Completes
  rw [Transducer.run_cons, hstep]
  exact ⟨rfl, rfl⟩

/-! ## Lead bytes -/

theorem lead_one : ∀ n < 128, lead (UInt8.ofNat n) = ([some (Char.ofNat n)], none) := by
  decide +kernel

theorem lead_two : ∀ n < 224, 194 ≤ n →
    lead (UInt8.ofNat n) = ([], some ⟨1, 0x80, 0xBF, n % 32⟩) := by
  decide +kernel

theorem lead_three : ∀ n < 240, 224 ≤ n → lead (UInt8.ofNat n)
    = ([], some ⟨2, if n = 224 then 0xA0 else 0x80, if n = 237 then 0x9F else 0xBF, n % 16⟩) := by
  decide +kernel

theorem lead_four : ∀ n < 245, 240 ≤ n → lead (UInt8.ofNat n)
    = ([], some ⟨3, if n = 240 then 0x90 else 0x80, if n = 244 then 0x8F else 0xBF, n % 8⟩) := by
  decide +kernel

theorem lead_malformed : ∀ n < 256, 128 ≤ n ∧ n < 194 ∨ 245 ≤ n →
    lead (UInt8.ofNat n) = ([none], none) := by
  decide +kernel

/-! ## Continuation bytes -/

/-- The value of a continuation byte. -/
private theorem toNat_continuation (k : Nat) :
    (UInt8.ofNat (k % 64 + 128)).toNat = k % 64 + 128 := by
  rw [UInt8.toNat_ofNat']
  omega

/-- A continuation byte in the range of an open sequence adds its six bits. -/
theorem step_continuation {p : Partial} (hlow : p.low.toNat ≤ k % 64 + 128)
    (hhigh : k % 64 + 128 ≤ p.high.toNat) :
    step (some p) (UInt8.ofNat (k % 64 + 128))
      = if p.owed ≤ 1 then ([some (Char.ofNat (p.bits * 64 + k % 64))], none)
        else ([], some ⟨p.owed - 1, 0x80, 0xBF, p.bits * 64 + k % 64⟩) := by
  have hvalue := toNat_continuation k
  have hrange : (p.low ≤ UInt8.ofNat (k % 64 + 128) && UInt8.ofNat (k % 64 + 128) ≤ p.high)
      = true := by
    simp only [Bool.and_eq_true, decide_eq_true_eq, UInt8.le_iff_toNat_le, hvalue]
    exact ⟨hlow, hhigh⟩
  have hbits : (k % 64 + 128) % 64 = k % 64 := by omega
  rw [step, if_pos hrange, hvalue, hbits]

/-- The second of several bytes must lie in the range that the first one gave. -/
theorem completes_second {owed bits : Nat} {low high : UInt8} (howed : 1 < owed)
    (hlow : low.toNat ≤ k % 64 + 128) (hhigh : k % 64 + 128 ≤ high.toNat)
    (h : Completes (some ⟨owed - 1, 0x80, 0xBF, bits * 64 + k % 64⟩) bytes c) :
    Completes (some ⟨owed, low, high, bits⟩) (UInt8.ofNat (k % 64 + 128) :: bytes) c := by
  refine Completes.cons ?_ h
  rw [step_continuation hlow hhigh, if_neg (Nat.not_le.mpr howed)]

/-- The range of all others takes every continuation byte. -/
private theorem continuation_mem_range (k : Nat) :
    (0x80 : UInt8).toNat ≤ k % 64 + 128 ∧ k % 64 + 128 ≤ (0xBF : UInt8).toNat := by
  show 128 ≤ _ ∧ _ ≤ 191
  omega

theorem completes_middle {owed bits : Nat} (howed : 1 < owed)
    (h : Completes (some ⟨owed - 1, 0x80, 0xBF, bits * 64 + k % 64⟩) bytes c) :
    Completes (some ⟨owed, 0x80, 0xBF, bits⟩) (UInt8.ofNat (k % 64 + 128) :: bytes) c :=
  completes_second howed (continuation_mem_range k).1 (continuation_mem_range k).2 h

/-- The last byte gives the character. -/
theorem completes_last {bits : Nat} (hc : Char.ofNat (bits * 64 + k % 64) = c) :
    Completes (some ⟨1, 0x80, 0xBF, bits⟩) [UInt8.ofNat (k % 64 + 128)] c := by
  refine completes_singleton ?_
  rw [step_continuation (continuation_mem_range k).1 (continuation_mem_range k).2,
    if_pos (Nat.le_refl 1), hc]

/-! ## Characters -/

variable {v : Nat}

theorem completes_two (hlow : 0x80 ≤ v) (hhigh : v < 0x800) (hc : Char.ofNat v = c) :
    Completes none [UInt8.ofNat (v / 64 % 32 + 192), UInt8.ofNat (v % 64 + 128)] c := by
  have hvalue : (v / 64 % 32 + 192) % 32 * 64 + v % 64 = v := by omega
  refine Completes.cons (lead_two _ (by omega) (by omega)) (completes_last ?_)
  rw [hvalue, hc]

/-- The range of the second byte keeps out no character: less than that takes two bytes, and the
surrogates are none. -/
theorem completes_three (hlow : 0x800 ≤ v) (hhigh : v < 0x10000)
    (hvalid : v < 0xD800 ∨ 0xDFFF < v) (hc : Char.ofNat v = c) :
    Completes none [UInt8.ofNat (v / 4096 % 16 + 224), UInt8.ofNat (v / 64 % 64 + 128),
      UInt8.ofNat (v % 64 + 128)] c := by
  have hvalue : ((v / 4096 % 16 + 224) % 16 * 64 + v / 64 % 64) * 64 + v % 64 = v := by omega
  refine Completes.cons (lead_three _ (by omega) (by omega))
    (completes_second Nat.one_lt_two ?_ ?_ (completes_last ?_))
  · split
    · show 160 ≤ _
      omega
    · exact (continuation_mem_range _).1
  · split
    · show _ ≤ 159
      omega
    · exact (continuation_mem_range _).2
  · rw [hvalue, hc]

/-- Nor does it here: less than that takes three bytes, and beyond U+10FFFF there is nothing. -/
theorem completes_four (hlow : 0x10000 ≤ v) (hhigh : v < 0x110000) (hc : Char.ofNat v = c) :
    Completes none [UInt8.ofNat (v / 262144 % 8 + 240), UInt8.ofNat (v / 4096 % 64 + 128),
      UInt8.ofNat (v / 64 % 64 + 128), UInt8.ofNat (v % 64 + 128)] c := by
  have hvalue : (((v / 262144 % 8 + 240) % 8 * 64 + v / 4096 % 64) * 64 + v / 64 % 64) * 64
      + v % 64 = v := by
    omega
  refine Completes.cons (lead_four _ (by omega) (by omega))
    (completes_second (by omega) ?_ ?_ (completes_middle Nat.one_lt_two (completes_last ?_)))
  · split
    · show 144 ≤ _
      omega
    · exact (continuation_mem_range _).1
  · split
    · show _ ≤ 143
      omega
    · exact (continuation_mem_range _).2
  · rw [hvalue, hc]

/-- The bytes of a character complete it. -/
theorem completes_utf8EncodeChar (c : Char) : Completes none (String.utf8EncodeChar c) c := by
  have hc : Char.ofNat c.val.toNat = c := Char.ofNat_toNat c
  have hvalid : c.val.toNat < 0xD800 ∨ 0xDFFF < c.val.toNat ∧ c.val.toNat < 0x110000 := c.valid
  unfold String.utf8EncodeChar
  dsimp only
  generalize c.val.toNat = v at hc hvalid ⊢
  split
  · refine completes_singleton ?_
    rw [step, lead_one v (by omega), hc]
  split
  · exact completes_two (by omega) (by omega) hc
  split
  · exact completes_three (by omega) (by omega) (by omega) hc
  · exact completes_four (by omega) (by omega) hc

/-! ## Texts -/

theorem encode_eq_flatMap (text : String) :
    encode text = text.toList.flatMap String.utf8EncodeChar := by
  show text.toByteArray.data.toList = _
  rw [← String.utf8Encode_toList, List.utf8Encode, List.toList_data_toByteArray]

/-- Characters are read one behind the other, and nothing is open behind them. -/
theorem run_flatMap (cs : List Char) :
    (Transducer.run step none (cs.flatMap String.utf8EncodeChar)).1.flatten = cs.map some
    ∧ (Transducer.run step none (cs.flatMap String.utf8EncodeChar)).2 = none := by
  induction cs with
  | nil => exact ⟨rfl, rfl⟩
  | cons c cs ih =>
    obtain ⟨hout, hstate⟩ := completes_utf8EncodeChar c
    rw [List.flatMap_cons, Transducer.run_append, hstate, List.flatten_append, hout]
    exact ⟨congrArg (some c :: ·) ih.1, ih.2⟩

/-- The pieces of an encoded text are its characters. -/
theorem pieces_flatMap (cs : List Char) :
    pieces (cs.flatMap String.utf8EncodeChar) = cs.map some := by
  obtain ⟨hout, hstate⟩ := run_flatMap cs
  unfold pieces
  dsimp only
  rw [hout, hstate, finish, List.append_nil]

/-- A text reads as itself. -/
theorem decode?_encode (text : String) : decode? (encode text) = some text.toList := by
  rw [decode?, encode_eq_flatMap, pieces_flatMap]
  generalize text.toList = cs
  induction cs with
  | nil => rfl
  | cons c cs ih => simp [List.mapM_cons, ih]

theorem encode_injective {text text' : String} (h : encode text = encode text') : text = text' := by
  have hdecoded := decode?_encode text
  rw [h, decode?_encode] at hdecoded
  exact String.toList_inj.mp (Option.some.inj hdecoded).symm

/-! ## Only texts -/

/-- A decoder in some state reads bytes to their end, and gives characters and nothing else. -/
def Decodes (state : Option Partial) (bytes : List UInt8) (cs : List Char) : Prop :=
  ((Transducer.run step state bytes).1.flatten
    ++ finish (Transducer.run step state bytes).2).mapM id = some cs

variable {b : UInt8} {next : Option Partial} {cs : List Char}

/-- A byte that gives no piece. -/
theorem decodes_cons_of_silent (hstep : step state b = ([], next)) :
    Decodes state (b :: bytes) cs ↔ Decodes next bytes cs := by
  unfold Decodes
  rw [Transducer.run_cons, hstep]
  rfl

/-- A byte that gives a character. -/
theorem decodes_cons_of_char (hstep : step state b = ([some c], next)) :
    Decodes state (b :: bytes) cs ↔ ∃ cs', cs = c :: cs' ∧ Decodes next bytes cs' := by
  have hpieces (ps : List Piece) :
      (some c :: ps).mapM id = some cs ↔ ∃ cs', cs = c :: cs' ∧ ps.mapM id = some cs' := by
    rw [List.mapM_cons]
    cases ps.mapM id with
    | none => simp
    | some cs' => simp [eq_comm]
  unfold Decodes
  rw [Transducer.run_cons, hstep]
  exact hpieces _

/-- A byte that gives a malformed piece. -/
theorem not_decodes_cons_of_malformed {ps : List Piece}
    (hstep : step state b = (none :: ps, next)) : ¬ Decodes state (b :: bytes) cs := by
  unfold Decodes
  rw [Transducer.run_cons, hstep]
  simp [List.mapM_cons]

/-- At the end of the bytes no sequence may be open. -/
theorem decodes_nil_iff : Decodes state [] cs ↔ state = none ∧ cs = [] := by
  cases state with
  | none => simp [Decodes, finish, eq_comm]
  | some p => simp [Decodes, finish, List.mapM_cons]

/-- An open sequence goes on with a byte in its range. -/
theorem Decodes.exists_continuation {owed bits : Nat} {low high : UInt8}
    (h : Decodes (some ⟨owed, low, high, bits⟩) bytes cs) :
    ∃ b rest, bytes = b :: rest ∧ low.toNat ≤ b.toNat ∧ b.toNat ≤ high.toNat
      ∧ if owed ≤ 1 then
          ∃ cs', cs = Char.ofNat (bits * 64 + b.toNat % 64) :: cs' ∧ Decodes none rest cs'
        else Decodes (some ⟨owed - 1, 0x80, 0xBF, bits * 64 + b.toNat % 64⟩) rest cs := by
  cases bytes with
  | nil => exact nomatch (decodes_nil_iff.mp h).1
  | cons b rest =>
    -- what is out of range makes the bytes malformed
    by_cases hrange : (low ≤ b && b ≤ high) = true
    · have hbounds : low.toNat ≤ b.toNat ∧ b.toNat ≤ high.toNat := by
        simpa [UInt8.le_iff_toNat_le] using hrange
      refine ⟨b, rest, rfl, hbounds.1, hbounds.2, ?_⟩
      by_cases howed : owed ≤ 1
      · rw [if_pos howed]
        refine (decodes_cons_of_char ?_).mp h
        rw [step, if_pos hrange]
        dsimp only
        rw [if_pos howed]
      · rw [if_neg howed]
        refine (decodes_cons_of_silent ?_).mp h
        rw [step, if_pos hrange]
        dsimp only
        rw [if_neg howed]
    · have hmalformed :
          step (some ⟨owed, low, high, bits⟩) b = (none :: (lead b).1, (lead b).2) := by
        rw [step, if_neg hrange]
      exact absurd h (not_decodes_cons_of_malformed hmalformed)

/-- The bytes of a character, by its number. -/
theorem utf8EncodeChar_ofNat (hvalid : v.isValidChar) :
    String.utf8EncodeChar (Char.ofNat v) =
      if v ≤ 0x7F then [UInt8.ofNat v]
      else if v ≤ 0x7FF then [UInt8.ofNat (v / 64 % 32 + 192), UInt8.ofNat (v % 64 + 128)]
      else if v ≤ 0xFFFF then
        [UInt8.ofNat (v / 4096 % 16 + 224), UInt8.ofNat (v / 64 % 64 + 128),
          UInt8.ofNat (v % 64 + 128)]
      else
        [UInt8.ofNat (v / 262144 % 8 + 240), UInt8.ofNat (v / 4096 % 64 + 128),
          UInt8.ofNat (v / 64 % 64 + 128), UInt8.ofNat (v % 64 + 128)] := by
  have hv : (Char.ofNat v).val.toNat = v := by
    rw [Char.ofNat, dif_pos hvalid]
    rfl
  unfold String.utf8EncodeChar
  rw [hv]

private theorem ofNat_eq_of_toNat {n : Nat} (h : n = b.toNat) : UInt8.ofNat n = b := by
  rw [h, UInt8.ofNat_toNat]

/-- The bytes of a character come first, and what is behind them decodes to the other characters. -/
def BeginsWithChar (bytes : List UInt8) (cs : List Char) : Prop :=
  ∃ c rest cs', bytes = String.utf8EncodeChar c ++ rest ∧ cs = c :: cs' ∧ Decodes none rest cs'

/-- What stands behind a lead byte of two. -/
theorem Decodes.beginsWithChar_two (hlow : 194 ≤ b.toNat) (hhigh : b.toNat < 224)
    (h : Decodes (some ⟨1, 0x80, 0xBF, b.toNat % 32⟩) bytes cs) :
    BeginsWithChar (b :: bytes) cs := by
  obtain ⟨b₂, rest, rfl, hlow₂, hhigh₂, hnext⟩ := h.exists_continuation
  obtain ⟨cs', rfl, hrest⟩ := hnext
  refine ⟨_, rest, cs', ?_, rfl, hrest⟩
  have hrange₂ : 128 ≤ b₂.toNat ∧ b₂.toNat ≤ 191 := ⟨hlow₂, hhigh₂⟩
  rw [utf8EncodeChar_ofNat (Or.inl (by omega)), if_neg (by omega), if_pos (by omega),
    ofNat_eq_of_toNat (b := b) (by omega), ofNat_eq_of_toNat (b := b₂) (by omega)]
  rfl

/-- What stands behind a lead byte of three. -/
theorem Decodes.beginsWithChar_three (hlow : 224 ≤ b.toNat) (hhigh : b.toNat < 240)
    (h : Decodes (some ⟨2, if b.toNat = 224 then 0xA0 else 0x80,
      if b.toNat = 237 then 0x9F else 0xBF, b.toNat % 16⟩) bytes cs) :
    BeginsWithChar (b :: bytes) cs := by
  obtain ⟨b₂, rest₂, rfl, hlow₂, hhigh₂, hnext⟩ := h.exists_continuation
  obtain ⟨b₃, rest, rfl, hlow₃, hhigh₃, hnext⟩ := Decodes.exists_continuation hnext
  obtain ⟨cs', rfl, hrest⟩ := hnext
  refine ⟨_, rest, cs', ?_, rfl, hrest⟩
  -- the range of the second byte keeps out what takes two bytes, and the surrogates
  have hrange₂ : 128 ≤ b₂.toNat ∧ b₂.toNat ≤ 191 ∧ (b.toNat = 224 → 160 ≤ b₂.toNat)
      ∧ (b.toNat = 237 → b₂.toNat ≤ 159) := by
    simp only [apply_ite UInt8.toNat, UInt8.reduceToNat] at hlow₂ hhigh₂
    split at hlow₂ <;> split at hhigh₂ <;> omega
  have hrange₃ : 128 ≤ b₃.toNat ∧ b₃.toNat ≤ 191 := ⟨hlow₃, hhigh₃⟩
  have hvalid : ((b.toNat % 16 * 64 + b₂.toNat % 64) * 64 + b₃.toNat % 64).isValidChar := by
    by_cases hsurrogate : b.toNat ≤ 237
    · exact Or.inl (by omega)
    · exact Or.inr (by omega)
  rw [utf8EncodeChar_ofNat hvalid, if_neg (by omega), if_neg (by omega), if_pos (by omega),
    ofNat_eq_of_toNat (b := b) (by omega), ofNat_eq_of_toNat (b := b₂) (by omega),
    ofNat_eq_of_toNat (b := b₃) (by omega)]
  rfl

/-- What stands behind a lead byte of four. -/
theorem Decodes.beginsWithChar_four (hlow : 240 ≤ b.toNat) (hhigh : b.toNat < 245)
    (h : Decodes (some ⟨3, if b.toNat = 240 then 0x90 else 0x80,
      if b.toNat = 244 then 0x8F else 0xBF, b.toNat % 8⟩) bytes cs) :
    BeginsWithChar (b :: bytes) cs := by
  obtain ⟨b₂, rest₂, rfl, hlow₂, hhigh₂, hnext⟩ := h.exists_continuation
  obtain ⟨b₃, rest₃, rfl, hlow₃, hhigh₃, hnext⟩ := Decodes.exists_continuation hnext
  obtain ⟨b₄, rest, rfl, hlow₄, hhigh₄, hnext⟩ := Decodes.exists_continuation hnext
  obtain ⟨cs', rfl, hrest⟩ := hnext
  refine ⟨_, rest, cs', ?_, rfl, hrest⟩
  -- the range of the second byte keeps out what takes three bytes, and what is no character
  have hrange₂ : 128 ≤ b₂.toNat ∧ b₂.toNat ≤ 191 ∧ (b.toNat = 240 → 144 ≤ b₂.toNat)
      ∧ (b.toNat = 244 → b₂.toNat ≤ 143) := by
    simp only [apply_ite UInt8.toNat, UInt8.reduceToNat] at hlow₂ hhigh₂
    split at hlow₂ <;> split at hhigh₂ <;> omega
  have hrange₃ : 128 ≤ b₃.toNat ∧ b₃.toNat ≤ 191 := ⟨hlow₃, hhigh₃⟩
  have hrange₄ : 128 ≤ b₄.toNat ∧ b₄.toNat ≤ 191 := ⟨hlow₄, hhigh₄⟩
  rw [utf8EncodeChar_ofNat (Or.inr (by omega)), if_neg (by omega), if_neg (by omega),
    if_neg (by omega), ofNat_eq_of_toNat (b := b) (by omega),
    ofNat_eq_of_toNat (b := b₂) (by omega), ofNat_eq_of_toNat (b := b₃) (by omega),
    ofNat_eq_of_toNat (b := b₄) (by omega)]
  rfl

/-- Bytes that decode begin with those of a character. -/
theorem Decodes.beginsWithChar (h : Decodes none (b :: bytes) cs) :
    BeginsWithChar (b :: bytes) cs := by
  have hlead : step none b = lead (UInt8.ofNat b.toNat) := by
    rw [UInt8.ofNat_toNat]
    rfl
  by_cases hmalformed : 128 ≤ b.toNat ∧ b.toNat < 194 ∨ 245 ≤ b.toNat
  · rw [lead_malformed b.toNat b.toNat_lt hmalformed] at hlead
    exact absurd h (not_decodes_cons_of_malformed hlead)
  -- the lead byte tells how many bytes belong to the character
  by_cases hone : b.toNat < 128
  · rw [lead_one b.toNat hone] at hlead
    obtain ⟨cs', rfl, hrest⟩ := (decodes_cons_of_char hlead).mp h
    refine ⟨_, bytes, cs', ?_, rfl, hrest⟩
    rw [utf8EncodeChar_ofNat (Or.inl (by omega)), if_pos (by omega), UInt8.ofNat_toNat]
    rfl
  by_cases htwo : b.toNat < 224
  · rw [lead_two b.toNat htwo (by omega)] at hlead
    exact beginsWithChar_two (by omega) htwo ((decodes_cons_of_silent hlead).mp h)
  by_cases hthree : b.toNat < 240
  · rw [lead_three b.toNat hthree (by omega)] at hlead
    exact beginsWithChar_three (by omega) hthree ((decodes_cons_of_silent hlead).mp h)
  · rw [lead_four b.toNat (by omega) (by omega)] at hlead
    exact beginsWithChar_four (by omega) (by omega) ((decodes_cons_of_silent hlead).mp h)

/-- Bytes that decode are those of the characters that they decode to. -/
theorem Decodes.eq_flatMap (h : Decodes none bytes cs) :
    bytes = cs.flatMap String.utf8EncodeChar := by
  induction hn : bytes.length using Nat.strongRecOn generalizing bytes cs with
  | ind n ih =>
    cases bytes with
    | nil =>
      obtain rfl := (decodes_nil_iff.mp h).2
      rfl
    | cons b bytes =>
      obtain ⟨c, rest, cs', hbytes, rfl, hrest⟩ := h.beginsWithChar
      have hshorter : rest.length < n := by
        have hlength := congrArg List.length hbytes
        have hpos := String.length_utf8EncodeChar c ▸ Char.utf8Size_pos c
        rw [List.length_append] at hlength
        omega
      rw [hbytes, List.flatMap_cons, ← ih rest.length hshorter hrest rfl]

/-- What decodes to some characters is their encoding, and nothing else. -/
theorem decode?_eq_some_iff : decode? bytes = some cs ↔ bytes = encode (String.ofList cs) := by
  constructor
  · intro h
    rw [encode_eq_flatMap, String.toList_ofList]
    exact Decodes.eq_flatMap h
  · intro h
    rw [h, decode?_encode, String.toList_ofList]

theorem decode?_eq_none_iff : decode? bytes = none ↔ ∀ text : String, bytes ≠ encode text := by
  rw [Option.eq_none_iff_forall_ne_some]
  constructor
  · intro h text htext
    exact h text.toList (by rw [htext, decode?_encode])
  · intro h cs hcs
    exact h (String.ofList cs) (decode?_eq_some_iff.mp hcs)

end TriggerLatency.Text.Utf8
