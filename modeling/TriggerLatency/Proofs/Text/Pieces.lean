import TriggerLatency.Proofs.Text.Utf8
import Mathlib.Data.List.Induction

/-!
# Where bytes can be cut

Bytes are decoded part by part where the decoder stands between two sequences: behind a text
(`pieces_encode_append`), and in front of every ASCII byte, which ends what stands before it,
finished or not (`pieces_ascii`). So bytes with an ASCII separator decode to what its fields decode
to, malformed stretches included.

What is decoded as a character stands in the bytes as its encoding
(`utf8EncodeChar_infix_of_mem_pieces`), so an ASCII character is not decoded out of other bytes.
-/

namespace TriggerLatency.Text.Utf8

variable {state : Option Partial} {bytes xs ys : List UInt8} {b : UInt8} {c : Char}

/-- Bytes behind which no sequence is open are decoded by themselves. -/
theorem pieces_append (h : (Transducer.run step none xs).2 = none) :
    pieces (xs ++ ys) = pieces xs ++ pieces ys := by
  unfold pieces
  dsimp only
  rw [Transducer.run_append, h, List.flatten_append, finish, List.append_nil, List.append_assoc]

/-- What stands behind a text is decoded by itself. -/
theorem pieces_encode_append (text : String) (ys : List UInt8) :
    pieces (encode text ++ ys) = text.toList.map some ++ pieces ys := by
  rw [encode_eq_flatMap, pieces_append (run_flatMap text.toList).2, pieces_flatMap]

/-! ## Steps -/

/-- A byte between sequences is a character, malformed, or the beginning of a sequence that goes on
with a byte that is not ASCII. -/
theorem lead_cases (b : UInt8) :
    (∃ c, lead b = ([some c], none)) ∨ lead b = ([none], none)
    ∨ ∃ p, lead b = ([], some p) ∧ 0x80 ≤ p.low := by
  obtain ⟨n, hn, rfl⟩ : ∃ n < 256, b = UInt8.ofNat n :=
    ⟨b.toNat, b.toNat_lt, UInt8.ofNat_toNat.symm⟩
  by_cases hone : n < 128
  · exact Or.inl ⟨_, lead_one n hone⟩
  by_cases hmalformed : n < 194 ∨ 245 ≤ n
  · exact Or.inr (Or.inl (lead_malformed n hn (by omega)))
  refine Or.inr (Or.inr ?_)
  by_cases htwo : n < 224
  · exact ⟨_, lead_two n htwo (by omega), UInt8.le_refl _⟩
  by_cases hthree : n < 240
  · refine ⟨_, lead_three n hthree (by omega), ?_⟩
    dsimp only
    split <;> decide
  · refine ⟨_, lead_four n (by omega) (by omega), ?_⟩
    dsimp only
    split <;> decide

/-- A byte completes a sequence, goes on with one, or is read anew. -/
theorem step_cases (state : Option Partial) (b : UInt8) :
    (∃ c, step state b = ([some c], none)) ∨ (∃ p, step state b = ([], some p) ∧ 0x80 ≤ p.low)
    ∨ step state b = (finish state ++ (lead b).1, (lead b).2) := by
  cases state with
  | none => exact Or.inr (Or.inr rfl)
  | some p =>
    unfold step
    dsimp only
    split
    · split
      · exact Or.inl ⟨_, rfl⟩
      · exact Or.inr (Or.inl ⟨_, rfl, UInt8.le_refl _⟩)
    · exact Or.inr (Or.inr rfl)

/-! ## ASCII bytes -/

/-- A sequence goes on with bytes that are not ASCII. -/
def NeedsContinuation (state : Option Partial) : Prop := ∀ p, state = some p → 0x80 ≤ p.low

theorem needsContinuation_none : NeedsContinuation none := fun _ h => nomatch h

theorem needsContinuation_some {p : Partial} (h : 0x80 ≤ p.low) : NeedsContinuation (some p) := by
  intro q hq
  rwa [← Option.some.inj hq]

theorem needsContinuation_step (state : Option Partial) (b : UInt8) :
    NeedsContinuation (step state b).2 := by
  rcases step_cases state b with ⟨c, hstep⟩ | ⟨p, hstep, hp⟩ | hstep
  · rw [hstep]
    exact needsContinuation_none
  · rw [hstep]
    exact needsContinuation_some hp
  · rw [hstep]
    rcases lead_cases b with ⟨c, hlead⟩ | hlead | ⟨p, hlead, hp⟩
    · rw [hlead]
      exact needsContinuation_none
    · rw [hlead]
      exact needsContinuation_none
    · rw [hlead]
      exact needsContinuation_some hp

theorem needsContinuation_run (bytes : List UInt8) :
    NeedsContinuation (Transducer.run step none bytes).2 := by
  induction bytes using List.reverseRecOn with
  | nil => exact needsContinuation_none
  | append_singleton bytes b _ =>
    rw [Transducer.run_append]
    exact needsContinuation_step _ b

/-- An ASCII byte ends the sequence that is open, and is a character. -/
theorem step_ascii (hb : b < 0x80) (h : NeedsContinuation state) :
    step state b = (finish state ++ [some (Char.ofNat b.toNat)], none) := by
  have hlead : lead b = ([some (Char.ofNat b.toNat)], none) := if_pos hb
  cases state with
  | none => exact hlead
  | some p =>
    have hlow : ¬ p.low ≤ b := fun hle => UInt8.not_lt.mpr (UInt8.le_trans (h p rfl) hle) hb
    rw [step, if_neg (by simp [hlow]), hlead]
    rfl

theorem pieces_concat_ascii (hb : b < 0x80) (xs : List UInt8) :
    pieces (xs ++ [b]) = pieces xs ++ [some (Char.ofNat b.toNat)]
    ∧ (Transducer.run step none (xs ++ [b])).2 = none := by
  have hstep := step_ascii hb (needsContinuation_run xs)
  unfold pieces
  dsimp only
  rw [Transducer.run_append, Transducer.run_cons, hstep]
  refine ⟨?_, rfl⟩
  simp [finish]

/-- At an ASCII byte the decoding falls into two parts. -/
theorem pieces_ascii (hb : b < 0x80) (xs ys : List UInt8) :
    pieces (xs ++ b :: ys) = pieces xs ++ some (Char.ofNat b.toNat) :: pieces ys := by
  obtain ⟨hpieces, hclosed⟩ := pieces_concat_ascii hb xs
  rw [List.append_cons, pieces_append hclosed, hpieces, List.append_assoc, List.singleton_append]

theorem decodeLossy_ascii (hb : b < 0x80) (xs ys : List UInt8) :
    decodeLossy (xs ++ b :: ys) = decodeLossy xs ++ Char.ofNat b.toNat :: decodeLossy ys := by
  unfold decodeLossy
  rw [pieces_ascii hb, List.map_append, List.map_cons]
  rfl

/-- Fields that are joined by an ASCII byte are decoded one by one. -/
theorem decodeLossy_intercalate (hb : b < 0x80) (fields : List (List UInt8)) :
    decodeLossy ([b].intercalate fields)
      = [Char.ofNat b.toNat].intercalate (fields.map decodeLossy) := by
  induction fields with
  | nil => rfl
  | cons field fields ih =>
    by_cases hlast : fields = []
    · rw [hlast, List.map_singleton, List.intercalate_singleton, List.intercalate_singleton]
    · have hmap : fields.map decodeLossy ≠ [] := fun h => hlast (List.map_eq_nil_iff.mp h)
      rw [List.intercalate_cons_of_ne_nil hlast, List.map_cons,
        List.intercalate_cons_of_ne_nil hmap, List.append_assoc, List.append_assoc,
        List.singleton_append, List.singleton_append, decodeLossy_ascii hb, ih]

theorem mem_decodeLossy_of_ascii (hb : b < 0x80) (h : b ∈ bytes) :
    Char.ofNat b.toNat ∈ decodeLossy bytes := by
  obtain ⟨xs, ys, rfl⟩ := List.append_of_mem h
  rw [decodeLossy_ascii hb]
  exact List.mem_append_right _ (List.mem_cons_self ..)

theorem decodeLossy_encode_append (text : String) (ys : List UInt8) :
    decodeLossy (encode text ++ ys) = text.toList ++ decodeLossy ys := by
  unfold decodeLossy
  rw [pieces_encode_append, List.map_append, List.map_map]
  exact congrArg (· ++ _) (List.map_id text.toList)

theorem encode_append (text more : String) :
    encode (text ++ more) = encode text ++ encode more := by
  rw [encode_eq_flatMap, encode_eq_flatMap, encode_eq_flatMap, String.toList_append,
    List.flatMap_append]

theorem decodeLossy_encode (text : String) : decodeLossy (encode text) = text.toList := by
  have hdecoded := decodeLossy_encode_append text []
  rwa [List.append_nil, show decodeLossy [] = [] from rfl, List.append_nil] at hdecoded

/-! ## Texts -/

/-- Bytes that encode a text. -/
def IsText (bytes : List UInt8) : Prop := ∃ text : String, bytes = encode text

theorem mapM_id_eq_some_iff {ps : List Piece} {cs : List Char} :
    ps.mapM id = some cs ↔ ps = cs.map some := by
  induction ps generalizing cs with
  | nil => cases cs <;> simp
  | cons p ps ih =>
    rw [List.mapM_cons]
    cases cs with
    | nil => simp [Option.bind_eq_some_iff]
    | cons d ds =>
      rw [List.map_cons, List.cons.injEq, ← ih]
      simp [Option.bind_eq_some_iff]

/-- What decodes leaves no malformed piece, and the lossy reading is then exact. -/
theorem decode?_eq_some_iff_lossy {cs : List Char} :
    decode? bytes = some cs ↔ none ∉ pieces bytes ∧ cs = decodeLossy bytes := by
  unfold decode? decodeLossy
  rw [mapM_id_eq_some_iff]
  constructor
  · intro h
    rw [h, List.map_map]
    exact ⟨by simp, (List.map_id cs).symm⟩
  · rintro ⟨hwhole, rfl⟩
    rw [List.map_map]
    refine (List.map_id (pieces bytes)).symm.trans (List.map_congr_left fun p hp => ?_)
    cases p with
    | none => exact absurd hp hwhole
    | some c => rfl

theorem isText_iff_decode? : IsText bytes ↔ ∃ cs, decode? bytes = some cs := by
  constructor
  · rintro ⟨text, rfl⟩
    exact ⟨_, decode?_encode text⟩
  · intro ⟨cs, hcs⟩
    exact ⟨_, decode?_eq_some_iff.mp hcs⟩

theorem isText_iff : IsText bytes ↔ none ∉ pieces bytes := by
  rw [isText_iff_decode?]
  constructor
  · intro ⟨cs, hcs⟩
    exact (decode?_eq_some_iff_lossy.mp hcs).1
  · intro h
    exact ⟨_, decode?_eq_some_iff_lossy.mpr ⟨h, rfl⟩⟩

theorem decode?_of_isText (h : IsText bytes) : decode? bytes = some (decodeLossy bytes) :=
  decode?_eq_some_iff_lossy.mpr ⟨isText_iff.mp h, rfl⟩

theorem decode?_of_not_isText (h : ¬ IsText bytes) : decode? bytes = none := by
  rw [Option.eq_none_iff_forall_ne_some]
  intro cs hcs
  exact h (isText_iff_decode?.mpr ⟨cs, hcs⟩)

/-- Bytes at both sides of an ASCII byte are text exactly if each side is. -/
theorem isText_ascii (hb : b < 0x80) (xs ys : List UInt8) :
    IsText (xs ++ b :: ys) ↔ IsText xs ∧ IsText ys := by
  rw [isText_iff, isText_iff, isText_iff, pieces_ascii hb]
  simp

theorem isText_intercalate (hb : b < 0x80) (fields : List (List UInt8)) :
    IsText ([b].intercalate fields) ↔ ∀ field ∈ fields, IsText field := by
  induction fields with
  | nil => exact iff_of_true ⟨"", rfl⟩ fun _ h => absurd h List.not_mem_nil
  | cons field fields ih =>
    rw [List.forall_mem_cons, ← ih]
    by_cases hlast : fields = []
    · rw [hlast, List.intercalate_singleton, List.intercalate_nil]
      exact (and_iff_left ⟨"", rfl⟩).symm
    · rw [List.intercalate_cons_of_ne_nil hlast, List.append_assoc, List.singleton_append,
        isText_ascii hb]

/-! ## What a character is decoded from -/

theorem lead_of_mem (h : some c ∈ (lead b).1) : lead b = ([some c], none) := by
  rcases lead_cases b with ⟨d, hlead⟩ | hlead | ⟨p, hlead, -⟩
  · rw [hlead, List.mem_singleton] at h
    rw [hlead, h]
  · rw [hlead, List.mem_singleton] at h
    exact nomatch h
  · rw [hlead] at h
    exact absurd h List.not_mem_nil

theorem some_not_mem_finish : some c ∉ finish state := by
  cases state with
  | none => exact List.not_mem_nil
  | some p => exact fun h => nomatch List.mem_singleton.mp h

/-- A sequence that is open stands at the end of what has been read. -/
theorem exists_open_suffix (bytes : List UInt8) :
    ∃ opened, opened <:+ bytes ∧ (Transducer.run step none opened).1.flatten = []
      ∧ (Transducer.run step none opened).2 = (Transducer.run step none bytes).2 := by
  induction bytes using List.reverseRecOn with
  | nil => exact ⟨[], List.suffix_refl [], rfl, rfl⟩
  | append_singleton bytes b ih =>
    obtain ⟨opened, hsuffix, hsilent, hstate⟩ := ih
    have hnext : (Transducer.run step none (bytes ++ [b])).2
        = (step (Transducer.run step none bytes).2 b).2 := by
      rw [Transducer.run_append, Transducer.run_cons, Transducer.run_nil]
    rw [hnext]
    rcases step_cases (Transducer.run step none bytes).2 b with ⟨c, hstep⟩ | ⟨p, hstep, -⟩ | hstep
    · exact ⟨[], List.nil_suffix, rfl, by rw [hstep]; rfl⟩
    · refine ⟨opened ++ [b], ?_, ?_, ?_⟩
      · obtain ⟨front, rfl⟩ := hsuffix
        exact ⟨front, (List.append_assoc ..).symm⟩
      · rw [Transducer.run_append, hstate, Transducer.run_cons, hstep, List.flatten_append, hsilent]
        rfl
      · rw [Transducer.run_append, hstate, Transducer.run_cons, Transducer.run_nil]
    · rw [hstep]
      rcases lead_cases b with ⟨c, hlead⟩ | hlead | ⟨p, hlead, -⟩
      · exact ⟨[], List.nil_suffix, rfl, by rw [hlead]; rfl⟩
      · exact ⟨[], List.nil_suffix, rfl, by rw [hlead]; rfl⟩
      · refine ⟨[b], List.suffix_append bytes [b], ?_, ?_⟩
        · rw [Transducer.run_cons, step, hlead]
          rfl
        · rw [Transducer.run_cons, step, Transducer.run_nil]

/-- What completes a character is its encoding. -/
theorem Completes.eq_utf8EncodeChar (h : Completes none bytes c) :
    bytes = String.utf8EncodeChar c := by
  have hdecoded : decode? bytes = some [c] := by
    unfold decode? pieces
    dsimp only
    rw [h.1, h.2]
    rfl
  rw [decode?_eq_some_iff.mp hdecoded, encode_eq_flatMap, String.toList_ofList,
    List.flatMap_singleton]

theorem infix_of_mem_run (h : some c ∈ (Transducer.run step none bytes).1.flatten) :
    String.utf8EncodeChar c <:+: bytes := by
  induction bytes using List.reverseRecOn with
  | nil => exact absurd h List.not_mem_nil
  | append_singleton bytes b ih =>
    rw [Transducer.run_append, Transducer.run_cons, Transducer.run_nil, List.flatten_append,
      List.flatten_singleton, List.mem_append] at h
    rcases h with h | h
    · exact (ih h).trans (List.infix_append' [] bytes [b])
    · obtain ⟨opened, hsuffix, hsilent, hstate⟩ := exists_open_suffix bytes
      -- the last byte completes a character, continues one, or is malformed
      rcases step_cases (Transducer.run step none bytes).2 b with ⟨d, hstep⟩ | ⟨p, hstep, -⟩ | hstep
      · rw [hstep] at h
        obtain rfl : c = d := by simpa using h
        have hcompletes : Completes none (opened ++ [b]) c := by
          unfold Completes
          rw [Transducer.run_append, hstate, Transducer.run_cons, hstep, List.flatten_append,
            hsilent]
          exact ⟨rfl, rfl⟩
        rw [← hcompletes.eq_utf8EncodeChar]
        obtain ⟨front, rfl⟩ := hsuffix
        exact ⟨front, [], by simp⟩
      · rw [hstep] at h
        exact absurd h List.not_mem_nil
      · rw [hstep, List.mem_append] at h
        have hcompletes : Completes none [b] c :=
          completes_singleton (lead_of_mem (h.resolve_left some_not_mem_finish))
        rw [← hcompletes.eq_utf8EncodeChar]
        exact (List.suffix_append bytes [b]).isInfix

/-- A character that is not the mark of malformed bytes is decoded out of its encoding. -/
theorem infix_of_mem_decodeLossy (hc : c ≠ '\uFFFD') (h : c ∈ decodeLossy bytes) :
    String.utf8EncodeChar c <:+: bytes := by
  obtain ⟨p, hp, hpc⟩ := List.mem_map.mp h
  cases p with
  | none => exact absurd hpc.symm hc
  | some d =>
    obtain rfl : d = c := hpc
    rcases List.mem_append.mp hp with hrun | hfinish
    · exact infix_of_mem_run hrun
    · exact absurd hfinish some_not_mem_finish

end TriggerLatency.Text.Utf8
