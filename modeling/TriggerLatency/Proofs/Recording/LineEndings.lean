import TriggerLatency.Proofs.Recording.Lines
import Mathlib.Logic.Relation

/-!
# Line endings and blank lines

How the lines of a recording end, and what blank lines stand between them, makes no difference.
Bytes are `Relined` by writing a carriage return in front of every line feed, by closing the last
line, or by putting lines of white space at the beginning of a line; what is read from them, be it a
recording or an error, stays the same, however often this is done or undone (`parse_relined`).

The lines are the same afterwards, but for white space at their ends (`Recording.Alike`) and for
blank lines between them.
-/

namespace TriggerLatency

namespace ByteSource

/-- The byte of a carriage return. -/
def carriageReturn : UInt8 := 0x0D

/-- Bytes with a carriage return in front of every line feed. -/
def withCarriageReturns (bytes : List UInt8) : List UInt8 :=
  bytes.flatMap fun b => if b = lineFeed then [carriageReturn, lineFeed] else [b]

/-- A line begins behind these bytes. -/
def EndsLine (bytes : List UInt8) : Prop := bytes = [] ∨ Terminated bytes

/-- A line of white space. -/
def blankLine (blank : String) : List UInt8 := Text.Utf8.encode blank ++ [lineFeed]

variable {bytes body : List UInt8}

instance : Decidable (Terminated bytes) := inferInstanceAs (Decidable (_ = _))

theorem withCarriageReturns_of_not_mem (h : lineFeed ∉ body) : withCarriageReturns body = body := by
  unfold withCarriageReturns
  induction body with
  | nil => rfl
  | cons b body ih =>
    rw [List.flatMap_cons, if_neg (List.ne_of_not_mem_cons h).symm,
      ih (List.not_mem_of_not_mem_cons h)]
    rfl

theorem withCarriageReturns_append_lineFeed (h : lineFeed ∉ body) (rest : List UInt8) :
    withCarriageReturns (body ++ lineFeed :: rest)
      = (body ++ [carriageReturn]) ++ lineFeed :: withCarriageReturns rest := by
  have hbody := withCarriageReturns_of_not_mem h
  unfold withCarriageReturns at hbody ⊢
  rw [List.flatMap_append, hbody, List.flatMap_cons, if_pos rfl]
  simp

/-- The carriage returns stand in the same lines. -/
theorem lines_withCarriageReturns (bytes : List UInt8) :
    (ofBytes (withCarriageReturns bytes)).lines
      = (ofBytes bytes).lines.map withCarriageReturns := by
  induction bytes using Text.pieceInduction lineFeed with
  | broken bytes hbytes =>
    rw [withCarriageReturns_of_not_mem hbytes, lines_ofBytes]
    by_cases hne : bytes = []
    · rw [hne]
      rfl
    · rw [Text.splitAfter_of_not_mem hbytes hne, List.map_singleton,
        withCarriageReturns_of_not_mem hbytes]
  | closed body rest hbody ih =>
    have hreturn : lineFeed ∉ body ++ [carriageReturn] := by
      rw [List.mem_append, List.mem_singleton]
      exact fun h => h.elim hbody (by decide)
    rw [withCarriageReturns_append_lineFeed hbody, lines_closed_cons hreturn,
      lines_closed_cons hbody, ih, List.map_cons, withCarriageReturns_append_lineFeed hbody]
    rfl

/-- Text without line breaks is one line when it is closed. -/
theorem lines_blankLine {blank : String} (h : '\n' ∉ blank.toList) (rest : List UInt8) :
    (ofBytes (blankLine blank ++ rest)).lines = blankLine blank :: (ofBytes rest).lines := by
  have hbytes : lineFeed ∉ Text.Utf8.encode blank := by
    intro hmem
    have hbreak := Text.Utf8.mem_decodeLossy_of_ascii (by decide) hmem
    rw [Text.Utf8.decodeLossy_encode] at hbreak
    exact h hbreak
  rw [blankLine, List.append_assoc, List.singleton_append, lines_closed_cons hbytes]

theorem EndsLine.lines_append (h : EndsLine bytes) (rest : List UInt8) :
    (ofBytes (bytes ++ rest)).lines = (ofBytes bytes).lines ++ (ofBytes rest).lines := by
  rcases h with rfl | h
  · rfl
  · exact lines_terminated_append h

end ByteSource

open ByteSource

/-- Bytes of which the lines end otherwise, or have other blank lines between them. -/
inductive Relined : List UInt8 → List UInt8 → Prop
  /-- Every line feed gets a carriage return in front of it. -/
  | carriageReturns (bytes : List UInt8) : Relined bytes (withCarriageReturns bytes)
  /-- The last line is closed. -/
  | finalLineFeed (bytes : List UInt8) : ¬ Terminated bytes → Relined bytes (bytes ++ [lineFeed])
  /-- Lines of white space are put where a line begins. -/
  | blankLines (above below : List UInt8) (blanks : List String) : EndsLine above →
      (∀ blank ∈ blanks, ∀ ch ∈ blank.toList, Text.isBlank ch = true ∧ ch ≠ '\n') →
      Relined (above ++ below) (above ++ blanks.flatMap blankLine ++ below)

namespace Recording

variable {c : Config} {line bytes bytes' : List UInt8}

theorem Alike.lineFeed (line : List UInt8) : Alike (line ++ [ByteSource.lineFeed]) line :=
  Alike.concat (by decide) (by decide) line

theorem Alike.carriageReturn (line : List UInt8) :
    Alike (line ++ [ByteSource.carriageReturn]) line :=
  Alike.concat (by decide) (by decide) line

theorem Alike.withCarriageReturns (h : line ∈ (ofBytes bytes).lines) :
    Alike (withCarriageReturns line) line := by
  obtain ⟨body, hbody, rfl | rfl⟩ := Text.exists_body_of_mem_splitAfter h
  · rw [withCarriageReturns_of_not_mem hbody]
    exact Alike.refl line
  · rw [withCarriageReturns_append_lineFeed hbody]
    exact ((Alike.lineFeed _).trans (Alike.carriageReturn body)).trans (Alike.lineFeed body).symm

theorem parse_withCarriageReturns (c : Config) (bytes : List UInt8) :
    (parse c (.ofBytes (withCarriageReturns bytes))).value = (parse c (.ofBytes bytes)).value := by
  rw [value_parse, value_parse, lines_withCarriageReturns]
  refine readLines_congr c (List.forall₂_map_left_iff.mpr (List.forall₂_same.mpr ?_))
  exact fun line hline => Alike.withCarriageReturns hline

theorem isBlankText_blankLine {blank : String} (h : ∀ ch ∈ blank.toList, Text.isBlank ch = true) :
    IsBlankText (blankLine blank) := by
  refine ⟨blank ++ "\n", (Text.Utf8.encode_append blank "\n").symm, ?_⟩
  rw [String.toList_append, List.forall_mem_append]
  exact ⟨h, List.all_eq_true.mp (by decide)⟩

/-- A line feed by itself is a blank line. -/
theorem isBlankText_lineFeed : IsBlankText [lineFeed] := by
  have hempty : IsBlankText (blankLine "") :=
    isBlankText_blankLine fun _ hch => absurd hch List.not_mem_nil
  exact hempty

/-- A line feed at the end makes a blank line, or closes the last one. -/
theorem parse_append_lineFeed (c : Config) (bytes : List UInt8) :
    (parse c (.ofBytes (bytes ++ [lineFeed]))).value = (parse c (.ofBytes bytes)).value := by
  rw [value_parse, value_parse, lines_ofBytes, lines_ofBytes]
  rcases Text.splitAfter_concat lineFeed bytes with h | ⟨front, last, hlines, hclosed⟩
  · have hblank : ∀ line ∈ [[lineFeed]], IsBlankText line := by
      intro line hline
      obtain rfl := List.mem_singleton.mp hline
      exact isBlankText_lineFeed
    have hinsert := readLines_insert_blank c hblank (Text.splitAfter lineFeed bytes) []
    rwa [List.append_nil, List.append_nil, ← h] at hinsert
  · rw [hlines, hclosed]
    have hfront : List.Forall₂ Alike front front :=
      List.forall₂_same.mpr fun line _ => Alike.refl line
    exact readLines_congr c (List.rel_append hfront (.cons (Alike.lineFeed last) .nil))

/-- Lines of white space that begin where a line does are not noticed. -/
theorem parse_insert_blankLines (c : Config) {above : List UInt8} (habove : EndsLine above)
    {blanks : List String}
    (hblanks : ∀ blank ∈ blanks, ∀ ch ∈ blank.toList, Text.isBlank ch = true ∧ ch ≠ '\n')
    (below : List UInt8) :
    (parse c (.ofBytes (above ++ blanks.flatMap blankLine ++ below))).value
      = (parse c (.ofBytes (above ++ below))).value := by
  have hlines : (ofBytes (blanks.flatMap blankLine ++ below)).lines
      = blanks.map blankLine ++ (ofBytes below).lines := by
    induction blanks with
    | nil => rfl
    | cons blank blanks ih =>
      obtain ⟨hblank, hrest⟩ := List.forall_mem_cons.mp hblanks
      rw [List.flatMap_cons, List.append_assoc,
        lines_blankLine (fun hmem => (hblank '\n' hmem).2 rfl), ih hrest]
      rfl
  have hblank : ∀ line ∈ blanks.map blankLine, IsBlankText line := by
    intro line hline
    obtain ⟨blank, hmem, rfl⟩ := List.mem_map.mp hline
    exact isBlankText_blankLine fun ch hch => (hblanks blank hmem ch hch).1
  rw [value_parse, value_parse, List.append_assoc, habove.lines_append, habove.lines_append, hlines,
    ← List.append_assoc, readLines_insert_blank c hblank]

theorem Relined.value_parse (h : Relined bytes bytes') :
    (parse c (.ofBytes bytes')).value = (parse c (.ofBytes bytes)).value := by
  cases h with
  | carriageReturns => exact parse_withCarriageReturns c bytes
  | finalLineFeed => exact parse_append_lineFeed c bytes
  | blankLines above below blanks habove hblanks =>
    exact parse_insert_blankLines c habove hblanks below

/-- How the lines end, and what blank lines there are, does not count: what is read, a recording or
an error with its column and the names found, is the same, whatever changes of this kind are made or
undone. -/
theorem parse_relined (c : Config) (bytes bytes' : List UInt8)
    (h : Relation.EqvGen Relined bytes bytes') :
    (parse c (.ofBytes bytes')).value = (parse c (.ofBytes bytes)).value := by
  induction h with
  | rel bytes bytes' h => exact Relined.value_parse h
  | refl => rfl
  | symm bytes bytes' _ ih => exact ih.symm
  | trans bytes bytes' bytes'' _ _ ih ih' => exact ih'.trans ih

/-- A row that is not closed, and the same row closed, behind a line with a no-break space, with a
carriage return in front of the other line feeds. -/
theorem parse_relined_of_open_row :
    let bytes := Text.Utf8.encode "Timestamp(ms),D0,D1\n0.5,1,0"
    let bytes' := Text.Utf8.encode "Timestamp(ms),D0,D1\r\n\u00A0\n0.5,1,0\r\n"
    Relation.EqvGen Relined bytes bytes'
    ∧ (parse {} (.ofBytes bytes')).value = (parse {} (.ofBytes bytes)).value
    ∧ (parse {} (.ofBytes bytes)).value = .ok ⟨[⟨0.5, .high⟩], [⟨0.5, .low⟩], 1, 0⟩ := by
  intro bytes bytes'
  have hclosed : Relined bytes (bytes ++ [lineFeed]) := .finalLineFeed bytes (by decide +kernel)
  have hreturns : Relined (bytes ++ [lineFeed]) (withCarriageReturns (bytes ++ [lineFeed])) :=
    .carriageReturns _
  have hspace : ∀ blank ∈ ["\u00A0"], ∀ ch ∈ blank.toList, Text.isBlank ch = true ∧ ch ≠ '\n' := by
    intro blank hblank ch hch
    obtain rfl := List.mem_singleton.mp hblank
    obtain rfl : ch = '\u00A0' := List.mem_singleton.mp hch
    decide
  have hblank : Relined (withCarriageReturns (bytes ++ [lineFeed])) bytes' :=
    .blankLines (Text.Utf8.encode "Timestamp(ms),D0,D1\r\n") (Text.Utf8.encode "0.5,1,0\r\n")
      ["\u00A0"] (Or.inr (by decide +kernel)) hspace
  have hrelined : Relation.EqvGen Relined bytes bytes' :=
    ((Relation.EqvGen.rel _ _ hclosed).trans _ _ _ (.rel _ _ hreturns)).trans _ _ _
      (.rel _ _ hblank)
  exact ⟨hrelined, parse_relined {} bytes bytes' hrelined, by rfl⟩

end Recording

end TriggerLatency
