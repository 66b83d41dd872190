import TriggerLatency.CommandLine.Help
import TriggerLatency.Proofs.Text.Cutting
import TriggerLatency.Report.Reader

/-!
# Lines of help

A description is filled into lines word by word. No word is lost (`intercalate_fill`), and a line is
within the width unless it is a single word (`areFilled_fill`).

Every switch is told of by its names, and so is every report format (`longName_helpEntries`,
`shortName?_helpEntries`, `values_helpEntries`).
-/

namespace TriggerLatency.CommandLine

variable {width : Nat} {lines words : List String} {line word : String}

/-! ## Filling -/

/-- A new line or a longer one, joined by blanks the lines go on with the word. -/
theorem intercalate_addWord (width : Nat) (lines : List String) (word : String)
    (words : List String) :
    " ".intercalate ((addWord width lines word).reverse ++ words)
      = " ".intercalate (lines.reverse ++ word :: words) := by
  cases lines with
  | nil => rfl
  | cons line above =>
    have hjoined : " ".intercalate ((line ++ " " ++ word) :: words)
        = " ".intercalate (line :: word :: words) := by
      rw [String.intercalate_cons_append, String.intercalate_cons_cons]
    rw [addWord]
    split
    · rw [List.reverse_cons, List.reverse_cons, List.append_assoc, List.append_assoc,
        List.singleton_append, List.singleton_append]
      cases habove : above.reverse with
      | nil => exact hjoined
      | cons first rest =>
        rw [String.intercalate_append_of_ne_nil (List.cons_ne_nil _ _) (List.cons_ne_nil _ _),
          String.intercalate_append_of_ne_nil (List.cons_ne_nil _ _) (List.cons_ne_nil _ _),
          hjoined]
    · rw [List.reverse_cons, List.append_assoc, List.singleton_append]

theorem intercalate_foldl_addWord (width : Nat) (lines words : List String) :
    " ".intercalate (words.foldl (addWord width) lines).reverse
      = " ".intercalate (lines.reverse ++ words) := by
  induction words generalizing lines with
  | nil => rw [List.foldl_nil, List.append_nil]
  | cons word words ih => rw [List.foldl_cons, ih, intercalate_addWord]

/-- Joined by blanks, the lines are the text. -/
theorem intercalate_fill (width : Nat) (text : String) :
    " ".intercalate (fill width text) = text := by
  rw [fill, intercalate_foldl_addWord, List.reverse_nil, List.nil_append, ← String.toList_inj,
    String.toList_intercalate, List.map_map]
  have hwords : String.toList ∘ String.ofList = id := funext fun _ => String.toList_ofList
  rw [hwords, List.map_id, Text.splitOn_eq]
  exact List.intercalate_splitOn ' '

/-- Lines within the width, unless they are single words. -/
def AreFilled (width : Nat) (lines : List String) : Prop :=
  ∀ line ∈ lines, line.length ≤ width ∨ ' ' ∉ line.toList

theorem AreFilled.addWord (h : AreFilled width lines) (hword : ' ' ∉ word.toList) :
    AreFilled width (addWord width lines word) := by
  cases lines with
  | nil => exact List.forall_mem_singleton.mpr (Or.inr hword)
  | cons line above =>
    rw [CommandLine.addWord]
    split
    · next hfits =>
      refine List.forall_mem_cons.mpr ⟨Or.inl ?_, (List.forall_mem_cons.mp h).2⟩
      rw [String.length_append, String.length_append]
      exact hfits
    · exact List.forall_mem_cons.mpr ⟨Or.inr hword, h⟩

theorem AreFilled.foldl (h : AreFilled width lines) (hwords : ∀ word ∈ words, ' ' ∉ word.toList) :
    AreFilled width (words.foldl (CommandLine.addWord width) lines) := by
  induction words generalizing lines with
  | nil => exact h
  | cons word words ih =>
    obtain ⟨hword, hwords⟩ := List.forall_mem_cons.mp hwords
    exact ih (h.addWord hword) hwords

/-- The lines of a text are within the width, unless they are single words. -/
theorem areFilled_fill (width : Nat) (text : String) : AreFilled width (fill width text) := by
  have hwords : ∀ word ∈ (Text.splitOn ' ' text.toList).map String.ofList, ' ' ∉ word.toList := by
    rw [List.forall_mem_map]
    intro word hword
    rw [String.toList_ofList]
    exact Text.not_mem_of_mem_splitOn hword
  have hlines : AreFilled width [] := nofun
  exact fun line hline => hlines.foldl hwords line (List.mem_reverse.mp hline)

/-! ## Switches -/

/-- The long name stands behind the room for a short one and two dashes. -/
def longName (names : String) : String :=
  String.ofList ((names.toList.drop 6).takeWhile (· ≠ ' '))

/-- The short name, if there is one, stands behind a dash. -/
def shortName? (names : String) : Option Char :=
  match names.toList with
  | '-' :: c :: _ => some c
  | _ => none

/-- The names do not depend on where more is told. -/
theorem names_helpEntries (more : String) :
    (helpEntries more).map (·.names) = (helpEntries "").map (·.names) := rfl

/-- Each switch is told of, in the order of the long names. -/
theorem longName_helpEntries (more : String) :
    ((helpEntries more).map (·.names)).map longName = Switch.longNames.map (·.1) := by
  rw [names_helpEntries]
  decide +kernel

theorem shortName?_helpEntries (more : String) :
    ((helpEntries more).map (·.names)).filterMap shortName? = Switch.shortNames.map (·.1) := by
  rw [names_helpEntries]
  decide +kernel

/-- The values that can be given are the formats of a report, in their order. -/
theorem values_helpEntries (more : String) :
    (helpEntries more).flatMap (fun e => e.values.map (·.1)) = ReportFormat.names.map (·.1) := rfl

end TriggerLatency.CommandLine
