import TriggerLatency.Report.Markdown
import TriggerLatency.Proofs.Text.Cutting
import TriggerLatency.Proofs.Text.Trim

/-!
# Reading a document of lines

A markdown document is read line by line: its lines (`textLines`), the lines in front of and behind
a given one (`cutAt?`), and the cells of a line that is a row of a table (`rowCells?`).

What was written is found again. Lines are, if none of them holds a line feed (`textLines_join`),
and cells are, if none of them holds a bar or white space (`rowCells?_row`).
-/

namespace TriggerLatency.Report

/-! ## Lines -/

/-- The lines of a text, without their line feeds. -/
def textLines (text : String) : List String :=
  (Text.splitAfter '\n' text.toList).map fun piece => String.ofList (piece.takeWhile (· ≠ '\n'))

theorem textLines_join {lines : List String} (h : ∀ line ∈ lines, '\n' ∉ line.toList) :
    textLines (String.join (lines.map (· ++ "\n"))) = lines := by
  unfold textLines
  induction lines with
  | nil => rfl
  | cons line lines ih =>
    obtain ⟨hline, hlines⟩ := List.forall_mem_cons.mp h
    have htext : (String.join ((line :: lines).map (· ++ "\n"))).toList
        = line.toList ++ '\n' :: (String.join (lines.map (· ++ "\n"))).toList := by
      rw [List.map_cons, String.join_cons, String.toList_append, String.toList_append,
        List.append_assoc]
      rfl
    have hbody : (line.toList ++ ['\n']).takeWhile (· ≠ '\n') = line.toList := by
      rw [List.takeWhile_append_of_pos fun c hc => decide_eq_true (ne_of_mem_of_not_mem hc hline)]
      exact List.append_nil _
    rw [htext, Text.splitAfter_closed_cons hline, List.map_cons, ih hlines, hbody,
      String.ofList_toList]

/-- The lines in front of the first one that is `mark`, and the lines behind it. -/
def cutAt? (mark : String) (lines : List String) : Option (List String × List String) :=
  match lines.dropWhile (· ≠ mark) with
  | [] => none
  | _ :: behind => some (lines.takeWhile (· ≠ mark), behind)

variable {mark : String} {front : List String}

theorem cutAt?_append_cons (h : mark ∉ front) (behind : List String) :
    cutAt? mark (front ++ mark :: behind) = some (front, behind) := by
  have hne : ∀ line ∈ front, decide (line ≠ mark) = true := fun line hline =>
    decide_eq_true (ne_of_mem_of_not_mem hline h)
  unfold cutAt?
  rw [List.dropWhile_append_of_pos hne, List.takeWhile_append_of_pos hne]
  simp

theorem cutAt?_eq_none (h : mark ∉ front) : cutAt? mark front = none := by
  have hne : ∀ line ∈ front, decide (line ≠ mark) = true := fun line hline =>
    decide_eq_true (ne_of_mem_of_not_mem hline h)
  unfold cutAt?
  rw [List.dropWhile_eq_nil_iff.mpr hne]

/-! ## Rows -/

/-- The cells of a row: what stands between its bars, trimmed. A line that does not begin and end
with a bar is no row. -/
def rowCells? (line : String) : Option (List String) :=
  match Text.splitOn '|' line.toList with
  | [] :: fields =>
    if fields.getLast? = some [] then
      some (fields.dropLast.map fun field => String.ofList (Text.trim field))
    else none
  | _ => none

/-- A line that does not begin with a bar is no row. -/
theorem rowCells?_eq_none {line : String} (h : line.toList.head? ≠ some '|') :
    rowCells? line = none := by
  unfold rowCells?
  cases hline : line.toList with
  | nil => rfl
  | cons c cs =>
    rw [hline] at h
    have hbar : c ≠ '|' := fun heq => h (congrArg some heq)
    rw [Text.splitOn_cons, if_neg hbar]
    cases Text.splitOn '|' cs <;> rfl

/-- A text that may stand in a cell. -/
def IsCell (cell : String) : Prop := ∀ c ∈ cell.toList, c ≠ '|' ∧ Text.isBlank c = false

instance (cell : String) : Decidable (IsCell cell) :=
  List.decidableBAll (fun c => c ≠ '|' ∧ Text.isBlank c = false) cell.toList

variable {cell : String} {cells : List String}

theorem IsCell.append {cell' : String} (h : IsCell cell) (h' : IsCell cell') :
    IsCell (cell ++ cell') := by
  intro c hc
  rw [String.toList_append, List.mem_append] at hc
  exact hc.elim (h c) (h' c)

theorem IsCell.bar_not_mem (h : IsCell cell) : '|' ∉ cell.toList := fun hmem => (h _ hmem).1 rfl

theorem IsCell.lineFeed_not_mem (h : IsCell cell) : '\n' ∉ cell.toList :=
  fun hmem => Bool.noConfusion (h _ hmem).2

/-- A cell between blanks. -/
def field (cell : String) : List Char := ' ' :: (cell.toList ++ [' '])

theorem IsCell.trim_field (h : IsCell cell) : String.ofList (Text.trim (field cell)) = cell := by
  unfold field
  rw [Text.trim_cons rfl, Text.trim_concat rfl, Text.trim_eq_self fun c hc => (h c hc).2,
    String.ofList_toList]

theorem IsCell.bar_not_mem_field (h : IsCell cell) : '|' ∉ field cell := by
  unfold field
  rw [List.mem_cons, List.mem_append, List.mem_singleton]
  rintro (heq | hmem | heq)
  · exact absurd heq (by decide)
  · exact h.bar_not_mem hmem
  · exact absurd heq (by decide)

theorem toList_row (cells : List String) :
    (row cells).toList = '|' :: cells.flatMap fun cell => field cell ++ ['|'] := by
  unfold row
  rw [String.toList_append, String.toList_join, List.flatMap_map]
  refine congrArg ('|' :: ·) (congrArg (cells.flatMap ·) (funext fun cell => ?_))
  rw [String.toList_append, String.toList_append, List.append_assoc]
  simp [field]

/-- The cells of a row are found again. -/
theorem rowCells?_row (h : ∀ cell ∈ cells, IsCell cell) : rowCells? (row cells) = some cells := by
  have hfields : Text.splitOn '|' (cells.flatMap fun cell => field cell ++ ['|'])
      = cells.map field ++ [[]] := by
    induction cells with
    | nil => rfl
    | cons cell cells ih =>
      obtain ⟨hcell, hcells⟩ := List.forall_mem_cons.mp h
      rw [List.flatMap_cons, List.append_assoc, List.singleton_append,
        Text.splitOn_append_cons hcell.bar_not_mem_field, ih hcells]
      rfl
  have hcells : (cells.map field).map (fun field => String.ofList (Text.trim field)) = cells := by
    rw [List.map_map]
    exact (List.map_congr_left fun cell hcell => (h cell hcell).trim_field).trans
      (List.map_id' cells)
  unfold rowCells?
  rw [toList_row, Text.splitOn_cons, if_pos rfl, hfields]
  dsimp only
  rw [if_pos List.getLast?_concat, List.dropLast_concat, hcells]

/-- A row of cells is one line. -/
theorem lineFeed_not_mem_row (h : ∀ cell ∈ cells, IsCell cell) : '\n' ∉ (row cells).toList := by
  rw [toList_row, List.mem_cons, List.mem_flatMap]
  rintro (heq | ⟨cell, hcell, hmem⟩)
  · exact absurd heq (by decide)
  · simp only [field, List.mem_append, List.mem_cons, List.not_mem_nil, or_false] at hmem
    rcases hmem with (heq | hmem | heq) | heq
    · exact absurd heq (by decide)
    · exact (h cell hcell).lineFeed_not_mem hmem
    · exact absurd heq (by decide)
    · exact absurd heq (by decide)

end TriggerLatency.Report
