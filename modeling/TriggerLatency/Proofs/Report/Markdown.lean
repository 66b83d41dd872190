import TriggerLatency.Proofs.Decimal.Places
import TriggerLatency.Proofs.Mean
import TriggerLatency.Proofs.Recording.Level
import TriggerLatency.Proofs.Report.Table

/-!
# Reading a markdown report

The rule of the measurement table stands above and below the measurements, and rows of statistics
come behind; so the measurements are the lines between the first rule and the next one. No row is
the rule, because a cell stands between blanks. The unmatched sends are behind the rule of their own
table, up to the end of the text.

So a report is found again line by line: the cells of every measurement and of every unmatched send,
and out of the cells the index, and of each float what rounding to two places has left
(`markdown_read_back`). A report on no measurements is one sentence, and leaves out unmatched sends
too (`unmatched_left_out_without_measurements`).
-/

namespace TriggerLatency.Report

open Decimal

variable {s : Summary} {measurements : List Measurement} {unmatched : List UnmatchedSend}

/-! ## What is looked for -/

/-- The cells of a measurement. -/
def measurementCells (m : Measurement) : List String :=
  [toString m.index, fixed 2 m.sendTime, fixed 2 m.receiveTime, fixed 2 m.latency]

/-- The cells of an unmatched send. -/
def unmatchedCells (u : UnmatchedSend) : List String := [toString u.index, fixed 2 u.sendTime]

/-- The cells of a statistic. -/
def statisticCells (label : String) (value : Float) : List String :=
  ["**" ++ label ++ "**", "-", "-", "**" ++ fixed 2 value ++ "**"]

/-- The heading above the unmatched sends. -/
def unmatchedHeading : String := "### Unmatched TX Triggers"

/-- The rule above the unmatched sends. -/
def unmatchedRule : String := "|---------------|---------------------|"

/-- The lines between the first two rules of the measurement table. -/
def measurementLines? (text : String) : Option (List String) := do
  let (_, behind) ← cutAt? tableRule (textLines text)
  let (rows, _) ← cutAt? tableRule behind
  return rows

/-- The lines behind the rule in the section of the unmatched sends, up to the end of the text. -/
def unmatchedLines? (text : String) : Option (List String) := do
  let (_, sectionLines) ← cutAt? unmatchedHeading (textLines text)
  let (_, rows) ← cutAt? unmatchedRule sectionLines
  return rows

/-- Reads a row of an index and values. -/
def readRow? (line : String) : Option (Int × List Rounded) :=
  match rowCells? line with
  | some (index :: values) => do
    return (← readInt? index.toList, ← values.mapM fun value => readPlaces? 2 value.toList)
  | _ => none

/-! ## Cells -/

theorem isBlank_of_isDigit {c : Char} (hc : isDigit c = true) : Text.isBlank c = false := by
  have hrange : '0'.toNat ≤ c.toNat ∧ c.toNat ≤ '9'.toNat := by
    unfold isDigit at hc
    rw [Bool.and_eq_true, decide_eq_true_eq, decide_eq_true_eq] at hc
    exact ⟨UInt32.le_iff_toNat_le.mp hc.1, UInt32.le_iff_toNat_le.mp hc.2⟩
  have hzero : '0'.toNat = 48 := rfl
  have hnine : '9'.toNat = 57 := rfl
  simp only [Text.isBlank, Bool.or_eq_false_iff, Bool.and_eq_false_iff, decide_eq_false_iff_not,
    beq_eq_false_iff_ne]
  omega

/-- A plain character may stand in a cell, and is no mark of bold text. -/
theorem apart_of_isPlain {c : Char} (hc : isPlain c = true) :
    c ≠ '|' ∧ Text.isBlank c = false ∧ c ≠ '*' := by
  unfold isPlain at hc
  rcases Bool.or_eq_true_iff.mp hc with hdigit | hother
  · exact ⟨Json.ne_of_isDigit hdigit rfl, isBlank_of_isDigit hdigit, Json.ne_of_isDigit hdigit rfl⟩
  · have hmem := List.contains_iff_mem.mp hother
    clear hc hother
    simp only [List.mem_cons, List.not_mem_nil, or_false] at hmem
    rcases hmem with rfl | rfl | rfl | rfl | rfl | rfl | rfl <;> decide

theorem isPlain_of_mem_fixed {places : Nat} {x : Float} {c : Char}
    (hc : c ∈ (fixed places x).toList) : isPlain c = true := by
  rw [fixed, String.toList_ofList] at hc
  exact isPlain_of_mem_fixedChars hc

theorem isCell_fixed (places : Nat) (x : Float) : IsCell (fixed places x) := fun _ hc =>
  let ⟨hbar, hblank, _⟩ := apart_of_isPlain (isPlain_of_mem_fixed hc)
  ⟨hbar, hblank⟩

theorem toList_toString (n : Nat) : (toString n).toList = natDigits n := Nat.toList_repr

theorem isDigit_of_mem_toString {n : Nat} {c : Char} (hc : c ∈ (toString n).toList) :
    isDigit c = true := by
  rw [toList_toString] at hc
  exact Json.isDigit_of_mem_natDigits hc

theorem isCell_toString (n : Nat) : IsCell (toString n) := fun _ hc =>
  have hdigit := isDigit_of_mem_toString hc
  ⟨Json.ne_of_isDigit hdigit rfl, isBlank_of_isDigit hdigit⟩

theorem isCell_of_mem_values (index : Nat) (values : List Float) :
    ∀ cell ∈ toString index :: values.map (fixed 2), IsCell cell := by
  rw [List.forall_mem_cons, List.forall_mem_map]
  exact ⟨isCell_toString index, fun x _ => isCell_fixed 2 x⟩

theorem isCell_of_mem_measurementCells (m : Measurement) :
    ∀ cell ∈ measurementCells m, IsCell cell :=
  isCell_of_mem_values m.index [m.sendTime, m.receiveTime, m.latency]

theorem isCell_of_mem_unmatchedCells (u : UnmatchedSend) :
    ∀ cell ∈ unmatchedCells u, IsCell cell :=
  isCell_of_mem_values u.index [u.sendTime]

theorem isCell_of_mem_statisticCells {label : String} (hlabel : IsCell label) (value : Float) :
    ∀ cell ∈ statisticCells label value, IsCell cell := by
  have hmark : IsCell "**" := by decide
  have hdash : IsCell "-" := by decide
  have hbold {text : String} (htext : IsCell text) : IsCell ("**" ++ text ++ "**") :=
    (hmark.append htext).append hmark
  simpa [statisticCells] using ⟨hbold hlabel, hdash, hbold (isCell_fixed 2 value)⟩

theorem readInt?_toString (n : Nat) : readInt? (toString n).toList = some (n : Int) := by
  have hdigits : ∀ d ∈ natDigits n, isDigit d = true := fun d hd => Json.isDigit_of_mem_natDigits hd
  unfold readInt? readSigned?
  rw [toList_toString, splitSign_of_digits hdigits]
  dsimp only
  rw [if_pos ⟨Json.natDigits_ne_nil, List.all_eq_true.mpr hdigits⟩, Json.ofDigits_natDigits]
  rfl

/-- The index and the values of a row are found again, as far as rounding has left them. -/
theorem readRow?_row (index : Nat) (values : List Float) :
    readRow? (row (toString index :: values.map (fixed 2)))
      = some ((index : Int), values.map (Rounded.ofFloat 2)) := by
  have hvalues : (values.map (fixed 2)).mapM (fun value => readPlaces? 2 value.toList)
      = some (values.map (Rounded.ofFloat 2)) := by
    induction values with
    | nil => rfl
    | cons x values ih =>
      rw [List.map_cons, List.mapM_cons, ih, fixed, String.toList_ofList,
        readPlaces?_fixedChars (by omega)]
      rfl
  unfold readRow?
  rw [rowCells?_row (isCell_of_mem_values index values)]
  dsimp only
  rw [readInt?_toString, hvalues]
  rfl

/-! ## Lines -/

/-- The first lines are three headings, and a list with dashes. -/
theorem not_mem_summaryLines {mark : String} (hdash : mark.toList.head? ≠ some '-')
    (h : mark ∉ ["## UDP Latency Analysis Results", "", "**Summary Statistics:**"]) :
    mark ∉ summaryLines s := by
  simp only [List.mem_cons, List.not_mem_nil, or_false, not_or] at h
  have hitem (label rest : String) (hlabel : label.toList.head? = some '-') :
      mark ≠ label ++ rest := by
    rintro rfl
    rw [String.toList_append, List.head?_append, hlabel] at hdash
    exact hdash rfl
  simp only [summaryLines, List.mem_cons, List.not_mem_nil, or_false, not_or, String.append_assoc]
  exact ⟨h.1, h.2.1, h.2.2, hitem _ _ rfl, hitem _ _ rfl, hitem _ _ rfl, hitem _ _ rfl, h.2.1⟩

theorem lineFeed_not_mem_summaryLines (s : Summary) :
    ∀ line ∈ summaryLines s, '\n' ∉ line.toList := by
  have hfixed (x : Float) : '\n' ∉ (fixed 3 x).toList := (isCell_fixed 3 x).lineFeed_not_mem
  have hcount : '\n' ∉ Nat.toDigits 10 s.count := by
    rw [← Nat.toList_repr]
    exact (isCell_toString s.count).lineFeed_not_mem
  simp [summaryLines, hfixed, hcount]

/-- The lines of the table are the header, the rule, and rows. -/
theorem tableLines_cases {line : String} (h : line ∈ tableLines s measurements) :
    line = tableHeader ∨ line = tableRule
      ∨ ∃ cells, (∀ cell ∈ cells, IsCell cell) ∧ line = row cells := by
  simp only [tableLines, List.mem_append, List.mem_cons, List.not_mem_nil, or_false,
    List.mem_map] at h
  have hstatistic {label : String} (hlabel : IsCell label) (value : Float) :
      ∃ cells, (∀ cell ∈ cells, IsCell cell) ∧ summaryRow label value = row cells :=
    ⟨_, isCell_of_mem_statisticCells hlabel value, rfl⟩
  rcases h with ((rfl | rfl) | ⟨m, -, rfl⟩) | rfl | rfl | rfl | rfl
  · exact Or.inl rfl
  · exact Or.inr (Or.inl rfl)
  · exact Or.inr (Or.inr ⟨_, isCell_of_mem_measurementCells m, rfl⟩)
  · exact Or.inr (Or.inl rfl)
  · exact Or.inr (Or.inr (hstatistic (by decide) s.mean))
  · exact Or.inr (Or.inr (hstatistic (by decide) s.min))
  · exact Or.inr (Or.inr (hstatistic (by decide) s.max))

theorem lineFeed_not_mem_tableLines : ∀ line ∈ tableLines s measurements, '\n' ∉ line.toList := by
  intro line hline
  rcases tableLines_cases hline with rfl | rfl | ⟨cells, hcells, rfl⟩
  · decide
  · decide
  · exact lineFeed_not_mem_row hcells

theorem lineFeed_not_mem_unmatchedLines :
    ∀ line ∈ unmatchedLines unmatched, '\n' ∉ line.toList := by
  intro line hline
  unfold unmatchedLines at hline
  split at hline
  · exact absurd hline List.not_mem_nil
  · rw [List.mem_append, List.mem_map] at hline
    rcases hline with hhead | ⟨u, -, rfl⟩
    · revert line
      decide
    · exact lineFeed_not_mem_row (isCell_of_mem_unmatchedCells u)

theorem textLines_markdown (s : Summary) (measurements : List Measurement)
    (unmatched : List UnmatchedSend) :
    textLines (markdown ⟨some s, measurements, unmatched⟩)
      = summaryLines s ++ tableLines s measurements ++ unmatchedLines unmatched := by
  refine textLines_join fun line hline => ?_
  rcases List.mem_append.mp hline with hmain | hunmatched
  · rcases List.mem_append.mp hmain with hsummary | htable
    · exact lineFeed_not_mem_summaryLines s line hsummary
    · exact lineFeed_not_mem_tableLines line htable
  · exact lineFeed_not_mem_unmatchedLines line hunmatched

/-! ## Tables -/

/-- A rule has a dash where a row has a blank. -/
theorem row_ne_tableRule (cell : String) (cells : List String) :
    row (cell :: cells) ≠ tableRule := by
  intro heq
  have hchar := congrArg (fun line => line.toList[1]?) heq
  have hblank : (row (cell :: cells)).toList[1]? = some ' ' := by
    rw [toList_row]
    rfl
  have hdash : tableRule.toList[1]? = some '-' := by decide
  rw [hblank, hdash] at hchar
  exact absurd hchar (by decide)

theorem measurementLines?_markdown (s : Summary) (measurements : List Measurement)
    (unmatched : List UnmatchedSend) :
    measurementLines? (markdown ⟨some s, measurements, unmatched⟩)
      = some (measurements.map measurementRow) := by
  have hfront : tableRule ∉ summaryLines s ++ [tableHeader] := by
    rw [List.mem_append, List.mem_singleton, not_or]
    exact ⟨not_mem_summaryLines (by decide) (by decide), by decide⟩
  have hrows : tableRule ∉ measurements.map measurementRow := by
    rw [List.mem_map]
    rintro ⟨m, -, heq⟩
    exact row_ne_tableRule _ _ heq
  -- what stands behind the second rule is not looked at
  have hlines : summaryLines s ++ tableLines s measurements ++ unmatchedLines unmatched
      = (summaryLines s ++ [tableHeader]) ++ tableRule :: (measurements.map measurementRow
          ++ tableRule :: ([summaryRow "Average" s.mean, summaryRow "Minimum" s.min,
            summaryRow "Maximum" s.max] ++ unmatchedLines unmatched)) := by
    simp [tableLines]
  unfold measurementLines?
  rw [textLines_markdown, hlines, cutAt?_append_cons hfront]
  simp only [Option.bind_eq_bind, Option.bind_some]
  rw [cutAt?_append_cons hrows]
  rfl

theorem unmatchedHeading_not_mem :
    unmatchedHeading ∉ summaryLines s ++ tableLines s measurements := by
  rw [List.mem_append, not_or]
  refine ⟨not_mem_summaryLines (by decide) (by decide), fun hmem => ?_⟩
  rcases tableLines_cases hmem with heq | heq | ⟨cells, -, heq⟩
  · exact absurd heq (by decide)
  · exact absurd heq (by decide)
  · have hchars := congrArg String.toList heq
    rw [toList_row] at hchars
    exact absurd (List.cons.inj hchars).1 (by decide)

theorem unmatchedLines?_markdown (s : Summary) (measurements : List Measurement)
    (unmatched : List UnmatchedSend) :
    unmatchedLines? (markdown ⟨some s, measurements, unmatched⟩)
      = if unmatched = [] then none else some (unmatched.map unmatchedRow) := by
  have hheading : unmatchedHeading ∉ summaryLines s ++ tableLines s measurements :=
    unmatchedHeading_not_mem
  unfold unmatchedLines?
  rw [textLines_markdown]
  split
  · next hnil =>
    rw [hnil, unmatchedLines, if_pos rfl, List.append_nil, cutAt?_eq_none hheading]
    rfl
  · next hne =>
    have hfront : unmatchedHeading ∉ summaryLines s ++ tableLines s measurements ++ [""] := by
      rw [List.mem_append, not_or]
      exact ⟨hheading, by decide⟩
    have hrule : unmatchedRule ∉ ["", "| Packet Number | TX Trigger Time (ms) |"] := by decide
    have hlines : summaryLines s ++ tableLines s measurements ++ unmatchedLines unmatched
        = (summaryLines s ++ tableLines s measurements ++ [""]) ++ unmatchedHeading
          :: (["", "| Packet Number | TX Trigger Time (ms) |"]
            ++ unmatchedRule :: unmatched.map unmatchedRow) := by
      rw [unmatchedLines, if_neg hne, List.append_assoc _ [""]]
      rfl
    rw [hlines, cutAt?_append_cons hfront]
    simp only [Option.bind_eq_bind, Option.bind_some]
    rw [cutAt?_append_cons hrule]
    rfl

theorem unmatchedHeading_mem_iff (s : Summary) (measurements : List Measurement)
    (unmatched : List UnmatchedSend) :
    unmatchedHeading ∈ textLines (markdown ⟨some s, measurements, unmatched⟩) ↔ unmatched ≠ [] := by
  rw [textLines_markdown, List.mem_append, or_iff_right unmatchedHeading_not_mem, unmatchedLines]
  split
  · next hnil => simp [hnil]
  · next hne => simp [hne, unmatchedHeading]

/-- The sentence has no table. -/
theorem measurementLines?_noData : measurementLines? noData = none := by decide

theorem unmatchedLines?_noData : unmatchedLines? noData = none := by decide

theorem unmatchedHeading_not_mem_noData : unmatchedHeading ∉ textLines noData := by decide

/-! ## The report -/

theorem rowCells?_measurementRow (m : Measurement) :
    rowCells? (measurementRow m) = some (measurementCells m) :=
  rowCells?_row (isCell_of_mem_measurementCells m)

theorem rowCells?_unmatchedRow (u : UnmatchedSend) :
    rowCells? (unmatchedRow u) = some (unmatchedCells u) :=
  rowCells?_row (isCell_of_mem_unmatchedCells u)

theorem render_ofLists_nil (unmatched : List UnmatchedSend) :
    (ofLists [] unmatched).render .markdown = noData :=
  rfl

/-- With a measurement there is a summary. -/
theorem exists_render_ofLists (hne : measurements ≠ []) (unmatched : List UnmatchedSend) :
    ∃ s, Summary.ofMeasurements measurements = some s
      ∧ (ofLists measurements unmatched).render .markdown
        = markdown ⟨some s, measurements, unmatched⟩ := by
  have hlatencies : measurements.map (·.latency) ≠ [] := mt List.map_eq_nil_iff.mp hne
  have hs : Summary.ofMeasurements measurements = some _ := Accumulator.finish_after hlatencies
  refine ⟨_, hs, ?_⟩
  rw [render, ofLists, hs]

theorem measurementLines?_ofLists (measurements : List Measurement)
    (unmatched : List UnmatchedSend) :
    measurementLines? ((ofLists measurements unmatched).render .markdown)
      = if measurements = [] then none else some (measurements.map measurementRow) := by
  split
  · next hnil => rw [hnil, render_ofLists_nil, measurementLines?_noData]
  · next hne =>
    obtain ⟨s, -, htext⟩ := exists_render_ofLists hne unmatched
    rw [htext, measurementLines?_markdown]

theorem unmatchedLines?_ofLists (measurements : List Measurement)
    (unmatched : List UnmatchedSend) :
    unmatchedLines? ((ofLists measurements unmatched).render .markdown)
      = if measurements = [] ∨ unmatched = [] then none
        else some (unmatched.map unmatchedRow) := by
  by_cases hne : measurements = []
  · rw [if_pos (Or.inl hne), hne, render_ofLists_nil, unmatchedLines?_noData]
  · obtain ⟨s, -, htext⟩ := exists_render_ofLists hne unmatched
    simp only [htext, unmatchedLines?_markdown, hne, false_or]

/-- Without measurements the text is one sentence. -/
theorem render_ofLists_eq_noData_iff :
    (ofLists measurements unmatched).render .markdown = noData ↔ measurements = [] := by
  constructor
  · intro h
    have hrows := measurementLines?_ofLists measurements unmatched
    rw [h, measurementLines?_noData] at hrows
    by_contra hne
    rw [if_neg hne] at hrows
    exact nomatch hrows
  · rintro rfl
    rfl

theorem unmatchedHeading_mem_ofLists_iff :
    unmatchedHeading ∈ textLines ((ofLists measurements unmatched).render .markdown)
      ↔ measurements ≠ [] ∧ unmatched ≠ [] := by
  by_cases hne : measurements = []
  · rw [hne, render_ofLists_nil]
    exact iff_of_false unmatchedHeading_not_mem_noData fun h => h.1 rfl
  · obtain ⟨s, -, htext⟩ := exists_render_ofLists hne unmatched
    rw [htext, unmatchedHeading_mem_iff, and_iff_right hne]

/-- A markdown report is read back, whatever the measurements and the unmatched sends are. It is the
sentence on missing data exactly if there are no measurements. Otherwise the lines between the first
two rules are one row for each measurement, in order, with four cells that hold neither a bar nor a
line feed, and from which the index is read back and what rounding has left of the values. The
section of the unmatched sends is there exactly if there are measurements and unmatched sends, and
then it ends the text with one such row of two cells for each of them, in order. -/
theorem markdown_read_back (measurements : List Measurement) (unmatched : List UnmatchedSend) :
    let text := (ofLists measurements unmatched).render .markdown
    (text = noData ↔ measurements = [])
    ∧ measurementLines? text
        = (if measurements = [] then none else some (measurements.map measurementRow))
    ∧ (∀ m, rowCells? (measurementRow m) = some (measurementCells m)
        ∧ (∀ cell ∈ measurementCells m, '|' ∉ cell.toList ∧ '\n' ∉ cell.toList)
        ∧ readRow? (measurementRow m) = some ((m.index : Int), [Rounded.ofFloat 2 m.sendTime,
            Rounded.ofFloat 2 m.receiveTime, Rounded.ofFloat 2 m.latency]))
    ∧ (unmatchedHeading ∈ textLines text ↔ measurements ≠ [] ∧ unmatched ≠ [])
    ∧ unmatchedLines? text
        = (if measurements = [] ∨ unmatched = [] then none
          else some (unmatched.map unmatchedRow))
    ∧ ∀ u, rowCells? (unmatchedRow u) = some (unmatchedCells u)
        ∧ (∀ cell ∈ unmatchedCells u, '|' ∉ cell.toList ∧ '\n' ∉ cell.toList)
        ∧ readRow? (unmatchedRow u) = some ((u.index : Int), [Rounded.ofFloat 2 u.sendTime]) := by
  have hapart {cells : List String} (hcells : ∀ cell ∈ cells, IsCell cell) :
      ∀ cell ∈ cells, '|' ∉ cell.toList ∧ '\n' ∉ cell.toList := fun cell hcell =>
    ⟨(hcells cell hcell).bar_not_mem, (hcells cell hcell).lineFeed_not_mem⟩
  exact ⟨render_ofLists_eq_noData_iff, measurementLines?_ofLists measurements unmatched,
    fun m => ⟨rowCells?_measurementRow m, hapart (isCell_of_mem_measurementCells m),
      readRow?_row m.index [m.sendTime, m.receiveTime, m.latency]⟩,
    unmatchedHeading_mem_ofLists_iff, unmatchedLines?_ofLists measurements unmatched,
    fun u => ⟨rowCells?_unmatchedRow u, hapart (isCell_of_mem_unmatchedCells u),
      readRow?_row u.index [u.sendTime]⟩⟩

/-- A measurement with halves of the last place, and an unmatched send, as their rows stand in the
text. -/
theorem markdown_read_back_halves :
    let text := (ofLists [⟨7, 1.125, 4.5, 3.375⟩] [⟨8, 1e3⟩]).render .markdown
    measurementLines? text = some ["| 7 | 1.12 | 4.50 | 3.38 |"]
    ∧ unmatchedLines? text = some ["| 8 | 1000.00 |"] := by
  obtain ⟨-, hrows, -, -, hunmatched, -⟩ := markdown_read_back [⟨7, 1.125, 4.5, 3.375⟩] [⟨8, 1e3⟩]
  exact ⟨hrows.trans (by decide +kernel), hunmatched.trans (by decide +kernel)⟩

/-- One unmatched send and no measurement: the send is left out. -/
theorem unmatched_left_out_without_measurements :
    ¬ (unmatchedHeading ∈ textLines ((ofLists [] [⟨0, 1.0⟩]).render .markdown)
      ↔ ([⟨0, 1.0⟩] : List UnmatchedSend) ≠ []) := by
  rw [render_ofLists_nil]
  exact fun h => unmatchedHeading_not_mem_noData (h.mpr (List.cons_ne_nil _ _))

end TriggerLatency.Report
