import TriggerLatency.Proofs.Attainment
import TriggerLatency.Proofs.Report.Markdown

/-!
# The extremes in a report

The least and the greatest latency are printed in rows of their own, rounded like the latencies
above them. They are latencies, and rounding keeps the order; so the least is printed as some cell
of the latency column is, and no cell of the column writes a lesser number, and the same holds of
the greatest (`printed_extremes_agree`). Latencies that differ may be printed alike, but never in
the wrong order.
-/

namespace TriggerLatency.Report

open Decimal

variable {s : Summary} {measurements : List Measurement} {label : String}

/-! ## What is looked for -/

/-- The number of a row in bold, if the row has that label. -/
def boldNumber? (label line : String) : Option String :=
  match rowCells? line with
  | some [name, _, _, number] =>
    if name = "**" ++ label ++ "**" then
      some (String.ofList (number.toList.filter (· ≠ '*')))
    else none
  | _ => none

/-- The numbers of all rows in bold with a label. -/
def boldNumbers (label text : String) : List String :=
  (textLines text).filterMap (boldNumber? label)

/-- The cells of the latency column, in the rows of measurements. -/
def latencyCells (text : String) : List String :=
  ((measurementLines? text).getD []).filterMap fun line => (rowCells? line).bind (·[3]?)

/-- A cell of a column, and no cell of the column writes a lesser number. -/
structure IsLeastCell (cell : String) (column : List String) : Prop where
  mem : cell ∈ column
  le : ∀ other ∈ column, ∃ v w, exactValue? 2 cell.toList = some v
    ∧ exactValue? 2 other.toList = some w ∧ v ≤ w

/-- A cell of a column, and no cell of the column writes a greater number. -/
structure IsGreatestCell (cell : String) (column : List String) : Prop where
  mem : cell ∈ column
  ge : ∀ other ∈ column, ∃ v w, exactValue? 2 other.toList = some v
    ∧ exactValue? 2 cell.toList = some w ∧ v ≤ w

/-! ## Rows in bold -/

/-- A row in bold has marks in its first cell. -/
theorem boldNumber?_eq_none {line : String}
    (h : ∀ name ∈ (rowCells? line).bind List.head?, '*' ∉ name.toList) :
    boldNumber? label line = none := by
  unfold boldNumber?
  split
  · next name _ _ number hcells =>
    refine if_neg ?_
    rintro rfl
    refine h _ (by rw [hcells]; rfl) ?_
    simp
  · rfl

theorem boldNumber?_row (index : Nat) (values : List Float) :
    boldNumber? label (row (toString index :: values.map (fixed 2))) = none := by
  refine boldNumber?_eq_none fun name hname => ?_
  rw [rowCells?_row (isCell_of_mem_values index values)] at hname
  obtain rfl := Option.some.inj hname
  exact fun hmark => Json.ne_of_isDigit (isDigit_of_mem_toString hmark) rfl rfl

/-- What stands above the rows of the two tables, and between the tables. -/
def headLines : List String :=
  [tableHeader, tableRule, "", unmatchedHeading, "| Packet Number | TX Trigger Time (ms) |",
    unmatchedRule]

theorem boldNumber?_of_mem_headLines {line : String} (h : line ∈ headLines) :
    boldNumber? label line = none := by
  have hplain : ∀ line ∈ headLines, ∀ name ∈ (rowCells? line).bind List.head?,
      '*' ∉ name.toList := by decide
  exact boldNumber?_eq_none (hplain line h)

theorem boldNumber?_of_mem_summaryLines {line : String} (h : line ∈ summaryLines s) :
    boldNumber? label line = none := by
  have hheadings : ∀ line ∈ ["## UDP Latency Analysis Results", "", "**Summary Statistics:**"],
      rowCells? line = none := by decide
  have hnone : rowCells? line = none := by
    by_cases hdash : line.toList.head? = some '-'
    · refine rowCells?_eq_none ?_
      rw [hdash]
      decide
    · by_contra hrow
      exact not_mem_summaryLines hdash (fun hmem => hrow (hheadings line hmem)) h
  refine boldNumber?_eq_none ?_
  rw [hnone]
  exact nofun

theorem boldNumber?_of_mem_unmatchedLines {unmatched : List UnmatchedSend} {line : String}
    (h : line ∈ unmatchedLines unmatched) : boldNumber? label line = none := by
  unfold unmatchedLines at h
  split at h
  · exact absurd h List.not_mem_nil
  · rw [List.mem_append, List.mem_map] at h
    rcases h with hhead | ⟨u, -, rfl⟩
    · have hheads : ∀ line ∈ ["", "### Unmatched TX Triggers", "",
          "| Packet Number | TX Trigger Time (ms) |",
          "|---------------|---------------------|"], line ∈ headLines := by decide
      exact boldNumber?_of_mem_headLines (hheads line hhead)
    · exact boldNumber?_row u.index [u.sendTime]

/-- The number of a row in bold is found again without its marks. -/
theorem boldNumber?_summaryRow {label' : String} (hlabel : IsCell label') (value : Float) :
    boldNumber? label (summaryRow label' value)
      = if label' = label then some (fixed 2 value) else none := by
  have hcells : rowCells? (summaryRow label' value) = some (statisticCells label' value) :=
    rowCells?_row (isCell_of_mem_statisticCells hlabel value)
  have hkeep : (fixed 2 value).toList.filter (· ≠ '*') = (fixed 2 value).toList := by
    rw [List.filter_eq_self]
    intro c hc
    exact decide_eq_true (apart_of_isPlain (isPlain_of_mem_fixed hc)).2.2
  have hnumber : String.ofList (("**" ++ fixed 2 value ++ "**").toList.filter (· ≠ '*'))
      = fixed 2 value := by
    rw [String.toList_append, String.toList_append, List.filter_append, List.filter_append, hkeep]
    simp
  have hname : "**" ++ label' ++ "**" = "**" ++ label ++ "**" ↔ label' = label := by simp
  unfold boldNumber?
  rw [hcells]
  dsimp only [statisticCells]
  rw [hnumber]
  simp only [hname]

/-- The statistics are the only rows in bold. -/
theorem boldNumbers_markdown (s : Summary) (measurements : List Measurement)
    (unmatched : List UnmatchedSend) :
    boldNumbers label (markdown ⟨some s, measurements, unmatched⟩)
      = [("Average", s.mean), ("Minimum", s.min), ("Maximum", s.max)].filterMap
          fun statistic => if statistic.1 = label then some (fixed 2 statistic.2) else none := by
  have hsummary : (summaryLines s).filterMap (boldNumber? label) = [] :=
    List.filterMap_eq_nil_iff.mpr fun _ h => boldNumber?_of_mem_summaryLines h
  have hunmatched : (unmatchedLines unmatched).filterMap (boldNumber? label) = [] :=
    List.filterMap_eq_nil_iff.mpr fun _ h => boldNumber?_of_mem_unmatchedLines h
  have hrows : (measurements.map measurementRow).filterMap (boldNumber? label) = [] := by
    rw [List.filterMap_eq_nil_iff, List.forall_mem_map]
    exact fun m _ => boldNumber?_row m.index [m.sendTime, m.receiveTime, m.latency]
  have hheader : boldNumber? label tableHeader = none :=
    boldNumber?_of_mem_headLines (by decide)
  have hrule : boldNumber? label tableRule = none := boldNumber?_of_mem_headLines (by decide)
  unfold boldNumbers
  rw [textLines_markdown, List.filterMap_append, List.filterMap_append, hsummary, hunmatched,
    tableLines, List.filterMap_append, List.filterMap_append, hrows]
  simp only [List.filterMap_cons, List.filterMap_nil, hheader, hrule,
    boldNumber?_summaryRow (show IsCell "Average" by decide),
    boldNumber?_summaryRow (show IsCell "Minimum" by decide),
    boldNumber?_summaryRow (show IsCell "Maximum" by decide), List.nil_append, List.append_nil]

theorem latencyCells_markdown (s : Summary) (measurements : List Measurement)
    (unmatched : List UnmatchedSend) :
    latencyCells (markdown ⟨some s, measurements, unmatched⟩)
      = measurements.map fun m => fixed 2 m.latency := by
  unfold latencyCells
  rw [measurementLines?_markdown, Option.getD_some, List.filterMap_map,
    ← List.filterMap_eq_map]
  refine List.filterMap_congr fun m _ => ?_
  rw [Function.comp_apply, rowCells?_measurementRow]
  rfl

/-! ## Extremes -/

variable {x : Float} {latencies : List Float}

theorem isLeastCell_of_isLeastFinite (h : IsLeastFinite x latencies)
    (hfinite : ∀ y ∈ latencies, y.isFinite = true) :
    IsLeastCell (fixed 2 x) (latencies.map (fixed 2)) := by
  refine ⟨List.mem_map_of_mem h.mem, ?_⟩
  rw [List.forall_mem_map]
  intro y hy
  simp only [fixed, String.toList_ofList]
  exact exactValue?_mono (by omega) h.isFinite (hfinite y hy) (h.le y hy (hfinite y hy))

theorem isGreatestCell_of_isGreatestFinite (h : IsGreatestFinite x latencies)
    (hfinite : ∀ y ∈ latencies, y.isFinite = true) :
    IsGreatestCell (fixed 2 x) (latencies.map (fixed 2)) := by
  refine ⟨List.mem_map_of_mem h.mem, ?_⟩
  rw [List.forall_mem_map]
  intro y hy
  simp only [fixed, String.toList_ofList]
  exact exactValue?_mono (by omega) (hfinite y hy) h.isFinite (h.ge y hy (hfinite y hy))

/-- The extremes of a summary of finite latencies. -/
theorem extremes_of_ofMeasurements (hs : Summary.ofMeasurements measurements = some s)
    (hne : measurements ≠ []) (hfinite : ∀ m ∈ measurements, m.latency.isFinite = true) :
    IsLeastFinite s.min (measurements.map (·.latency))
    ∧ IsGreatestFinite s.max (measurements.map (·.latency)) := by
  have hlatencies : ∀ y ∈ measurements.map (·.latency), y.isFinite = true :=
    List.forall_mem_map.mpr hfinite
  have hsome : measurements.map (·.latency) ≠ [] := mt List.map_eq_nil_iff.mp hne
  obtain ⟨y, hy⟩ := List.exists_mem_of_ne_nil _ hsome
  have hextremes := Accumulator.extremes_after (fun y hy => Or.inl (hlatencies y hy))
    ⟨y, hy, hlatencies y hy⟩
  obtain rfl := Option.some.inj (hs.symm.trans (Accumulator.finish_after hsome))
  exact hextremes

/-- For finite latencies, at least one, the markdown report has one row in bold for the least
latency and one for the greatest. The number in the first is literally a cell of the latency column,
and no cell of the column writes a lesser number; and in the second likewise, with no greater
one. -/
theorem printed_extremes_agree (hne : measurements ≠ [])
    (hfinite : ∀ m ∈ measurements, m.latency.isFinite = true) (unmatched : List UnmatchedSend) :
    let text := (ofLists measurements unmatched).render .markdown
    latencyCells text = measurements.map (fun m => fixed 2 m.latency)
    ∧ (∃ least, boldNumbers "Minimum" text = [least] ∧ IsLeastCell least (latencyCells text))
    ∧ ∃ greatest, boldNumbers "Maximum" text = [greatest]
      ∧ IsGreatestCell greatest (latencyCells text) := by
  intro text
  obtain ⟨s, hs, htext⟩ := exists_render_ofLists hne unmatched
  obtain ⟨hleast, hgreatest⟩ := extremes_of_ofMeasurements hs hne hfinite
  have hlatencies : ∀ y ∈ measurements.map (·.latency), y.isFinite = true :=
    List.forall_mem_map.mpr hfinite
  have hcells : latencyCells text = (measurements.map (·.latency)).map (fixed 2) := by
    rw [List.map_map, show text = _ from htext, latencyCells_markdown]
    rfl
  have hbold (label : String) : boldNumbers label text = _ :=
    (congrArg (boldNumbers label) htext).trans (boldNumbers_markdown s measurements unmatched)
  refine ⟨hcells.trans (List.map_map ..), ⟨fixed 2 s.min, hbold "Minimum", ?_⟩,
    fixed 2 s.max, hbold "Maximum", ?_⟩
  · rw [hcells]
    exact isLeastCell_of_isLeastFinite hleast hlatencies
  · rw [hcells]
    exact isGreatestCell_of_isGreatestFinite hgreatest hlatencies

/-- Halves of the last place, which go to the even neighbour, and a latency below half a unit. -/
def sampleLatencies : List Measurement :=
  [⟨0, 0, 0.125, 0.125⟩, ⟨3, 1, 1.12, 0.12⟩, ⟨7, 2, 2.375, 0.375⟩, ⟨8, 4, 4.004, 0.004⟩]

/-- The least of them is printed as zero, and the first two are printed alike. -/
theorem printed_extremes_agree_of_halves :
    let text := (ofLists sampleLatencies []).render .markdown
    sampleLatencies ≠ []
    ∧ (∀ m ∈ sampleLatencies, m.latency.isFinite = true)
    ∧ latencyCells text = ["0.12", "0.12", "0.38", "0.00"]
    ∧ (boldNumbers "Minimum" text = ["0.00"] ∧ IsLeastCell "0.00" (latencyCells text))
    ∧ boldNumbers "Maximum" text = ["0.38"] ∧ IsGreatestCell "0.38" (latencyCells text) := by
  have hne : sampleLatencies ≠ [] := List.cons_ne_nil _ _
  have hfinite : ∀ m ∈ sampleLatencies, m.latency.isFinite = true := by decide +kernel
  obtain ⟨s, hs, htext⟩ := exists_render_ofLists hne []
  have hextremes : (Summary.ofMeasurements sampleLatencies).map
      (fun s => (fixed 2 s.min, fixed 2 s.max)) = some ("0.00", "0.38") := by decide +kernel
  rw [hs] at hextremes
  obtain ⟨hmin, hmax⟩ := Prod.mk.inj (Option.some.inj hextremes)
  have hminimum : boldNumbers "Minimum" _ = _ := boldNumbers_markdown s sampleLatencies []
  have hmaximum : boldNumbers "Maximum" _ = _ := boldNumbers_markdown s sampleLatencies []
  rw [← htext] at hminimum hmaximum
  obtain ⟨hcells, ⟨least, hleast, hle⟩, greatest, hgreatest, hge⟩ :=
    printed_extremes_agree hne hfinite []
  obtain rfl : "0.00" = least := hmin ▸ List.singleton_inj.mp (hminimum.symm.trans hleast)
  obtain rfl : "0.38" = greatest := hmax ▸ List.singleton_inj.mp (hmaximum.symm.trans hgreatest)
  exact ⟨hne, hfinite, hcells.trans (by decide +kernel), ⟨hleast, hle⟩, hgreatest, hge⟩

end TriggerLatency.Report
