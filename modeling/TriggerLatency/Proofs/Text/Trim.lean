import TriggerLatency.Text.Split
import Mathlib.Data.List.Induction
import Mathlib.Data.List.TakeWhile

/-!
# Trimming

White space at an end of a text does not count once the text is trimmed: one blank character more
at either end makes no difference (`trim_cons`, `trim_concat`), and nothing is left exactly of
what is blank throughout (`trim_eq_nil_iff`). What is left is the text without the white space at
its ends, and nothing else is taken off (`trims_iff`). A separator is not blank, so trimming a
line before it is cut only trims the first and the last of its fields (`map_trim_splitOn_trim`).
-/

namespace TriggerLatency.Text

variable {c : Char} {cs : List Char}

@[simp] theorem trim_nil : trim [] = [] := rfl

theorem trim_cons (hc : isBlank c = true) : trim (c :: cs) = trim cs := by
  unfold trim trimStart
  rw [List.dropWhile_cons_of_pos hc]

theorem trimEnd_concat (hc : isBlank c = true) : trimEnd (cs ++ [c]) = trimEnd cs := by
  unfold trimEnd trimStart
  rw [List.reverse_append, List.reverse_singleton, List.singleton_append,
    List.dropWhile_cons_of_pos hc]

/-- What is not blank stays at the start. -/
theorem trimEnd_cons (hc : isBlank c = false) : trimEnd (c :: cs) = c :: trimEnd cs := by
  unfold trimEnd trimStart
  rw [List.reverse_cons, List.dropWhile_append]
  split
  · next h =>
    rw [List.isEmpty_iff.mp h, List.dropWhile_cons_of_neg (by simp [hc])]
    rfl
  · rw [List.reverse_append, List.reverse_singleton, List.singleton_append]

theorem trimEnd_eq_nil_iff : trimEnd cs = [] ↔ ∀ c ∈ cs, isBlank c = true := by
  unfold trimEnd trimStart
  rw [List.reverse_eq_nil_iff, List.dropWhile_eq_nil_iff]
  simp only [List.mem_reverse]

theorem trim_concat (hc : isBlank c = true) : trim (cs ++ [c]) = trim cs := by
  induction cs with
  | nil => exact trim_cons hc
  | cons d cs ih =>
    by_cases hd : isBlank d = true
    · rw [List.cons_append, trim_cons hd, trim_cons hd, ih]
    · -- nothing goes at the start
      have hstart (rest : List Char) : trimStart (d :: rest) = d :: rest :=
        List.dropWhile_cons_of_neg hd
      rw [trim, trim, List.cons_append, hstart, hstart, ← List.cons_append, trimEnd_concat hc]

theorem trim_eq_nil_iff : trim cs = [] ↔ ∀ c ∈ cs, isBlank c = true := by
  induction cs with
  | nil => simp
  | cons d cs ih =>
    rw [List.forall_mem_cons, ← ih]
    by_cases hd : isBlank d = true
    · rw [trim_cons hd]
      exact ⟨fun h => ⟨hd, h⟩, And.right⟩
    · -- a character that is not blank is left, whatever stands behind it
      have hleft : trim (d :: cs) ≠ [] := by
        unfold trim trimEnd trimStart
        rw [List.dropWhile_cons_of_neg hd, ne_eq, List.reverse_eq_nil_iff,
          List.dropWhile_eq_nil_iff]
        intro hall
        exact hd (hall d (by simp))
      exact ⟨fun h => absurd h hleft, fun h => absurd h.1 hd⟩

theorem mem_of_mem_trimEnd (h : c ∈ trimEnd cs) : c ∈ cs := by
  unfold trimEnd trimStart at h
  exact List.mem_reverse.mp ((List.dropWhile_sublist _).subset (List.mem_reverse.mp h))

theorem mem_trimStart (hc : isBlank c = false) (h : c ∈ cs) : c ∈ trimStart cs := by
  rw [← List.takeWhile_append_dropWhile (p := isBlank) (l := cs), List.mem_append] at h
  refine h.resolve_left fun htake => ?_
  rw [List.mem_takeWhile_imp htake] at hc
  exact Bool.noConfusion hc

/-- What is not blank is not trimmed off. -/
theorem mem_trim (hc : isBlank c = false) (h : c ∈ cs) : c ∈ trim cs := by
  unfold trim trimEnd
  rw [List.mem_reverse]
  exact mem_trimStart hc (List.mem_reverse.mpr (mem_trimStart hc h))

/-! ## Fields and the white space around them -/

/-- A text is a field with white space around it, and the field begins and ends with none. -/
structure Trims (text field : List Char) : Prop where
  around : ∃ before after, text = before ++ field ++ after
    ∧ (∀ c ∈ before, isBlank c = true) ∧ ∀ c ∈ after, isBlank c = true
  first : ∀ c ∈ field.head?, isBlank c = false
  last : ∀ c ∈ field.getLast?, isBlank c = false

theorem trim_blanks_append {before : List Char} (h : ∀ c ∈ before, isBlank c = true)
    (cs : List Char) : trim (before ++ cs) = trim cs := by
  induction before with
  | nil => rfl
  | cons c before ih =>
    obtain ⟨hc, hbefore⟩ := List.forall_mem_cons.mp h
    rw [List.cons_append, trim_cons hc, ih hbefore]

theorem trim_append_blanks {after : List Char} (h : ∀ c ∈ after, isBlank c = true)
    (cs : List Char) : trim (cs ++ after) = trim cs := by
  induction after using List.reverseRecOn with
  | nil => rw [List.append_nil]
  | append_singleton after c ih =>
    obtain ⟨hafter, hc⟩ := List.forall_mem_append.mp h
    rw [← List.append_assoc, trim_concat (hc c (List.mem_singleton_self c)), ih hafter]

/-- Without white space at its ends a text is left as it is. -/
theorem trim_eq_self_of_ends (hfirst : ∀ c ∈ cs.head?, isBlank c = false)
    (hlast : ∀ c ∈ cs.getLast?, isBlank c = false) : trim cs = cs := by
  have hstart : trimStart cs = cs := by
    cases cs with
    | nil => rfl
    | cons c cs => exact List.dropWhile_cons_of_neg (by simp [hfirst c rfl])
  rw [trim, hstart]
  rcases List.eq_nil_or_concat cs with rfl | ⟨front, c, rfl⟩
  · rfl
  · have hc : isBlank c = false := hlast c (by simp)
    rw [trimEnd, List.concat_eq_append, List.reverse_append, List.reverse_singleton,
      List.singleton_append, trimStart, List.dropWhile_cons_of_neg (by simp [hc]),
      List.reverse_cons, List.reverse_reverse]

/-- Without white space there is nothing to trim. -/
theorem trim_eq_self (h : ∀ c ∈ cs, isBlank c = false) : trim cs = cs :=
  trim_eq_self_of_ends (fun c hc => h c (List.mem_of_head? hc))
    fun c hc => h c (List.mem_of_getLast? hc)

theorem takeWhile_append_trimStart (cs : List Char) :
    cs.takeWhile isBlank ++ trimStart cs = cs := List.takeWhile_append_dropWhile

/-- What is left at the start of a text is not blank. -/
theorem isBlank_of_mem_head?_trimStart (h : c ∈ (trimStart cs).head?) : isBlank c = false := by
  have hnot := List.head?_dropWhile_not isBlank cs
  rw [← trimStart, Option.mem_def.mp h] at hnot
  exact hnot

/-- Trimming takes off all white space at the ends, and nothing else. -/
theorem trims_trim (text : List Char) : Trims text (trim text) where
  around := by
    refine ⟨text.takeWhile isBlank, ((trimStart text).reverse.takeWhile isBlank).reverse, ?_,
      fun c hc => List.mem_takeWhile_imp hc,
      fun c hc => List.mem_takeWhile_imp (List.mem_reverse.mp hc)⟩
    have hend : trim text ++ ((trimStart text).reverse.takeWhile isBlank).reverse
        = trimStart text := by
      rw [trim, trimEnd, ← List.reverse_append, takeWhile_append_trimStart, List.reverse_reverse]
    rw [List.append_assoc, hend, takeWhile_append_trimStart]
  first := by
    intro c hc
    cases hstart : trimStart text with
    | nil =>
      rw [trim, hstart] at hc
      exact nomatch hc
    | cons d rest =>
      have hd : isBlank d = false := isBlank_of_mem_head?_trimStart (by rw [hstart]; rfl)
      rw [trim, hstart, trimEnd_cons hd] at hc
      obtain rfl := Option.some.inj hc
      exact hd
  last := by
    intro c hc
    unfold trim trimEnd at hc
    rw [List.getLast?_reverse] at hc
    exact isBlank_of_mem_head?_trimStart hc

theorem trims_iff {text field : List Char} : Trims text field ↔ trim text = field := by
  constructor
  · intro h
    obtain ⟨before, after, rfl, hbefore, hafter⟩ := h.around
    rw [trim_append_blanks hafter, trim_blanks_append hbefore,
      trim_eq_self_of_ends h.first h.last]
  · rintro rfl
    exact trims_trim text

/-! ## Cutting what is trimmed -/

section

variable {α : Type} [DecidableEq α] {sep x : α}

/-- What is not a separator goes to the last field. -/
theorem exists_splitOn_concat (hx : x ≠ sep) (xs : List α) :
    ∃ front last, splitOn sep xs = front ++ [last]
      ∧ splitOn sep (xs ++ [x]) = front ++ [last ++ [x]] := by
  induction xs with
  | nil =>
    refine ⟨[], [], rfl, ?_⟩
    rw [List.nil_append, splitOn_cons, if_neg hx]
    rfl
  | cons y ys ih =>
    obtain ⟨front, last, hys, hyx⟩ := ih
    rw [List.cons_append, splitOn_cons, splitOn_cons, hys, hyx]
    by_cases hy : y = sep
    · rw [if_pos hy, if_pos hy]
      exact ⟨[] :: front, last, rfl, rfl⟩
    · rw [if_neg hy, if_neg hy]
      cases front with
      | nil => exact ⟨[], y :: last, rfl, rfl⟩
      | cons first front => exact ⟨(y :: first) :: front, last, rfl, rfl⟩

end

variable {sep : Char}

theorem map_trim_splitOn_cons (hsep : isBlank sep = false) (hc : isBlank c = true) :
    (splitOn sep (c :: cs)).map trim = (splitOn sep cs).map trim := by
  have hne : c ≠ sep := by
    intro h
    rw [h, hsep] at hc
    exact absurd hc Bool.false_ne_true
  rw [splitOn_cons, if_neg hne]
  cases hfields : splitOn sep cs with
  | nil => exact absurd hfields (splitOn_ne_nil sep cs)
  | cons first rest =>
    show trim (c :: first) :: rest.map trim = _
    rw [trim_cons hc, List.map_cons]

theorem map_trim_splitOn_concat (hsep : isBlank sep = false) (hc : isBlank c = true) :
    (splitOn sep (cs ++ [c])).map trim = (splitOn sep cs).map trim := by
  have hne : c ≠ sep := by
    intro h
    rw [h, hsep] at hc
    exact absurd hc Bool.false_ne_true
  obtain ⟨front, last, hfields, hconcat⟩ := exists_splitOn_concat hne cs
  rw [hfields, hconcat, List.map_append, List.map_append, List.map_singleton, List.map_singleton,
    trim_concat hc]

theorem map_trim_splitOn_trimEnd (hsep : isBlank sep = false) (cs : List Char) :
    (splitOn sep (trimEnd cs)).map trim = (splitOn sep cs).map trim := by
  induction cs using List.reverseRecOn with
  | nil => rfl
  | append_singleton cs c ih =>
    by_cases hc : isBlank c = true
    · rw [trimEnd_concat hc, ih, map_trim_splitOn_concat hsep hc]
    · rw [trimEnd, List.reverse_append, List.reverse_singleton, List.singleton_append, trimStart,
        List.dropWhile_cons_of_neg hc, List.reverse_cons, List.reverse_reverse]

/-- The trimmed fields of a line are those of the trimmed line. -/
theorem map_trim_splitOn_trim (hsep : isBlank sep = false) (cs : List Char) :
    (splitOn sep (trim cs)).map trim = (splitOn sep cs).map trim := by
  have hstart : (splitOn sep (trimStart cs)).map trim = (splitOn sep cs).map trim := by
    induction cs with
    | nil => rfl
    | cons c cs ih =>
      by_cases hc : isBlank c = true
      · rw [trimStart, List.dropWhile_cons_of_pos hc, map_trim_splitOn_cons hsep hc]
        exact ih
      · rw [trimStart, List.dropWhile_cons_of_neg hc]
  rw [← hstart, trim, map_trim_splitOn_trimEnd hsep]

end TriggerLatency.Text
