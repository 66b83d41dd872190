import TriggerLatency.Text.Split
import Mathlib.Data.List.Basic

/-!
# Pieces and joints

How the pieces of a list depend on the list. What holds no separator is cut off with the separator
behind it, whatever comes then (`splitAfter_closed_cons`). That is one step of an induction piece by
piece (`pieceInduction`), by which a piece holds the separator at its end or nowhere
(`exists_body_of_mem_splitAfter`), and the closed pieces of a list that is broken off are the first
pieces of the whole list (`filter_closed_splitAfter`, `take_splitAfter_append`).

Fields that hold no separator are found again when they are joined by it (`splitOn_intercalate`).
-/

namespace TriggerLatency.Text

variable {α : Type} [DecidableEq α] {sep : α} {xs : List α}

/-- What holds no separator goes to the first piece of what is behind it. -/
theorem splitAfter_append_of_not_mem (h : sep ∉ xs) (hne : xs ≠ []) (ys : List α) :
    splitAfter sep (xs ++ ys) = match splitAfter sep ys with
      | [] => [xs]
      | p :: ps => (xs ++ p) :: ps := by
  induction xs with
  | nil => exact absurd rfl hne
  | cons x xs ih =>
    have hx : x ≠ sep := (List.ne_of_not_mem_cons h).symm
    rw [List.cons_append, splitAfter_cons, if_neg hx]
    cases xs with
    | nil =>
      rw [List.nil_append]
      cases splitAfter sep ys <;> rfl
    | cons x' xs =>
      rw [ih (List.not_mem_of_not_mem_cons h) (List.cons_ne_nil x' xs)]
      cases splitAfter sep ys <;> rfl

/-- What holds no separator is one piece. -/
theorem splitAfter_of_not_mem (h : sep ∉ xs) (hne : xs ≠ []) : splitAfter sep xs = [xs] := by
  have hpieces := splitAfter_append_of_not_mem h hne []
  rwa [List.append_nil] at hpieces

/-- With the separator behind it, it is a piece that is closed. -/
theorem splitAfter_closed_cons (h : sep ∉ xs) (ys : List α) :
    splitAfter sep (xs ++ sep :: ys) = (xs ++ [sep]) :: splitAfter sep ys := by
  have hclosed : splitAfter sep (sep :: ys) = [sep] :: splitAfter sep ys := by
    rw [splitAfter_cons, if_pos rfl]
  cases xs with
  | nil => exact hclosed
  | cons x xs => rw [splitAfter_append_of_not_mem h (List.cons_ne_nil x xs), hclosed]

/-- Induction piece by piece: one that is broken off, or one that is closed in front of others. -/
@[elab_as_elim]
theorem pieceInduction (sep : α) {motive : List α → Prop} (xs : List α)
    (broken : ∀ xs, sep ∉ xs → motive xs)
    (closed : ∀ body rest, sep ∉ body → motive rest → motive (body ++ sep :: rest)) :
    motive xs := by
  induction hn : xs.length using Nat.strongRecOn generalizing xs with
  | ind n ih =>
    by_cases hmem : sep ∈ xs
    · obtain ⟨body, rest, rfl, hbody⟩ := List.eq_append_cons_of_mem hmem
      refine closed body rest hbody (ih rest.length ?_ rest rfl)
      rw [← hn, List.length_append, List.length_cons]
      omega
    · exact broken xs hmem

/-- A piece holds the separator at its end or nowhere. -/
theorem exists_body_of_mem_splitAfter {p : List α} (h : p ∈ splitAfter sep xs) :
    ∃ body, sep ∉ body ∧ (p = body ∨ p = body ++ [sep]) := by
  induction xs using pieceInduction sep with
  | broken xs hxs =>
    by_cases hne : xs = []
    · rw [hne] at h
      exact absurd h List.not_mem_nil
    · rw [splitAfter_of_not_mem hxs hne] at h
      exact ⟨xs, hxs, Or.inl (List.mem_singleton.mp h)⟩
  | closed body rest hbody ih =>
    rw [splitAfter_closed_cons hbody] at h
    rcases List.mem_cons.mp h with rfl | hmem
    · exact ⟨body, hbody, Or.inr rfl⟩
    · exact ih hmem

/-- A separator at the end is a piece of its own, or closes the last piece. -/
theorem splitAfter_concat (sep : α) (xs : List α) :
    splitAfter sep (xs ++ [sep]) = splitAfter sep xs ++ [[sep]]
    ∨ ∃ front last, splitAfter sep xs = front ++ [last]
      ∧ splitAfter sep (xs ++ [sep]) = front ++ [last ++ [sep]] := by
  induction xs using pieceInduction sep with
  | broken xs hxs =>
    rw [splitAfter_closed_cons hxs]
    by_cases hne : xs = []
    · rw [hne]
      exact Or.inl rfl
    · exact Or.inr ⟨[], xs, splitAfter_of_not_mem hxs hne, rfl⟩
  | closed body rest hbody ih =>
    rw [List.append_assoc, List.cons_append, splitAfter_closed_cons hbody,
      splitAfter_closed_cons hbody]
    rcases ih with h | ⟨front, last, hrest, hclosed⟩
    · rw [h]
      exact Or.inl rfl
    · rw [hrest, hclosed]
      exact Or.inr ⟨(body ++ [sep]) :: front, last, rfl, rfl⟩

/-! ## Lists that are broken off -/

/-- As many pieces as there are separators do not depend on what comes behind. -/
theorem take_splitAfter_append (sep : α) (xs ys : List α) :
    (splitAfter sep (xs ++ ys)).take (xs.count sep) = (splitAfter sep xs).take (xs.count sep) := by
  induction xs using pieceInduction sep with
  | broken xs hxs => rw [List.count_eq_zero_of_not_mem hxs, List.take_zero, List.take_zero]
  | closed body rest hbody ih =>
    rw [List.append_assoc, List.cons_append, splitAfter_closed_cons hbody,
      splitAfter_closed_cons hbody, List.count_append, List.count_eq_zero_of_not_mem hbody,
      List.count_cons_self, Nat.zero_add, List.take_succ_cons, List.take_succ_cons, ih]

/-- The pieces that are closed come first, and are as many as there are separators. -/
theorem filter_closed_splitAfter (sep : α) (xs : List α) :
    (splitAfter sep xs).filter (fun p => p.getLast? = some sep)
      = (splitAfter sep xs).take (xs.count sep) := by
  induction xs using pieceInduction sep with
  | broken xs hxs =>
    rw [List.count_eq_zero_of_not_mem hxs, List.take_zero, List.filter_eq_nil_iff]
    intro p hp hclosed
    obtain ⟨q, rfl⟩ := List.getLast?_eq_some_iff.mp (of_decide_eq_true hclosed)
    have hmem : sep ∈ (splitAfter sep xs).flatten :=
      List.mem_flatten.mpr ⟨q ++ [sep], hp, List.mem_append_right q (List.mem_singleton_self sep)⟩
    rw [flatten_splitAfter] at hmem
    exact hxs hmem
  | closed body rest hbody ih =>
    rw [splitAfter_closed_cons hbody, List.count_append, List.count_eq_zero_of_not_mem hbody,
      List.count_cons_self, Nat.zero_add, List.take_succ_cons, List.filter_cons_of_pos (by simp),
      ih]

/-! ## Fields -/

theorem splitOn_eq (sep : α) (xs : List α) : splitOn sep xs = xs.splitOn sep := by
  induction xs with
  | nil => rfl
  | cons x xs ih =>
    rw [splitOn_cons, ih, List.splitOn, List.splitOn, List.splitOnP_cons_eq_if_modifyHead]
    cases h : List.splitOnP (fun x => x == sep) xs with
    | nil => exact absurd h (List.splitOnP_ne_nil _ xs)
    | cons p ps => simp [consFirst]

/-- What holds no separator is one field. -/
theorem splitOn_of_not_mem (h : sep ∉ xs) : splitOn sep xs = [xs] := by
  rw [splitOn_eq, List.splitOn_eq_splitOnP]
  exact List.splitOnP_eq_singleton fun x hx => beq_false_of_ne (ne_of_mem_of_not_mem hx h)

/-- What holds no separator is a field, with the separator behind it. -/
theorem splitOn_append_cons (h : sep ∉ xs) (ys : List α) :
    splitOn sep (xs ++ sep :: ys) = xs :: splitOn sep ys := by
  induction xs with
  | nil => rw [List.nil_append, splitOn_cons, if_pos rfl]
  | cons x xs ih =>
    rw [List.cons_append, splitOn_cons, if_neg (List.ne_of_not_mem_cons h).symm,
      ih (List.not_mem_of_not_mem_cons h)]
    rfl

theorem not_mem_of_mem_splitOn {p : List α} (h : p ∈ splitOn sep xs) : sep ∉ p := by
  induction xs using pieceInduction sep with
  | broken xs hxs =>
    rw [splitOn_of_not_mem hxs] at h
    exact List.mem_singleton.mp h ▸ hxs
  | closed body rest hbody ih =>
    rw [splitOn_append_cons hbody] at h
    rcases List.mem_cons.mp h with rfl | hmem
    · exact hbody
    · exact ih hmem

/-- Fields that hold no separator are found again. -/
theorem splitOn_intercalate {fields : List (List α)} (h : ∀ field ∈ fields, sep ∉ field)
    (hne : fields ≠ []) : splitOn sep ([sep].intercalate fields) = fields := by
  rw [splitOn_eq, List.splitOn_intercalate sep h hne]

/-- Pieces that hold no separator are found again too, when the last one is closed. -/
theorem splitAfter_intercalate_concat {lines : List (List α)} (h : ∀ line ∈ lines, sep ∉ line)
    (hne : lines ≠ []) :
    splitAfter sep ([sep].intercalate lines ++ [sep]) = lines.map (· ++ [sep]) := by
  induction lines with
  | nil => exact absurd rfl hne
  | cons line lines ih =>
    obtain ⟨hline, hlines⟩ := List.forall_mem_cons.mp h
    by_cases hlast : lines = []
    · rw [hlast, List.intercalate_singleton, splitAfter_closed_cons hline]
      rfl
    · rw [List.intercalate_cons_of_ne_nil hlast, List.append_assoc, List.append_assoc,
        List.singleton_append, splitAfter_closed_cons hline, ih hlines hlast, List.map_cons]

omit [DecidableEq α] in
/-- What is joined holds nothing but fields and separators. -/
theorem eq_or_mem_of_mem_intercalate {fields : List (List α)} {x : α}
    (h : x ∈ [sep].intercalate fields) : x = sep ∨ ∃ field ∈ fields, x ∈ field := by
  induction fields with
  | nil => exact absurd h List.not_mem_nil
  | cons field fields ih =>
    by_cases hlast : fields = []
    · rw [hlast, List.intercalate_singleton] at h
      exact Or.inr ⟨field, List.mem_cons_self .., h⟩
    · rw [List.intercalate_cons_of_ne_nil hlast, List.append_assoc, List.singleton_append,
        List.mem_append, List.mem_cons] at h
      rcases h with hfield | hsep | hrest
      · exact Or.inr ⟨field, List.mem_cons_self .., hfield⟩
      · exact Or.inl hsep
      · exact (ih hrest).imp id fun ⟨field', hfield', hx⟩ =>
          ⟨field', List.mem_cons_of_mem field hfield', hx⟩

end TriggerLatency.Text
