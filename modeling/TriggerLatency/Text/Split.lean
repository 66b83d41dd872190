/-!
# Cutting and trimming

Two ways to cut a list at a separator: `splitOn` drops the separators and gives the fields
between them, `splitAfter` leaves each separator at the end of the piece it closes and
gives lines. Both are right folds, so a list of any length can be cut, and both
satisfy the obvious recursion on the head (`splitOn_cons`, `splitAfter_cons`).

`splitAfter` loses nothing: `flatten_splitAfter`. Behind a separator it starts anew
(`splitAfter_closed_append`), and a piece is not cut again (`splitAfter_of_mem`).

Trimming removes the characters of the Unicode property `White_Space`. It is wider than ASCII
blanks (no-break space, the typographic spaces, the line and paragraph separators) and
narrower than it looks: the byte-order mark U+FEFF, the zero-width space U+200B and the
information separators U+001C to U+001F are not in it.
-/

namespace TriggerLatency.Text

/-! ## White space -/

/-- The Unicode property `White_Space`. -/
def isBlank (c : Char) : Bool :=
  let n := c.toNat
  (0x9 ≤ n && n ≤ 0xD) || n == 0x20 || n == 0x85 || n == 0xA0 || n == 0x1680
    || (0x2000 ≤ n && n ≤ 0x200A) || n == 0x2028 || n == 0x2029 || n == 0x202F
    || n == 0x205F || n == 0x3000

/-- Removes white space at the start. -/
def trimStart (cs : List Char) : List Char := cs.dropWhile isBlank

/-- Removes white space at the end. -/
def trimEnd (cs : List Char) : List Char := (trimStart cs.reverse).reverse

/-- Removes white space at both ends. -/
def trim (cs : List Char) : List Char := trimEnd (trimStart cs)

/-! ## Separators -/

variable {α : Type} [DecidableEq α]

/-- Puts an element at the head of the first field. -/
def consFirst (x : α) : List (List α) → List (List α)
  | [] => [[x]]
  | p :: ps => (x :: p) :: ps

/-- The fields between separators. There is always at least one. -/
def splitOn (sep : α) (xs : List α) : List (List α) :=
  xs.foldr (fun x ps => if x = sep then [] :: ps else consFirst x ps) [[]]

/-- The pieces that end after a separator, and what is left behind the last one.
No piece is empty. -/
def splitAfter (sep : α) (xs : List α) : List (List α) :=
  xs.foldr (fun x ps => if x = sep then [x] :: ps else consFirst x ps) []

@[simp] theorem splitOn_nil (sep : α) : splitOn sep [] = [[]] := rfl

theorem splitOn_cons (sep x : α) (xs : List α) :
    splitOn sep (x :: xs)
      = if x = sep then [] :: splitOn sep xs else consFirst x (splitOn sep xs) := rfl

theorem splitOn_ne_nil (sep : α) : ∀ xs : List α, splitOn sep xs ≠ [] := by
  intro xs
  cases xs with
  | nil => simp
  | cons x xs =>
    rw [splitOn_cons]
    split
    · simp
    · cases splitOn sep xs <;> simp [consFirst]

@[simp] theorem splitAfter_nil (sep : α) : splitAfter sep [] = [] := rfl

theorem splitAfter_cons (sep x : α) (xs : List α) :
    splitAfter sep (x :: xs)
      = if x = sep then [x] :: splitAfter sep xs else consFirst x (splitAfter sep xs) := rfl

omit [DecidableEq α] in
@[simp] theorem flatten_consFirst (x : α) (ps : List (List α)) :
    (consFirst x ps).flatten = x :: ps.flatten := by
  cases ps <;> simp [consFirst]

/-- Cutting after separators loses nothing. -/
@[simp] theorem flatten_splitAfter (sep : α) : ∀ xs : List α, (splitAfter sep xs).flatten = xs := by
  intro xs
  induction xs with
  | nil => rfl
  | cons x xs ih =>
    rw [splitAfter_cons]
    split <;> simp [ih]

/-- Something is cut into some pieces. -/
theorem splitAfter_ne_nil {sep : α} {xs : List α} (h : xs ≠ []) : splitAfter sep xs ≠ [] := by
  intro hnil
  have hflatten := flatten_splitAfter sep xs
  rw [hnil] at hflatten
  exact h hflatten.symm

/-- What comes behind a separator is cut for itself. -/
theorem splitAfter_closed_append (sep : α) (xs ys : List α) :
    splitAfter sep (xs ++ [sep] ++ ys) = splitAfter sep (xs ++ [sep]) ++ splitAfter sep ys := by
  induction xs with
  | nil => simp [splitAfter_cons]
  | cons x xs ih =>
    simp only [List.cons_append, splitAfter_cons]
    rw [ih]
    split
    · rfl
    · -- the first piece goes on up to the separator at least
      have hne : splitAfter sep (xs ++ [sep]) ≠ [] := splitAfter_ne_nil (by simp)
      cases hpieces : splitAfter sep (xs ++ [sep]) with
      | nil => exact absurd hpieces hne
      | cons p ps => rfl

/-- A piece is one piece. -/
theorem splitAfter_of_mem {sep : α} {xs p : List α} (h : p ∈ splitAfter sep xs) :
    splitAfter sep p = [p] := by
  induction xs generalizing p with
  | nil => exact absurd h List.not_mem_nil
  | cons x xs ih =>
    rw [splitAfter_cons] at h
    split at h
    · next heq =>
      rcases List.mem_cons.mp h with rfl | hmem
      · rw [splitAfter_cons, if_pos heq, splitAfter_nil]
      · exact ih hmem
    · next hne =>
      cases hpieces : splitAfter sep xs with
      | nil =>
        obtain rfl : p = [x] := by simpa [hpieces, consFirst] using h
        rw [splitAfter_cons, if_neg hne, splitAfter_nil]
        rfl
      | cons q qs =>
        rw [hpieces] at h ih
        rcases List.mem_cons.mp h with rfl | hmem
        · rw [splitAfter_cons, if_neg hne, ih (List.mem_cons_self ..)]
          rfl
        · exact ih (List.mem_cons_of_mem q hmem)

/-- The pieces of what ends with a separator end with one. -/
theorem exists_of_mem_splitAfter_closed {sep : α} {xs p : List α}
    (h : p ∈ splitAfter sep (xs ++ [sep])) : ∃ q, p = q ++ [sep] := by
  induction xs generalizing p with
  | nil =>
    obtain rfl : p = [sep] := by simpa [splitAfter_cons] using h
    exact ⟨[], rfl⟩
  | cons x xs ih =>
    rw [List.cons_append, splitAfter_cons] at h
    split at h
    · next heq =>
      rcases List.mem_cons.mp h with rfl | hmem
      · exact ⟨[], by rw [heq, List.nil_append]⟩
      · exact ih hmem
    · cases hpieces : splitAfter sep (xs ++ [sep]) with
      | nil => exact absurd hpieces (splitAfter_ne_nil (by simp))
      | cons q qs =>
        rw [hpieces] at h ih
        rcases List.mem_cons.mp h with rfl | hmem
        · obtain ⟨q', rfl⟩ := ih (List.mem_cons_self ..)
          exact ⟨x :: q', rfl⟩
        · exact ih (List.mem_cons_of_mem q hmem)

end TriggerLatency.Text
