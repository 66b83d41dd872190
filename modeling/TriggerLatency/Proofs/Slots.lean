import Mathlib.Data.List.Nodup

/-!
# Slots that are filled once

Settings and command lines are gathered alike: entry by entry, each into the slot of its key. If no
key is given twice, an entry is there in the end exactly if it was given, or if its slot was left
alone and it had been there before (`isIn_foldl_iff`). Whether every entry will find its slot free
can be told one entry after the other (`forall_free_cons_iff`).
-/

namespace TriggerLatency

variable {σ α κ : Type} [DecidableEq κ] {key : α → κ} {a : α} {as : List α}

/-- What is gathered is what was given, where each entry that is put in place changes its own slot
and no other. -/
theorem isIn_foldl_iff {put : σ → α → σ} {IsIn : σ → α → Prop}
    (hput : ∀ s a a', IsIn (put s a) a' ↔ if key a = key a' then a' = a else IsIn s a')
    (hnodup : (as.map key).Nodup) (s : σ) :
    IsIn (as.foldl put s) a ↔ a ∈ as ∨ key a ∉ as.map key ∧ IsIn s a := by
  induction as generalizing s with
  | nil => simp
  | cons b bs ih =>
    rw [List.map_cons, List.nodup_cons] at hnodup
    obtain ⟨hnew, hnodup⟩ := hnodup
    rw [List.foldl_cons, ih hnodup, hput, List.map_cons, List.mem_cons, List.mem_cons]
    by_cases hkey : key b = key a
    · -- the slot is filled here, and no later entry has this key
      rw [hkey] at hnew
      have hlater : a ∉ bs := fun ha => hnew (List.mem_map_of_mem ha)
      simp [hkey, hnew, hlater]
    · have hne : a ≠ b := fun heq => hkey (heq ▸ rfl)
      simp [hkey, hne, Ne.symm hkey]

/-- The entries all find their slots free if the first of them does, and the others do once that is
put in place. -/
theorem forall_free_cons_iff {filled filled' : α → Bool}
    (hfill : ∀ a', filled' a' = (decide (key a = key a') || filled a')) (ha : filled a = false)
    (as : List α) :
    (((a :: as).map key).Nodup ∧ ∀ a' ∈ a :: as, filled a' = false)
      ↔ (as.map key).Nodup ∧ ∀ a' ∈ as, filled' a' = false := by
  simp only [List.map_cons, List.nodup_cons, List.forall_mem_cons, ha, true_and, hfill,
    Bool.or_eq_false_iff, decide_eq_false_iff_not, List.mem_map, not_exists, not_and]
  constructor
  · intro ⟨⟨hnew, hnodup⟩, hfree⟩
    exact ⟨hnodup, fun a' ha' => ⟨fun heq => hnew a' ha' heq.symm, hfree a' ha'⟩⟩
  · intro ⟨hnodup, h⟩
    exact ⟨⟨fun a' ha' heq => (h a' ha').1 heq.symm, hnodup⟩, fun a' ha' => (h a' ha').2⟩

end TriggerLatency
