/-!
# Computations that can fail

A computation in steps succeeds only if its steps do (`exists_of_bind_eq_ok`), and what is
done to every element of a list leaves the list alone exactly if it leaves every element
alone (`mapM_eq_ok_iff`).

A computation in stages (`Staged`) fails with the first failure of its stages, where each
stage has a condition of its own, stated without the stages before it. Staged computations
are put together stage by stage (`Staged.cons`) and one behind the other (`Staged.bind`).
-/

namespace TriggerLatency

variable {ε α β : Type}

/-- A computation that succeeds is one whose parts do. -/
theorem exists_of_bind_eq_ok {x : Except ε α} {f : α → Except ε β} {b : β}
    (h : x >>= f = .ok b) : ∃ a, x = .ok a ∧ f a = .ok b := by
  cases x with
  | error e => exact nomatch h
  | ok a => exact ⟨a, rfl, h⟩

theorem bind_eq_of_eq_ok {x : Except ε α} {a : α} (h : x = .ok a) (f : α → Except ε β) :
    x >>= f = f a := by
  rw [h]
  rfl

/-- A computation that fails is one of which a part does. -/
theorem eq_error_of_bind_eq_error {x : Except ε α} {f : α → Except ε β} {e : ε}
    (h : x >>= f = .error e) : x = .error e ∨ ∃ a, x = .ok a ∧ f a = .error e := by
  cases x with
  | error e' => exact Or.inl (congrArg Except.error (Except.error.inj h))
  | ok a => exact Or.inr ⟨a, rfl, h⟩

theorem exists_of_map_eq_ok {x : Except ε α} {f : α → β} {b : β} (h : x.map f = .ok b) :
    ∃ a, x = .ok a ∧ f a = b := by
  cases x with
  | error e => exact nomatch h
  | ok a => exact ⟨a, rfl, Except.ok.inj h⟩

theorem mapError_eq_ok_iff {δ : Type} {f : ε → δ} {x : Except ε α} {a : α} :
    x.mapError f = .ok a ↔ x = .ok a := by
  cases x with
  | error e => exact ⟨nofun, nofun⟩
  | ok b =>
    show Except.ok b = .ok a ↔ _
    rw [Except.ok.injEq, Except.ok.injEq]

theorem mapError_eq_error_iff {δ : Type} {f : ε → δ} {x : Except ε α} {d : δ} :
    x.mapError f = .error d ↔ ∃ e, x = .error e ∧ d = f e := by
  cases x with
  | error e =>
    show Except.error (f e) = .error d ↔ _
    simp only [Except.error.injEq, exists_eq_left']
    exact eq_comm
  | ok b => exact ⟨nofun, nofun⟩

theorem mapError_map {δ : Type} (x : Except ε α) (f : α → β) (g : ε → δ) :
    (x.map f).mapError g = (x.mapError g).map f := by
  cases x <;> rfl

/-- What is put into an option is what was there before. -/
theorem map_some_eq_ok_iff {x : Except ε α} {a : α} : x.map some = .ok (some a) ↔ x = .ok a := by
  cases x with
  | error e => exact ⟨fun h => (nomatch h), fun h => (nomatch h)⟩
  | ok b =>
    show Except.ok (some b) = .ok (some a) ↔ _
    rw [Except.ok.injEq, Except.ok.injEq, Option.some_inj]

/-- What is missing is an error, and nothing else is. -/
theorem elim_eq_ok_iff {x : Option α} {e : ε} {a : α} :
    x.elim (Except.error e) Except.ok = .ok a ↔ x = some a := by
  cases x with
  | none => exact ⟨fun h => (nomatch h), fun h => (nomatch h)⟩
  | some b =>
    show Except.ok b = .ok a ↔ _
    rw [Except.ok.injEq, Option.some_inj]

theorem elim_eq_error_iff {x : Option α} {e e' : ε} :
    x.elim (Except.error e) Except.ok = .error e' ↔ x = none ∧ e' = e := by
  cases x with
  | none =>
    show Except.error e = .error e' ↔ _
    rw [Except.error.injEq, eq_comm]
    exact ⟨fun h => ⟨rfl, h⟩, And.right⟩
  | some b => exact ⟨fun h => (nomatch h), fun h => (nomatch h.1)⟩

/-- A list stays what it is if each of its elements does. -/
theorem mapM_eq_ok_iff {f : α → Except ε α} {as : List α} :
    as.mapM f = .ok as ↔ ∀ a ∈ as, f a = .ok a := by
  induction as with
  | nil => exact ⟨fun _ _ ha => absurd ha List.not_mem_nil, fun _ => rfl⟩
  | cons a as ih =>
    rw [List.mapM_cons, List.forall_mem_cons, ← ih]
    constructor
    · intro h
      obtain ⟨b, hb, h⟩ := exists_of_bind_eq_ok h
      obtain ⟨bs, hbs, h⟩ := exists_of_bind_eq_ok h
      obtain ⟨rfl, rfl⟩ := List.cons.inj (Except.ok.inj h)
      exact ⟨hb, hbs⟩
    · rintro ⟨ha, has⟩
      rw [ha, has]
      rfl

/-! ## Stages -/

section

variable {σ : Type} {fails : σ → ε → Prop} {s : σ} {stages later : List σ} {e : ε}

/-- A failure of the first stage that fails. -/
inductive FirstFailure (fails : σ → ε → Prop) : List σ → ε → Prop
  | here {s : σ} {later : List σ} {e : ε} : fails s e → FirstFailure fails (s :: later) e
  | later {s : σ} {later : List σ} {e : ε} :
      (∀ e', ¬ fails s e') → FirstFailure fails later e → FirstFailure fails (s :: later) e

/-- A computation that fails with the first failure of some stages, and succeeds if none fails. -/
def Staged (fails : σ → ε → Prop) (stages : List σ) : Except ε α → Prop
  | .error e => FirstFailure fails stages e
  | .ok _ => ∀ s ∈ stages, ∀ e, ¬ fails s e

namespace FirstFailure

theorem exists_fails (h : FirstFailure fails stages e) : ∃ s ∈ stages, fails s e := by
  induction h with
  | here h => exact ⟨_, List.mem_cons_self .., h⟩
  | later _ _ ih =>
    obtain ⟨s, hs, h⟩ := ih
    exact ⟨s, List.mem_cons_of_mem _ hs, h⟩

theorem unique (hfails : ∀ s e e', fails s e → fails s e' → e = e') {e' : ε}
    (h : FirstFailure fails stages e) (h' : FirstFailure fails stages e') : e = e' := by
  induction h with
  | here h =>
    cases h' with
    | here h' => exact hfails _ _ _ h h'
    | later hpass _ => exact absurd h (hpass _)
  | later hpass _ ih =>
    cases h' with
    | here h' => exact absurd h' (hpass _)
    | later _ h' => exact ih h'

/-- Stages behind the one that fails do not matter. -/
theorem append (h : FirstFailure fails stages e) (later : List σ) :
    FirstFailure fails (stages ++ later) e := by
  induction h with
  | here h => exact here h
  | later hpass _ ih => exact FirstFailure.later hpass ih

end FirstFailure

namespace Staged

theorem nil (a : α) : Staged fails [] (.ok a : Except ε α) := fun _ hs => nomatch hs

/-- One more stage in front, which does not fail. -/
theorem cons {x : Except ε α} (hpass : ∀ e, ¬ fails s e) (h : Staged fails later x) :
    Staged fails (s :: later) x := by
  cases x with
  | error e => exact FirstFailure.later hpass h
  | ok a => exact List.forall_mem_cons.mpr ⟨hpass, h⟩

/-- A single stage. -/
theorem one {x : Except ε α} (h : ∀ e, fails s e ↔ x = .error e) : Staged fails [s] x := by
  cases x with
  | error e => exact FirstFailure.here ((h e).mpr rfl)
  | ok a => exact cons (fun e he => nomatch (h e).mp he) (nil a)

/-- What is made of the value does not matter. -/
theorem map {x : Except ε α} (h : Staged fails stages x) (f : α → β) :
    Staged fails stages (x.map f) := by
  cases x with
  | error e => exact h
  | ok a => exact h

/-- A computation that goes on from the value of another one. -/
theorem bind {x : Except ε α} {f : α → Except ε β} (hx : Staged fails stages x)
    (hf : ∀ a, x = .ok a → Staged fails later (f a)) :
    Staged fails (stages ++ later) (x >>= f) := by
  cases x with
  | error e => exact FirstFailure.append hx later
  | ok a =>
    show Staged fails (stages ++ later) (f a)
    have hf := hf a rfl
    induction stages with
    | nil => exact hf
    | cons s stages ih =>
      obtain ⟨hpass, hx⟩ := List.forall_mem_cons.mp hx
      exact cons hpass (ih hx)

/-- Stages that fail in one way each decide the error of a computation. -/
theorem eq_error_iff {x : Except ε α} (hfails : ∀ s e e', fails s e → fails s e' → e = e')
    (h : Staged fails stages x) : x = .error e ↔ FirstFailure fails stages e := by
  cases x with
  | error e' =>
    rw [Except.error.injEq]
    exact ⟨fun he => he ▸ h, fun h' => FirstFailure.unique hfails h h'⟩
  | ok a =>
    refine ⟨nofun, fun h' => ?_⟩
    obtain ⟨s, hs, hse⟩ := h'.exists_fails
    exact absurd hse (h s hs e)

end Staged

end

end TriggerLatency
