/-!
# Transducers

A transducer reads a list from left to right, carries a state, and writes one
output per input. Edge detection, UTF-8 decoding, receive-slot bookkeeping and
progress reporting are all of this shape, so the pass itself is defined once.

`run` is a left fold over an accumulator and so runs in constant stack space on
recordings of any length. `run_cons` and `run_append` are the equations that the
rest of the library uses; nothing unfolds `run` again.
-/

namespace TriggerLatency.Transducer

variable {σ α β : Type}

/-- Reads `xs` from the state `s`; gives the outputs in input order and the state
that is left. -/
def run (step : σ → α → β × σ) (s : σ) (xs : List α) : List β × σ :=
  let last := xs.foldl
    (fun (acc : List β × σ) x => ((step acc.2 x).1 :: acc.1, (step acc.2 x).2)) ([], s)
  (last.1.reverse, last.2)

/-- The accumulator of the fold only ever grows at its head. -/
private theorem foldl_eq (step : σ → α → β × σ) :
    ∀ (xs : List α) (ys : List β) (s : σ),
      xs.foldl (fun (acc : List β × σ) x => ((step acc.2 x).1 :: acc.1, (step acc.2 x).2)) (ys, s)
        = ((run step s xs).1.reverse ++ ys, (run step s xs).2) := by
  intro xs
  induction xs with
  | nil => intro ys s; simp [run]
  | cons x xs ih =>
    intro ys s
    simp only [List.foldl_cons, run]
    rw [ih, ih]
    simp

@[simp] theorem run_nil (step : σ → α → β × σ) (s : σ) : run step s [] = ([], s) := rfl

/-- One input: its output comes first, and the rest is read from the next state. -/
theorem run_cons (step : σ → α → β × σ) (s : σ) (x : α) (xs : List α) :
    run step s (x :: xs)
      = ((step s x).1 :: (run step (step s x).2 xs).1, (run step (step s x).2 xs).2) := by
  rw [run, List.foldl_cons, foldl_eq]
  simp

/-- Two inputs one after the other: the second is read from the state that the first leaves. -/
theorem run_append (step : σ → α → β × σ) (xs ys : List α) :
    ∀ s : σ, run step s (xs ++ ys)
      = ((run step s xs).1 ++ (run step (run step s xs).2 ys).1,
          (run step (run step s xs).2 ys).2) := by
  induction xs with
  | nil => intro s; simp
  | cons x xs ih => intro s; simp [run_cons, ih]

/-- One output per input. -/
@[simp] theorem length_run (step : σ → α → β × σ) (xs : List α) :
    ∀ s : σ, (run step s xs).1.length = xs.length := by
  induction xs with
  | nil => intro s; rfl
  | cons x xs ih => intro s; simp [run_cons, ih]

end TriggerLatency.Transducer
