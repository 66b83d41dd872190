import TriggerLatency.FileTree.Route

/-!
# A tree of files

Files and directories, known by their places. The tree is kept by names, so that a
place is found by going down along it. Nothing is demanded of what stands above a
place; the operations see to that.

`lookup_put` says that a place changes alone.
-/

namespace TriggerLatency

/-- What stands at a place. -/
inductive Node
  | file (bytes : List UInt8)
  | directory
  deriving DecidableEq

/-- The files and directories below a place, which is the working directory for a whole tree: what
stands at the place itself, and the trees under the names in it. -/
inductive FileTree
  | mk (node : Option Node) (below : List (String × FileTree))

namespace FileTree

/-- Nothing but the working directory. -/
def empty : FileTree := .mk none []

/-- What the tree holds at a place. -/
def stored : FileTree → Path → Option Node
  | .mk node _, [] => node
  | .mk _ below, name :: p =>
    match below.lookup name with
    | none => none
    | some t => t.stored p

/-- Puts a node at a place, instead of what is there. -/
def put : FileTree → Path → Node → FileTree
  | .mk _ below, [], n => .mk (some n) below
  | .mk node below, name :: p, n =>
    let t := (below.lookup name).getD empty
    .mk node ((name, t.put p n) :: below.filter fun e => e.1 ≠ name)

/-- What stands at a place. -/
def lookup (t : FileTree) (p : Path) : Option Node :=
  if Path.isOutside p then some .directory else t.stored p

mutual

/-- What the tree below a place holds, each node with its place. -/
def entriesBelow (p : Path) : FileTree → List (Path × Node)
  | .mk node below => (node.toList.map fun n => (p, n)) ++ entriesUnder p below

/-- What some trees under names hold. -/
def entriesUnder (p : Path) : List (String × FileTree) → List (Path × Node)
  | [] => []
  | (name, t) :: rest => entriesBelow (p ++ [name]) t ++ entriesUnder p rest

end

/-- All that the tree holds, each node with its place. -/
def entries (t : FileTree) : List (Path × Node) := entriesBelow [] t

private theorem lookup_filter_ne {name other : String} (h : other ≠ name)
    (below : List (String × FileTree)) :
    (below.filter fun e => e.1 ≠ name).lookup other = below.lookup other := by
  induction below with
  | nil => rfl
  | cons e below ih =>
    obtain ⟨k, t⟩ := e
    by_cases hk : k = name
    · subst hk
      have hne : (other == k) = false := by simpa using h
      simp [List.lookup_cons, hne]
      simpa using ih
    · by_cases ho : (other == k) = true
      · simp [List.lookup_cons, hk, ho]
      · simp only [Bool.not_eq_true] at ho
        simp [List.lookup_cons, hk, ho]
        simpa using ih

@[simp] theorem stored_empty (p : Path) : empty.stored p = none := by
  cases p <;> rfl

/-- Putting a node at a place changes what is stored there, and nothing else. -/
theorem stored_put (t : FileTree) (p q : Path) (n : Node) :
    (t.put p n).stored q = if q = p then some n else t.stored q := by
  induction p generalizing t q with
  | nil =>
    obtain ⟨node, below⟩ := t
    cases q <;> simp [put, stored]
  | cons name p ih =>
    obtain ⟨node, below⟩ := t
    cases q with
    | nil => simp [put, stored]
    | cons other q =>
      by_cases h : other = name
      · subst h
        simp only [put, stored, List.lookup_cons, beq_self_eq_true, ih, List.cons.injEq,
          true_and]
        cases below.lookup other <;> simp
      · have hne : (other == name) = false := by simpa using h
        simp only [put, stored, List.lookup_cons, hne, lookup_filter_ne h, List.cons.injEq, h,
          false_and, if_false]

/-- Putting a node at a place below the working directory changes what stands there, and nothing
else. -/
theorem lookup_put (t : FileTree) {p : Path} (hp : Path.isOutside p = false) (q : Path)
    (n : Node) : (t.put p n).lookup q = if q = p then some n else t.lookup q := by
  unfold lookup
  rw [stored_put]
  by_cases h : q = p
  · subst h
    simp [hp]
  · simp [h]

end FileTree

end TriggerLatency
