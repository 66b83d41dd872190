import Mathlib.Data.List.Induction
import Mathlib.Data.List.Infix
import Mathlib.Tactic.ByContra
import TriggerLatency.Proofs.FileTree.Write

/-!
# Making directories

On the way down some names, the directories that are missed are made, one after the other
(`Makes`). Nothing else changes (`Makes.extendsAlong`); the way comes to its end unless one of the
names is too long or is that of a file (`Makes.fails_iff`), and then there are directories all the
way (`Makes.isOpen`).

What stands in a tree stands in a directory (`IsRooted`), and that remains so. A file on the way
is therefore met before anything has been made, and if no name is too long, a failure has changed
nothing (`Makes.eq_self`).
-/

namespace TriggerLatency.FileTree

variable {t t' : FileTree} {p q : Path} {names : List String} {name : String}

/-- What stands in a tree stands in a directory. -/
def IsRooted (t : FileTree) : Prop :=
  ∀ p name, t.lookup (p ++ [name]) ≠ none → t.lookup p = some .directory

/-- The way down some names leads through directories, its end included. -/
def IsOpen (t : FileTree) (p : Path) (names : List String) : Prop :=
  ∀ front, front <+: names → t.lookup (p ++ front) = some .directory

/-- A name under which there can be no directory: it is too long, or there is a file. -/
def Blocks (t : FileTree) (p : Path) (name : String) : Prop :=
  nameLimit < name.utf8ByteSize ∨ ∃ bytes, t.lookup (p ++ [name]) = some (.file bytes)

/-- A tree is another one but for directories that are new on the way down some names. -/
def ExtendsAlong (t : FileTree) (p : Path) (names : List String) (t' : FileTree) : Prop :=
  ∀ q, t'.lookup q = t.lookup q
    ∨ t.lookup q = none ∧ t'.lookup q = some .directory ∧ ∃ front, front <+: names ∧ q = p ++ front

/-- Outside the tree there are directories only. -/
theorem isOutside_of_lookup_ne (h : t.lookup p ≠ some .directory) : Path.isOutside p = false := by
  cases houtside : Path.isOutside p with
  | false => rfl
  | true => exact absurd (if_pos houtside) h

@[simp] theorem lookup_nil (t : FileTree) : t.lookup [] = some .directory := rfl

/-! ## Rooted trees -/

theorem isRooted_empty : IsRooted .empty := by
  intro p name h
  unfold lookup at h ⊢
  rw [stored_empty] at h ⊢
  -- only the root and what is above the working directory stands anywhere
  have houtside : Path.isOutside (p ++ [name]) = true := by
    by_contra hinside
    exact h (if_neg hinside)
  refine if_pos ?_
  rcases p with _ | ⟨first, p⟩
  · rfl
  · have hroot : first :: p ++ [name] ≠ Path.root := by simp [Path.root]
    simp only [Path.isOutside, hroot, decide_false, Bool.or_false, List.all_append,
      Bool.and_eq_true] at houtside
    simp [Path.isOutside, houtside.1]

namespace IsRooted

/-- Below nothing there is nothing. -/
theorem lookup_append_eq_none (ht : t.IsRooted) (h : t.lookup p = none) (below : List String) :
    t.lookup (p ++ below) = none := by
  induction below using List.reverseRecOn with
  | nil => rw [List.append_nil, h]
  | append_singleton below last ih =>
    by_contra hlast
    rw [← List.append_assoc] at hlast
    rw [ht _ _ hlast] at ih
    exact nomatch ih

/-- A node can be put into a directory, though a file not in place of a directory. -/
theorem put (ht : t.IsRooted) (hp : t.lookup p = some .directory)
    (hplace : Path.isOutside (p ++ [name]) = false) {node : Node}
    (hnode : t.lookup (p ++ [name]) = some .directory → node = .directory) :
    (t.put (p ++ [name]) node).IsRooted := by
  intro q last h
  have hlookup := fun q => lookup_put t hplace q node
  rw [hlookup] at h ⊢
  by_cases hlast : q ++ [last] = p ++ [name]
  · obtain rfl := (List.append_inj' hlast rfl).1
    rw [if_neg (by simp), hp]
  · rw [if_neg hlast] at h
    by_cases hq : q = p ++ [name]
    · rw [if_pos hq, hnode (hq ▸ ht q last h)]
    · rw [if_neg hq, ht q last h]

end IsRooted

/-! ## The way down -/

theorem IsOpen.cons (hp : t.lookup p = some .directory) (h : t.IsOpen (p ++ [name]) names) :
    t.IsOpen p (name :: names) := by
  intro front hfront
  rcases List.prefix_cons_iff.mp hfront with rfl | ⟨rest, rfl, hrest⟩
  · rw [List.append_nil, hp]
  · rw [List.append_cons]
    exact h rest hrest

theorem IsOpen.tail (h : t.IsOpen p (name :: names)) : t.IsOpen (p ++ [name]) names := by
  intro front hfront
  rw [← List.append_cons]
  exact h (name :: front) (List.cons_prefix_cons.mpr ⟨rfl, hfront⟩)

/-- What is new further down is new on the way. -/
theorem ExtendsAlong.cons (h : t.ExtendsAlong (p ++ [name]) names t') :
    t.ExtendsAlong p (name :: names) t' := by
  intro q
  refine (h q).imp_right fun ⟨hnone, hdir, front, hfront, hq⟩ =>
    ⟨hnone, hdir, name :: front, ?_, ?_⟩
  · exact List.cons_prefix_cons.mpr ⟨rfl, hfront⟩
  · rw [hq, ← List.append_cons]

theorem ExtendsAlong.lookup_directory (h : t.ExtendsAlong p names t')
    (hq : t.lookup q = some .directory) : t'.lookup q = some .directory := by
  rcases h q with heq | ⟨-, hdir, -⟩
  · rw [heq, hq]
  · exact hdir

/-- An open way is walked to its end. -/
theorem walk_of_isOpen (hopen : t.IsOpen p names)
    (hlength : ∀ name ∈ names, name.utf8ByteSize ≤ nameLimit) :
    t.walk p (names.map .name) = .ok (p ++ names) := by
  induction names generalizing p with
  | nil => rw [List.append_nil]; rfl
  | cons name names ih =>
    obtain ⟨hname, hlength⟩ := List.forall_mem_cons.mp hlength
    have hfind : t.find p name = .ok (some .directory) :=
      find_eq_ok_iff.mpr ⟨hname, hopen [name] (List.cons_prefix_cons.mpr ⟨rfl, List.nil_prefix⟩)⟩
    have henter : t.enter p (.name name) = .ok (p ++ [name]) := bind_eq_of_eq_ok hfind _
    refine (bind_eq_of_eq_ok henter _).trans ?_
    rw [ih hopen.tail hlength, ← List.append_cons]

/-- A way is barred by its first name or further down. -/
theorem exists_blocks_cons : (∃ front last, front ++ [last] <+: name :: names
      ∧ t.Blocks (p ++ front) last)
    ↔ t.Blocks p name ∨ ∃ front last, front ++ [last] <+: names
      ∧ t.Blocks (p ++ [name] ++ front) last := by
  constructor
  · rintro ⟨_ | ⟨first, front⟩, last, hfront, hbar⟩
    · obtain ⟨rfl, -⟩ := List.cons_prefix_cons.mp hfront
      rw [List.append_nil] at hbar
      exact Or.inl hbar
    · obtain ⟨rfl, hrest⟩ := List.cons_prefix_cons.mp hfront
      rw [List.append_cons] at hbar
      exact Or.inr ⟨front, last, hrest, hbar⟩
  · rintro (hbar | ⟨front, last, hfront, hbar⟩)
    · refine ⟨[], name, List.cons_prefix_cons.mpr ⟨rfl, List.nil_prefix⟩, ?_⟩
      rwa [List.append_nil]
    · refine ⟨name :: front, last, List.cons_prefix_cons.mpr ⟨rfl, hfront⟩, ?_⟩
      rwa [List.append_cons]

/-! ## Making what is missed -/

/-- What becomes of a tree on the way down some names, and whether the way comes to its end. -/
inductive Makes : FileTree → Path → List String → FileTree → Bool → Prop
  | done {t : FileTree} {p : Path} : Makes t p [] t true
  | blocked {t : FileTree} {p : Path} {name : String} {names : List String} :
      t.Blocks p name → Makes t p (name :: names) t false
  | enter {t t' : FileTree} {p : Path} {name : String} {names : List String} {ends : Bool} :
      ¬ t.Blocks p name → t.lookup (p ++ [name]) = some .directory →
      Makes t (p ++ [name]) names t' ends → Makes t p (name :: names) t' ends
  | make {t t' : FileTree} {p : Path} {name : String} {names : List String} {ends : Bool} :
      ¬ t.Blocks p name → t.lookup (p ++ [name]) = none →
      Makes (t.put (p ++ [name]) .directory) (p ++ [name]) names t' ends →
      Makes t p (name :: names) t' ends

/-- The steps to some names make what is missed. -/
theorem makes_makeSteps (t : FileTree) (p : Path) (made : Bool) (names : List String) :
    Makes t p names (t.makeSteps p made (names.map .name)).1
      (t.makeSteps p made (names.map .name)).2.isNone := by
  induction names generalizing t p made with
  | nil => exact .done
  | cons name names ih =>
    rw [List.map_cons, makeSteps]
    by_cases hlength : nameLimit < name.utf8ByteSize
    · rw [find, if_pos hlength]
      exact .blocked (Or.inl hlength)
    · rw [find, if_neg hlength]
      match hnode : t.lookup (p ++ [name]) with
      | none =>
        have hfree : ¬ t.Blocks p name := by
          simp [Blocks, hlength, hnode]
        exact .make hfree hnode (ih _ _ _)
      | some .directory =>
        have hfree : ¬ t.Blocks p name := by
          simp [Blocks, hlength, hnode]
        exact .enter hfree hnode (ih _ _ _)
      | some (.file bytes) => exact .blocked (Or.inr ⟨bytes, hnode⟩)

namespace Makes

variable {ends : Bool}

/-- Putting a directory where nothing is changes what stands there. -/
theorem lookup_put_directory (h : t.lookup p = none) (q : Path) :
    (t.put p .directory).lookup q = if q = p then some .directory else t.lookup q :=
  lookup_put t (isOutside_of_lookup_ne (by rw [h]; exact nofun)) q _

/-- Nothing but directories on the way is new. -/
theorem extendsAlong (h : Makes t p names t' ends) : t.ExtendsAlong p names t' := by
  induction h with
  | done => exact fun q => Or.inl rfl
  | blocked _ => exact fun q => Or.inl rfl
  | enter _ _ _ ih => exact ih.cons
  | @make t t' p name names _ _ hnone _ ih =>
    intro q
    have hput := lookup_put_directory hnone q
    by_cases hq : q = p ++ [name]
    · rw [if_pos hq] at hput
      refine Or.inr ⟨hq ▸ hnone, ih.lookup_directory hput, [name], ?_, hq⟩
      exact List.cons_prefix_cons.mpr ⟨rfl, List.nil_prefix⟩
    · rw [if_neg hq] at hput
      rw [← hput]
      exact ih.cons q

/-- At the end of the way there are directories all along it. -/
theorem isOpen (h : Makes t p names t' true) (hp : t.lookup p = some .directory) :
    t'.IsOpen p names := by
  generalize hends : true = ends at h
  induction h with
  | done =>
    intro front hfront
    obtain rfl := List.prefix_nil.mp hfront
    rw [List.append_nil, hp]
  | blocked _ => exact nomatch hends
  | enter _ hdir hmakes ih => exact (ih hdir hends).cons (hmakes.extendsAlong.lookup_directory hp)
  | @make t t' p name names _ _ hnone hmakes ih =>
    have hput := lookup_put_directory hnone
    have hp' : (t.put (p ++ [name]) .directory).lookup p = some .directory := by
      rw [hput, if_neg (by simp), hp]
    exact (ih (by rw [hput, if_pos rfl]) hends).cons (hmakes.extendsAlong.lookup_directory hp')

/-- The way comes to its end unless it is barred. -/
theorem fails_iff (h : Makes t p names t' ends) :
    ends = false ↔ ∃ front last, front ++ [last] <+: names ∧ t.Blocks (p ++ front) last := by
  induction h with
  | done => simp
  | blocked hblock => exact iff_of_true rfl (exists_blocks_cons.mpr (Or.inl hblock))
  | enter hfree _ _ ih => rw [exists_blocks_cons, ih, or_iff_right hfree]
  | @make t t' p name names _ hfree hnone _ ih =>
    rw [exists_blocks_cons, ih, or_iff_right hfree]
    -- further down, the tree with the new directory is the same
    refine exists_congr fun front => exists_congr fun last => and_congr_right fun _ => ?_
    unfold Blocks
    rw [lookup_put_directory hnone, if_neg (by simp)]

/-- Where something stands at the end of the way, nothing is missed. -/
theorem eq_self_of_lookup_ne (h : Makes t p names t' ends) (ht : t.IsRooted)
    (hend : t.lookup (p ++ names) ≠ none) : t' = t := by
  induction h with
  | done => rfl
  | blocked _ => rfl
  | enter _ _ _ ih => exact ih ht (by rwa [← List.append_cons])
  | @make _ _ _ _ names _ _ hnone _ _ =>
    rw [List.append_cons, ht.lookup_append_eq_none hnone names] at hend
    exact absurd rfl hend

/-- If no name is too long, a way that comes not to its end has changed nothing. -/
theorem eq_self (h : Makes t p names t' false) (ht : t.IsRooted)
    (hlength : ∀ name ∈ names, name.utf8ByteSize ≤ nameLimit) : t' = t := by
  generalize hends : false = ends at h
  induction h with
  | done => exact nomatch hends
  | blocked _ => rfl
  | enter _ _ _ ih => exact ih ht (List.forall_mem_cons.mp hlength).2 hends
  | @make t t' p name names _ _ hnone hmakes _ =>
    -- behind a directory that is missed there is no file
    obtain ⟨front, last, hfront, hblock⟩ := hmakes.fails_iff.mp hends.symm
    have hlast : last ∈ name :: names :=
      List.mem_cons_of_mem _ (hfront.subset (List.mem_append_right _ (List.mem_singleton_self _)))
    rcases hblock with hlong | ⟨bytes, hfile⟩
    · exact absurd hlong (Nat.not_lt.mpr (hlength last hlast))
    · rw [lookup_put_directory hnone, if_neg (by simp), List.append_assoc,
        ht.lookup_append_eq_none hnone] at hfile
      exact nomatch hfile

end Makes

end TriggerLatency.FileTree
