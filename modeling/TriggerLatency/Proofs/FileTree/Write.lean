import TriggerLatency.FileTree.Access
import TriggerLatency.Proofs.Except

/-!
# Writing a file

A written path leads to the place of a file, or to none where it can be written (`target`); a
write puts the bytes there (`write_eq_map`). So whether it fails, and how, does not depend on
the bytes, and if it succeeds they are read back along the same path and nothing else has
changed (`wrote_of_write`).

The way to the place stays open because a write makes and takes away no directory: a walk
through directories is one in any tree that has them all (`walk_of_directories`).
-/

namespace TriggerLatency.FileTree

variable {t t' : FileTree} {text : String} {bytes : List UInt8}

/-- The place that a written path leads to, if a file can be written there. -/
def target (t : FileTree) (text : String) : Except FileFault Path := do
  match ← t.approach text with
  | (p, some (.name n), false) =>
    match ← t.find p n with
    | some .directory => .error .isADirectory
    | _ => .ok (p ++ [n])
  | _ => .error .isADirectory

/-- A tree is another one but for the file that a written path leads to, which holds some bytes. -/
structure Wrote (t : FileTree) (text : String) (bytes : List UInt8) (t' : FileTree) : Prop where
  read_eq : t'.read text = .ok bytes
  lookup_eq : ∃ place, t.target text = .ok place ∧
    ∀ q, t'.lookup q = if q = place then some (.file bytes) else t.lookup q

theorem find_eq_ok_iff {p : Path} {name : String} {node : Option Node} :
    t.find p name = .ok node ↔ name.utf8ByteSize ≤ nameLimit ∧ t.lookup (p ++ [name]) = node := by
  unfold find
  split
  · exact ⟨nofun, fun h => by omega⟩
  · rw [Except.ok.injEq]
    exact ⟨fun h => ⟨by omega, h⟩, And.right⟩

/-- A step leads where it did if no directory went away. -/
theorem enter_of_directories {p q : Path} {s : Step}
    (hdirs : ∀ q, t.lookup q = some .directory → t'.lookup q = some .directory)
    (h : t.enter p s = .ok q) : t'.enter p s = .ok q := by
  cases s with
  | here => exact h
  | up => exact h
  | name n =>
    obtain ⟨node, hfind, h⟩ := exists_of_bind_eq_ok h
    obtain ⟨hlength, hlookup⟩ := find_eq_ok_iff.mp hfind
    match node with
    | none => exact nomatch h
    | some (.file _) => exact nomatch h
    | some .directory =>
      have hfind' : t'.find p n = .ok (some .directory) :=
        find_eq_ok_iff.mpr ⟨hlength, hdirs _ hlookup⟩
      exact (bind_eq_of_eq_ok hfind' _).trans h

/-- A walk leads where it did if no directory went away. -/
theorem walk_of_directories {p q : Path} {steps : List Step}
    (hdirs : ∀ q, t.lookup q = some .directory → t'.lookup q = some .directory)
    (h : t.walk p steps = .ok q) : t'.walk p steps = .ok q := by
  induction steps generalizing p with
  | nil => exact h
  | cons s steps ih =>
    obtain ⟨p', henter, hwalk⟩ := exists_of_bind_eq_ok h
    exact (bind_eq_of_eq_ok (enter_of_directories hdirs henter) _).trans (ih hwalk)

theorem approach_of_directories {a : Path × Option Step × Bool}
    (hdirs : ∀ q, t.lookup q = some .directory → t'.lookup q = some .directory)
    (h : t.approach text = .ok a) : t'.approach text = .ok a := by
  obtain ⟨r, hroute, h⟩ := exists_of_bind_eq_ok h
  obtain ⟨p, hwalk, h⟩ := exists_of_bind_eq_ok h
  refine (bind_eq_of_eq_ok hroute _).trans ?_
  exact (bind_eq_of_eq_ok (walk_of_directories hdirs hwalk) _).trans h

/-- A path can be written along if it walks through directories up to a name under which no
directory stands. -/
theorem exists_of_target_eq_ok {place : Path} (h : t.target text = .ok place) :
    ∃ p n, t.approach text = .ok (p, some (.name n), false) ∧ n.utf8ByteSize ≤ nameLimit
      ∧ t.lookup (p ++ [n]) ≠ some .directory ∧ place = p ++ [n] := by
  obtain ⟨⟨p, step, closed⟩, happroach, h⟩ := exists_of_bind_eq_ok h
  match step, closed with
  | none, _ => exact nomatch h
  | some .here, _ => exact nomatch h
  | some .up, _ => exact nomatch h
  | some (.name n), true => exact nomatch h
  | some (.name n), false =>
    obtain ⟨node, hfind, h⟩ := exists_of_bind_eq_ok h
    obtain ⟨hlength, hlookup⟩ := find_eq_ok_iff.mp hfind
    refine ⟨p, n, happroach, hlength, ?_, ?_⟩
    · rintro hdir
      obtain rfl := hlookup.symm.trans hdir
      exact nomatch h
    · match node with
      | none => exact (Except.ok.inj h).symm
      | some (.file _) => exact (Except.ok.inj h).symm
      | some .directory => exact nomatch h

/-- A write puts the bytes at the place that the path leads to. -/
theorem write_eq_map (t : FileTree) (text : String) (bytes : List UInt8) :
    t.write text bytes = (t.target text).map fun place => t.put place (.file bytes) := by
  unfold write target
  cases t.approach text with
  | error e => rfl
  | ok a =>
    obtain ⟨p, step, closed⟩ := a
    match step, closed with
    | none, _ => rfl
    | some .here, _ => rfl
    | some .up, _ => rfl
    | some (.name n), true => rfl
    | some (.name n), false =>
      show (t.find p n >>= _) = (t.find p n >>= _).map _
      cases t.find p n with
      | error e => rfl
      | ok node =>
        match node with
        | none => rfl
        | some (.file _) => rfl
        | some .directory => rfl

theorem write_eq_ok_iff :
    t.write text bytes = .ok t' ↔ ∃ place, t.target text = .ok place
      ∧ t' = t.put place (.file bytes) := by
  rw [write_eq_map]
  cases t.target text with
  | error e => exact ⟨nofun, fun ⟨_, h, _⟩ => nomatch h⟩
  | ok place =>
    constructor
    · intro h
      exact ⟨place, rfl, (Except.ok.inj h).symm⟩
    · rintro ⟨_, hplace, rfl⟩
      obtain rfl := Except.ok.inj hplace
      rfl

/-- A write fails in one way, whatever the bytes. -/
theorem write_eq_error {f : FileFault} (h : t.write text bytes = .error f)
    (bytes' : List UInt8) : t.write text bytes' = .error f := by
  rw [write_eq_map] at h ⊢
  cases htarget : t.target text with
  | error f' =>
    rw [htarget] at h
    exact congrArg _ (Except.error.inj h)
  | ok place =>
    rw [htarget] at h
    exact nomatch h

/-- A write that succeeds changes the file that the path leads to, and nothing else. -/
theorem wrote_of_write (h : t.write text bytes = .ok t') : t.Wrote text bytes t' := by
  obtain ⟨place, htarget, rfl⟩ := write_eq_ok_iff.mp h
  obtain ⟨p, n, happroach, hlength, hdir, rfl⟩ := exists_of_target_eq_ok htarget
  -- what stands outside the tree is a directory
  have houtside : Path.isOutside (p ++ [n]) = false := by
    cases houtside : Path.isOutside (p ++ [n]) with
    | false => rfl
    | true => exact absurd (if_pos houtside) hdir
  have hlookup := fun q => lookup_put t houtside q (.file bytes)
  refine ⟨?_, p ++ [n], htarget, hlookup⟩
  have hdirs : ∀ q, t.lookup q = some .directory →
      (t.put (p ++ [n]) (.file bytes)).lookup q = some .directory := by
    intro q hq
    have hne : q ≠ p ++ [n] := fun heq => hdir (heq ▸ hq)
    rw [hlookup, if_neg hne, hq]
  have hfind : (t.put (p ++ [n]) (.file bytes)).find p n = .ok (some (.file bytes)) :=
    find_eq_ok_iff.mpr ⟨hlength, by rw [hlookup, if_pos rfl]⟩
  have hopen : (t.put (p ++ [n]) (.file bytes)).openPath text = .ok (.file bytes) := by
    refine (bind_eq_of_eq_ok (approach_of_directories hdirs happroach) _).trans ?_
    exact bind_eq_of_eq_ok hfind _
  exact bind_eq_of_eq_ok hopen _

end TriggerLatency.FileTree
