import TriggerLatency.Proofs.FileTree.Directories
import TriggerLatency.Proofs.FileTree.Names

/-!
# Saving a file along a path of names

The directories above the file are made, then the file is written. Both go well where the way is
free (`IsObstructed`) and not too long, and nowhere else (`exists_target_iff`); the file is there
then, in directories, and everything else is as it was (`Saved`).
-/

namespace TriggerLatency.FileTree

variable {t t' : FileTree} {names above : List String} {last : String} {bytes : List UInt8}

/-- No file can be saved under some names: there is a directory, or a file stands above. -/
def IsObstructed (t : FileTree) (names : List String) : Prop :=
  t.lookup names = some .directory
    ∨ ∃ front bytes, front <+: names ∧ front ≠ names ∧ t.lookup front = some (.file bytes)

/-- A tree is another one but for a file under some names, with its bytes, and the directories
above it. -/
structure Saved (t : FileTree) (names : List String) (bytes : List UInt8) (t' : FileTree) :
    Prop where
  file : t'.lookup names = some (.file bytes)
  above : ∀ front, front <+: names → front ≠ names → t'.lookup front = some .directory
  others : ∀ q other, q ≠ names →
    (t'.lookup q = some (.file other) ↔ t.lookup q = some (.file other))
  directories : ∀ q, t.lookup q = some .directory → t'.lookup q = some .directory
  new : ∀ q, t'.lookup q = some .directory → t.lookup q ≠ some .directory →
    q <+: names ∧ q ≠ names

/-- A file above obstructs the way. -/
theorem isObstructed_of_file_above {front : List String} (hfront : front <+: above)
    (hfile : t.lookup front = some (.file bytes)) : t.IsObstructed (above ++ [last]) := by
  refine Or.inr ⟨front, bytes, hfront.trans (List.prefix_append ..), ?_, hfile⟩
  rintro rfl
  exact absurd hfront.length_le (by simp)

/-- What extends a tree with directories has the files of the tree. -/
theorem ExtendsAlong.lookup_file_iff (h : t.ExtendsAlong [] names t') {q : Path} :
    t'.lookup q = some (.file bytes) ↔ t.lookup q = some (.file bytes) := by
  rcases h q with heq | ⟨hnone, hdir, -⟩
  · rw [heq]
  · rw [hnone, hdir]
    exact ⟨nofun, nofun⟩

/-- What is not on the way is as it was. -/
theorem ExtendsAlong.lookup_concat (h : t.ExtendsAlong [] above t') :
    t'.lookup (above ++ [last]) = t.lookup (above ++ [last]) := by
  rcases h (above ++ [last]) with heq | ⟨-, -, front, hfront, heq⟩
  · exact heq
  · have hlength := hfront.length_le
    rw [← List.nil_append front, ← heq, List.length_append] at hlength
    exact absurd hlength (by simp)

/-- Above a file, the directories on the way are made. -/
theorem makeParents_ofNames (t : FileTree)
    (hnames : ∀ name ∈ above ++ [last], Route.IsOrdinary name) :
    t.makeParents (Route.ofNames (above ++ [last]))
      = if routeLimit < (Route.ofNames above).utf8ByteSize then (t, some .nameTooLong)
        else t.makeSteps [] false (above.map .name) := by
  have habove : ∀ name ∈ above, Route.IsOrdinary name := fun name hname =>
    hnames name (List.mem_append_left _ hname)
  have hsteps : (above.map Step.name).filter (· ≠ .here) = above.map Step.name := by
    rw [List.filter_eq_self]
    intro step hstep
    obtain ⟨name, -, rfl⟩ := List.mem_map.mp hstep
    rfl
  unfold makeParents
  rw [Route.parentText_ofNames_concat hnames]
  by_cases hnil : above = []
  · subst hnil
    rfl
  · rw [if_neg (mt (Route.ofNames_eq_empty_iff habove).mp hnil), makeDirectories,
      Route.ofString?_ofNames habove hnil]
    by_cases hlong : routeLimit < (Route.ofNames above).utf8ByteSize
    · rw [if_pos hlong, if_pos hlong]
    · rw [if_neg hlong, if_neg hlong]
      dsimp only
      rw [hsteps]

/-- The way from the top comes to its end unless one of the names is too long or is that of a
file. -/
theorem Makes.fails_from_top_iff {ends : Bool} (h : Makes t [] above t' ends) :
    ends = false ↔ (∃ name ∈ above, nameLimit < name.utf8ByteSize)
      ∨ ∃ front bytes, front <+: above ∧ t.lookup front = some (.file bytes) := by
  rw [h.fails_iff]
  constructor
  · rintro ⟨front, name, hfront, hlong | ⟨bytes, hfile⟩⟩
    · exact Or.inl ⟨name, hfront.subset (by simp), hlong⟩
    · exact Or.inr ⟨front ++ [name], bytes, hfront, hfile⟩
  · rintro (⟨name, hname, hlong⟩ | ⟨front, bytes, hfront, hfile⟩)
    · obtain ⟨front, rest, rfl⟩ := List.append_of_mem hname
      exact ⟨front, name, ⟨rest, by simp⟩, Or.inl hlong⟩
    · rcases List.eq_nil_or_concat' front with rfl | ⟨front, name, rfl⟩
      · exact nomatch hfile
      · exact ⟨front, name, hfront, Or.inr ⟨bytes, hfile⟩⟩

/-- Where the way has come to its end, no name was too long and none that of a file. -/
theorem Makes.free (h : Makes t [] above t' true) :
    (∀ name ∈ above, name.utf8ByteSize ≤ nameLimit)
      ∧ ∀ front bytes, front <+: above → t.lookup front ≠ some (.file bytes) := by
  obtain ⟨hshort, hfree⟩ := not_or.mp (mt h.fails_from_top_iff.mpr (by decide))
  exact ⟨fun name hname => Nat.not_lt.mp fun hlong => hshort ⟨name, hname, hlong⟩,
    fun front bytes hfront hfile => hfree ⟨front, bytes, hfront, hfile⟩⟩

/-- A file can be written at the end of an open way, unless its path or its name is too long or a
directory stands there. -/
theorem target_ofNames_eq_ok_iff (hnames : ∀ name ∈ above ++ [last], Route.IsOrdinary name)
    (hopen : t.IsOpen [] above) (hlength : ∀ name ∈ above, name.utf8ByteSize ≤ nameLimit)
    {place : Path} :
    t.target (Route.ofNames (above ++ [last])) = .ok place ↔ place = above ++ [last]
      ∧ Route.Fits (above ++ [last]) ∧ t.lookup (above ++ [last]) ≠ some .directory := by
  have hroute := Route.ofString?_ofNames hnames (by simp)
  by_cases hlong : routeLimit < (Route.ofNames (above ++ [last])).utf8ByteSize
  · rw [if_pos hlong] at hroute
    have htarget : t.target (Route.ofNames (above ++ [last])) = .error .nameTooLong := by
      unfold target approach
      rw [hroute]
      rfl
    rw [htarget]
    exact ⟨nofun, fun ⟨_, hfits, _⟩ => absurd hfits.path (Nat.not_le.mpr hlong)⟩
  · rw [if_neg hlong, List.map_append] at hroute
    -- all directories above are open, so the walk comes to the last name
    have happroach : t.approach (Route.ofNames (above ++ [last]))
        = .ok (above, some (.name last), false) := by
      refine (bind_eq_of_eq_ok hroute _).trans ?_
      rw [List.map_singleton, List.dropLast_concat, List.getLast?_concat]
      exact bind_eq_of_eq_ok (walk_of_isOpen hopen hlength) _
    constructor
    · intro htarget
      obtain ⟨p, n, happroach', hn, hdir, rfl⟩ := exists_of_target_eq_ok htarget
      obtain ⟨rfl, hlast, -⟩ : p = above ∧ n = last ∧ True := by
        simpa [happroach, eq_comm] using happroach'
      obtain rfl := hlast
      refine ⟨rfl, ⟨Nat.not_lt.mp hlong, fun name hname => ?_⟩, hdir⟩
      rcases List.mem_append.mp hname with hname | hname
      · exact hlength name hname
      · exact List.mem_singleton.mp hname ▸ hn
    · rintro ⟨rfl, hfits, hdir⟩
      have hfind : t.find above last = .ok (t.lookup (above ++ [last])) :=
        find_eq_ok_iff.mpr ⟨hfits.names last (by simp), rfl⟩
      refine (bind_eq_of_eq_ok happroach _).trans ((bind_eq_of_eq_ok hfind _).trans ?_)
      match hnode : t.lookup (above ++ [last]) with
      | none => rfl
      | some (.file _) => rfl
      | some .directory => exact absurd hnode hdir

/-- The directories above a file are made, or the path is too long. -/
theorem makes_makeParents {made : FileTree} {fault : Option FileFault}
    (hnames : ∀ name ∈ above ++ [last], Route.IsOrdinary name)
    (h : t.makeParents (Route.ofNames (above ++ [last])) = (made, fault)) :
    Makes t [] above made fault.isNone
      ∨ made = t ∧ fault ≠ none ∧ routeLimit < (Route.ofNames above).utf8ByteSize := by
  rw [makeParents_ofNames t hnames] at h
  by_cases hlong : routeLimit < (Route.ofNames above).utf8ByteSize
  · rw [if_pos hlong] at h
    obtain ⟨rfl, rfl⟩ := Prod.mk.inj h
    exact Or.inr ⟨rfl, nofun, hlong⟩
  · rw [if_neg hlong] at h
    have hmakes := makes_makeSteps t [] false above
    rw [h] at hmakes
    exact Or.inl hmakes

/-- Where the way to a file is free and not too long, and nowhere else, the directories above the
file are made and it can be written. -/
theorem exists_target_iff (hnames : ∀ name ∈ above ++ [last], Route.IsOrdinary name) :
    (∃ made place, t.makeParents (Route.ofNames (above ++ [last])) = (made, none)
        ∧ made.target (Route.ofNames (above ++ [last])) = .ok place)
      ↔ ¬ t.IsObstructed (above ++ [last]) ∧ Route.Fits (above ++ [last]) := by
  constructor
  · rintro ⟨made, place, hparents, htarget⟩
    obtain hmakes | ⟨-, hfault, -⟩ := makes_makeParents hnames hparents
    · obtain ⟨hlength, hfree⟩ := hmakes.free
      obtain ⟨-, hfits, hdir⟩ :=
        (target_ofNames_eq_ok_iff hnames (hmakes.isOpen (lookup_nil t)) hlength).mp htarget
      rw [hmakes.extendsAlong.lookup_concat] at hdir
      refine ⟨?_, hfits⟩
      rintro (hdir' | ⟨front, bytes, hfront, hne, hfile⟩)
      · exact hdir hdir'
      · rcases List.prefix_concat_iff.mp hfront with rfl | hfront
        · exact hne rfl
        · exact hfree front bytes hfront hfile
    · exact absurd rfl hfault
  · rintro ⟨hclear, hfits⟩
    have hlength : ∀ name ∈ above, name.utf8ByteSize ≤ nameLimit := fun name hname =>
      hfits.names name (List.mem_append_left _ hname)
    have hfree : ¬ ((∃ name ∈ above, nameLimit < name.utf8ByteSize)
        ∨ ∃ front bytes, front <+: above ∧ t.lookup front = some (.file bytes)) := by
      rintro (⟨name, hname, hlong⟩ | ⟨front, bytes, hfront, hfile⟩)
      · exact absurd hlong (Nat.not_lt.mpr (hlength name hname))
      · exact hclear (isObstructed_of_file_above hfront hfile)
    cases hparents : t.makeParents (Route.ofNames (above ++ [last])) with
    | mk made fault =>
      obtain hmakes | ⟨-, -, hlong⟩ := makes_makeParents hnames hparents
      · match fault, hmakes with
        | some f, hmakes => exact absurd (hmakes.fails_from_top_iff.mp rfl) hfree
        | none, hmakes =>
          refine ⟨made, above ++ [last], rfl, ?_⟩
          rw [target_ofNames_eq_ok_iff hnames (hmakes.isOpen (lookup_nil t)) hlength,
            hmakes.extendsAlong.lookup_concat]
          exact ⟨rfl, hfits, fun hdir => hclear (Or.inl hdir)⟩
      · exact absurd (hfits.path.trans' (Route.utf8ByteSize_ofNames_le above last))
          (Nat.not_le.mpr hlong)

/-- Behind the directories above it, a file is saved. -/
theorem saved_put_file {made : FileTree} (hmakes : Makes t [] above made true)
    (hdir : t.lookup (above ++ [last]) ≠ some .directory) (bytes : List UInt8) :
    t.Saved (above ++ [last]) bytes (made.put (above ++ [last]) (.file bytes)) := by
  have hextends := hmakes.extendsAlong
  have hlast : made.lookup (above ++ [last]) = t.lookup (above ++ [last]) := hextends.lookup_concat
  -- the file changes what is at its own place and nothing else
  have hlookup := fun q =>
    lookup_put made (isOutside_of_lookup_ne (by rw [hlast]; exact hdir)) q (.file bytes)
  refine ⟨?_, ?_, ?_, ?_, ?_⟩
  · rw [hlookup, if_pos rfl]
  · intro front hfront hne
    rw [hlookup, if_neg hne]
    exact hmakes.isOpen (lookup_nil t) front ((List.prefix_concat_iff.mp hfront).resolve_left hne)
  · intro q other hne
    rw [hlookup, if_neg hne, hextends.lookup_file_iff]
  · intro q hq
    rw [hlookup, if_neg fun heq : q = above ++ [last] => hdir (heq ▸ hq)]
    exact hextends.lookup_directory hq
  · intro q hq hold
    rw [hlookup] at hq
    by_cases heq : q = above ++ [last]
    · rw [if_pos heq] at hq
      exact nomatch hq
    · rw [if_neg heq] at hq
      rcases hextends q with hsame | ⟨-, -, front, hfront, rfl⟩
      · exact absurd (hsame ▸ hq) hold
      · exact ⟨hfront.trans (List.prefix_append ..), heq⟩

end TriggerLatency.FileTree
