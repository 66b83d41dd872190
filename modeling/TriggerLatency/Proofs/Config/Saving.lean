import TriggerLatency.Config.Store
import TriggerLatency.Proofs.FileTree.Saving

/-!
# Saving settings touches nothing else

Along a path of names, settings are saved unless the way is obstructed or too long for the
operating system (`Config.save_touches_only`). If they are saved, their file is there, in
directories, and everything else is as it was. If they are not, no file has been touched; and
nothing at all has happened unless the path was too long, for what obstructs the way is met before
anything is made.
-/

namespace TriggerLatency

open FileTree

/-- What saving can come to. -/
theorem Config.save_cases (c : Config) (t : FileTree) (path : String) :
    (∃ made saved, t.makeParents path = (made, none)
        ∧ made.write path (Text.Utf8.encode c.toJson.pretty) = .ok saved
        ∧ c.save t path = ⟨saved, .ok (), [.configSaved path]⟩)
      ∨ ∃ made fault f, t.makeParents path = (made, fault)
        ∧ (fault = none → made.write path (Text.Utf8.encode c.toJson.pretty) = .error f)
        ∧ c.save t path = ⟨made, .error (.access path f), []⟩ := by
  unfold Config.save
  match hparents : t.makeParents path with
  | (made, some f) => exact Or.inr ⟨made, some f, f, rfl, nofun, rfl⟩
  | (made, none) =>
    dsimp only
    cases hwrite : made.write path (Text.Utf8.encode c.toJson.pretty) with
    | error f => exact Or.inr ⟨made, none, f, rfl, fun _ => hwrite, rfl⟩
    | ok saved => exact Or.inl ⟨made, saved, rfl, hwrite, rfl⟩

variable {c : Config} {t : FileTree} {names above : List String} {last : String}

/-- Settings are saved if the way to their file is free and not too long. -/
theorem Config.save_concat_eq_ok_iff (hnames : ∀ name ∈ above ++ [last], Route.IsOrdinary name) :
    (c.save t (Route.ofNames (above ++ [last]))).result = .ok ()
      ↔ ¬ t.IsObstructed (above ++ [last]) ∧ Route.Fits (above ++ [last]) := by
  rw [← exists_target_iff hnames]
  rcases c.save_cases t (Route.ofNames (above ++ [last])) with
    ⟨made, saved, hparents, hwrite, heq⟩ | ⟨made, fault, f, hparents, hwrite, heq⟩
  · obtain ⟨place, htarget, -⟩ := write_eq_ok_iff.mp hwrite
    rw [heq]
    exact iff_of_true rfl ⟨made, place, hparents, htarget⟩
  · rw [heq]
    refine iff_of_false nofun ?_
    rintro ⟨made', place, hparents', htarget⟩
    obtain ⟨rfl, rfl⟩ := Prod.mk.inj (hparents.symm.trans hparents')
    have hwrite := hwrite rfl
    rw [write_eq_map, htarget] at hwrite
    exact nomatch hwrite

/-- Settings that are saved along a path of names are in their file there. -/
theorem Config.saved_of_save (hnames : ∀ name ∈ names, Route.IsOrdinary name)
    (h : (c.save t (Route.ofNames names)).result = .ok ()) :
    t.Saved names (Text.Utf8.encode c.toJson.pretty) (c.save t (Route.ofNames names)).tree := by
  rcases List.eq_nil_or_concat' names with rfl | ⟨above, last, rfl⟩
  · exact nomatch h
  obtain ⟨hclear, -⟩ := (save_concat_eq_ok_iff hnames).mp h
  rcases c.save_cases t (Route.ofNames (above ++ [last])) with
    ⟨made, saved, hparents, hwrite, heq⟩ | ⟨made, fault, f, -, -, heq⟩
  · obtain hmakes | ⟨-, hfault, -⟩ := makes_makeParents hnames hparents
    · obtain ⟨hlength, hfree⟩ := hmakes.free
      obtain ⟨place, htarget, rfl⟩ := write_eq_ok_iff.mp hwrite
      obtain ⟨rfl, -, -⟩ :=
        (target_ofNames_eq_ok_iff hnames (hmakes.isOpen (lookup_nil t)) hlength).mp htarget
      rw [heq]
      exact saved_put_file hmakes (fun hdir => hclear (Or.inl hdir)) _
    · exact absurd rfl hfault
  · rw [heq] at h
    exact nomatch h

/-- Settings that are not saved leave nothing but new directories above their file. -/
theorem Config.extendsAlong_of_save {e : ConfigError}
    (hnames : ∀ name ∈ names, Route.IsOrdinary name)
    (h : (c.save t (Route.ofNames names)).result = .error e) :
    t.ExtendsAlong [] names.dropLast (c.save t (Route.ofNames names)).tree := by
  rcases List.eq_nil_or_concat' names with rfl | ⟨above, last, rfl⟩
  · exact fun q => Or.inl rfl
  rw [List.dropLast_concat]
  rcases c.save_cases t (Route.ofNames (above ++ [last])) with
    ⟨made, saved, -, -, heq⟩ | ⟨made, fault, f, hparents, -, heq⟩
  · rw [heq] at h
    exact nomatch h
  · rw [heq]
    obtain hmakes | ⟨rfl, -, -⟩ := makes_makeParents hnames hparents
    · exact hmakes.extendsAlong
    · exact fun q => Or.inl rfl

/-- Settings that are not saved leave nothing at all, unless their path was too long. -/
theorem Config.tree_save_eq_self {e : ConfigError} (ht : t.IsRooted)
    (hnames : ∀ name ∈ names, Route.IsOrdinary name) (hfits : Route.Fits names)
    (h : (c.save t (Route.ofNames names)).result = .error e) :
    (c.save t (Route.ofNames names)).tree = t := by
  rcases List.eq_nil_or_concat' names with rfl | ⟨above, last, rfl⟩
  · rfl
  have hobstructed : t.IsObstructed (above ++ [last]) := by
    by_contra hclear
    rw [(save_concat_eq_ok_iff hnames).mpr ⟨hclear, hfits⟩] at h
    exact nomatch h
  rcases c.save_cases t (Route.ofNames (above ++ [last])) with
    ⟨made, saved, -, -, heq⟩ | ⟨made, fault, f, hparents, -, heq⟩
  · rw [heq] at h
    exact nomatch h
  · rw [heq]
    obtain hmakes | ⟨rfl, -, -⟩ := makes_makeParents hnames hparents
    · have hlength : ∀ name ∈ above, name.utf8ByteSize ≤ nameLimit := fun name hname =>
        hfits.names name (List.mem_append_left _ hname)
      match fault, hmakes with
      | some _, hmakes => exact hmakes.eq_self ht hlength
      | none, hmakes =>
        -- no file is above, so there is a directory in place of the file
        rcases hobstructed with hdir | ⟨front, bytes, hfront, hne, hfile⟩
        · exact hmakes.eq_self_of_lookup_ne ht
            (by rw [List.nil_append, ht above last (by rw [hdir]; exact nofun)]; exact nofun)
        · have hfront := (List.prefix_concat_iff.mp hfront).resolve_left hne
          exact absurd hfile (hmakes.free.2 front bytes hfront)
    · rfl

/-- Where nothing is in the way and the path was only too long for the file, the directories above
it have been made. -/
theorem Config.isOpen_of_save {e : ConfigError}
    (hnames : ∀ name ∈ above ++ [last], Route.IsOrdinary name)
    (hclear : ¬ t.IsObstructed (above ++ [last])) (hfits : Route.Fits above)
    (h : (c.save t (Route.ofNames (above ++ [last]))).result = .error e) :
    (c.save t (Route.ofNames (above ++ [last]))).tree.IsOpen [] above := by
  rcases c.save_cases t (Route.ofNames (above ++ [last])) with
    ⟨made, saved, -, -, heq⟩ | ⟨made, fault, f, hparents, -, heq⟩
  · rw [heq] at h
    exact nomatch h
  · rw [heq]
    obtain hmakes | ⟨-, -, hlong⟩ := makes_makeParents hnames hparents
    · match fault, hmakes with
      | none, hmakes => exact hmakes.isOpen (lookup_nil t)
      | some _, hmakes =>
        rcases hmakes.fails_from_top_iff.mp rfl with
          ⟨name, hname, hlong⟩ | ⟨front, bytes, hfront, hfile⟩
        · exact absurd hlong (Nat.not_lt.mpr (hfits.names name hname))
        · exact absurd (isObstructed_of_file_above hfront hfile) hclear
    · exact absurd hfits.path (Nat.not_le.mpr hlong)

/-- Saving settings along a path of names. If they are saved, their file holds their text, there
are directories above it, and nothing else has changed. They are not saved if there is a directory
in place of the file or a file above it, or if a name or the path is too long; nothing has changed
then unless it was too long, and even then only directories above the file are new. -/
theorem Config.save_touches_only (c : Config) {t : FileTree} {names : List String}
    (ht : t.IsRooted) (hnames : ∀ name ∈ names, Route.IsOrdinary name) :
    ((c.save t (Route.ofNames names)).result = .ok () →
        t.Saved names (Text.Utf8.encode c.toJson.pretty) (c.save t (Route.ofNames names)).tree)
      ∧ ((∃ e, (c.save t (Route.ofNames names)).result = .error e)
        ↔ t.IsObstructed names ∨ ¬ Route.Fits names)
      ∧ ((∃ e, (c.save t (Route.ofNames names)).result = .error e) → Route.Fits names →
        (c.save t (Route.ofNames names)).tree = t)
      ∧ ((∃ e, (c.save t (Route.ofNames names)).result = .error e) →
        t.ExtendsAlong [] names.dropLast (c.save t (Route.ofNames names)).tree) := by
  refine ⟨saved_of_save hnames, ?_, fun ⟨e, h⟩ hfits => tree_save_eq_self ht hnames hfits h,
    fun ⟨e, h⟩ => extendsAlong_of_save hnames h⟩
  -- without a name, the root itself would be written, which is a directory
  rcases List.eq_nil_or_concat' names with rfl | ⟨above, last, rfl⟩
  · exact iff_of_true ⟨_, rfl⟩ (Or.inl (Or.inl rfl))
  · have hok := save_concat_eq_ok_iff (c := c) (t := t) hnames
    cases hresult : (c.save t (Route.ofNames (above ++ [last]))).result with
    | ok _ =>
      obtain ⟨hclear, hfits⟩ := hok.mp hresult
      exact iff_of_false nofun (not_or.mpr ⟨hclear, not_not_intro hfits⟩)
    | error e =>
      rw [hresult] at hok
      refine iff_of_true ⟨e, rfl⟩ ?_
      by_contra hnone
      obtain ⟨hclear, hfits⟩ := not_or.mp hnone
      exact nomatch hok.mpr ⟨hclear, not_not.mp hfits⟩

/-- A directory with a note in it. -/
def notedTree : FileTree :=
  (FileTree.empty.put ["settings"] .directory).put ["settings", "note"] (.file [])

theorem isRooted_notedTree : notedTree.IsRooted :=
  (isRooted_empty.put (p := []) rfl rfl fun _ => rfl).put (p := ["settings"]) rfl rfl nofun

/-- Settings can be saved beside the note, but not below it. -/
theorem Config.save_beside_note :
    notedTree.IsRooted
      ∧ (∀ name ∈ ["settings", "new", "a"], Route.IsOrdinary name)
      ∧ notedTree.Saved ["settings", "new", "a"] (Text.Utf8.encode ({} : Config).toJson.pretty)
        (({} : Config).save notedTree (Route.ofNames ["settings", "new", "a"])).tree
      ∧ (∀ name ∈ ["settings", "note", "a"], Route.IsOrdinary name)
      ∧ (({} : Config).save notedTree (Route.ofNames ["settings", "note", "a"])).tree
        = notedTree := by
  have hbeside : ∀ name ∈ ["settings", "new", "a"], Route.IsOrdinary name := by decide +kernel
  have hbelow : ∀ name ∈ ["settings", "note", "a"], Route.IsOrdinary name := by decide +kernel
  have hfits : Route.Fits ["settings", "note", "a"] := ⟨by decide +kernel, by decide +kernel⟩
  refine ⟨isRooted_notedTree, hbeside, ?_, hbelow, ?_⟩
  · exact (Config.save_touches_only {} isRooted_notedTree hbeside).1 rfl
  · exact (Config.save_touches_only {} isRooted_notedTree hbelow).2.2.1 ⟨_, rfl⟩ hfits

/-- A name as long as a name may be. -/
def longestName : String := String.ofList (List.replicate nameLimit 'n')

theorem isOrdinary_longestName : Route.IsOrdinary longestName := by decide +kernel

/-- The names of sixteen directories, one in the other, that are as long as a path may be. -/
def longestNames : List String := List.replicate 16 longestName

theorem utf8ByteSize_longestNames : (Route.ofNames longestNames).utf8ByteSize = routeLimit := by
  have hname : longestName.utf8ByteSize = nameLimit := by decide +kernel
  rw [longestNames, Route.utf8ByteSize_ofNames_replicate, hname]
  rfl

theorem not_fits_below_longestNames : ¬ Route.Fits (longestNames ++ ["x"]) := by
  intro hfits
  have hpath := hfits.path
  rw [Route.utf8ByteSize_ofNames_concat (by simp [longestNames]),
    utf8ByteSize_longestNames] at hpath
  omega

/-- A file below them has nothing in its way, but settings cannot be saved there, and the
directories above it stay. -/
theorem Config.save_below_longest_names :
    FileTree.empty.IsRooted
      ∧ (∀ name ∈ longestNames ++ ["x"], Route.IsOrdinary name)
      ∧ ¬ FileTree.empty.IsObstructed (longestNames ++ ["x"])
      ∧ (∃ e, (({} : Config).save .empty
        (Route.ofNames (longestNames ++ ["x"]))).result = .error e)
      ∧ FileTree.empty.lookup [longestName] = none
      ∧ (({} : Config).save .empty
        (Route.ofNames (longestNames ++ ["x"]))).tree.lookup [longestName]
          = some .directory := by
  have hnames : ∀ name ∈ longestNames ++ ["x"], Route.IsOrdinary name := by
    intro name hname
    rcases List.mem_append.mp hname with hname | hname
    · exact (List.mem_replicate.mp hname).2 ▸ isOrdinary_longestName
    · exact List.mem_singleton.mp hname ▸ by decide +kernel
  have hfits : Route.Fits longestNames :=
    ⟨utf8ByteSize_longestNames.le, by decide +kernel⟩
  have hnone : FileTree.empty.lookup [longestName] = none := by decide +kernel
  have hclear : ¬ FileTree.empty.IsObstructed (longestNames ++ ["x"]) := by
    have hbelow := isRooted_empty.lookup_append_eq_none hnone
      (List.replicate 15 longestName ++ ["x"])
    rintro (hdir | ⟨front, bytes, -, -, hfile⟩)
    · exact nomatch hbelow.symm.trans hdir
    · unfold lookup at hfile
      rw [stored_empty] at hfile
      split at hfile <;> exact nomatch hfile
  -- the directories can be made, but the path of the file is too long
  have hfails : ∃ e, (({} : Config).save .empty
      (Route.ofNames (longestNames ++ ["x"]))).result = .error e := by
    cases hresult : (({} : Config).save .empty
        (Route.ofNames (longestNames ++ ["x"]))).result with
    | error e => exact ⟨e, rfl⟩
    | ok _ =>
      exact absurd ((Config.save_concat_eq_ok_iff hnames).mp hresult).2 not_fits_below_longestNames
  refine ⟨isRooted_empty, hnames, hclear, hfails, hnone, ?_⟩
  obtain ⟨e, hresult⟩ := hfails
  exact Config.isOpen_of_save hnames hclear hfits hresult [longestName] ⟨_, rfl⟩

end TriggerLatency
