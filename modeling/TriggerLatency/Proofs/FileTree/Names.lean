import Mathlib.Tactic.Ring
import TriggerLatency.FileTree.Access
import TriggerLatency.Proofs.Except
import TriggerLatency.Proofs.Text.Cutting

/-!
# Written paths that go down

A path that is written with nothing but ordinary names (`Route.ofNames`) is taken apart into these
names again (`ofString_ofNames`), and the path above it is written with all of them but the last
(`parentText_ofNames_concat`). The operating system takes it if neither the path nor one of its
names is too long (`Route.Fits`).
-/

namespace TriggerLatency

namespace Route

/-- A name that is a step down by itself: neither empty nor one of the steps `.` and `..`, and
without a slash or a NUL character. -/
structure IsOrdinary (name : String) : Prop where
  ne_empty : name ≠ ""
  ne_here : name ≠ "."
  ne_up : name ≠ ".."
  slash_not_mem : '/' ∉ name.toList
  nul_not_mem : '\x00' ∉ name.toList

/-- The relative path that is written with some names. -/
def ofNames (names : List String) : String := "/".intercalate names

/-- Neither a path nor one of its names is longer than the operating system takes it. -/
structure Fits (names : List String) : Prop where
  path : (ofNames names).utf8ByteSize ≤ routeLimit
  names : ∀ name ∈ names, name.utf8ByteSize ≤ nameLimit

instance (name : String) : Decidable (IsOrdinary name) :=
  decidable_of_iff
    (name ≠ "" ∧ name ≠ "." ∧ name ≠ ".." ∧ '/' ∉ name.toList ∧ '\x00' ∉ name.toList)
    ⟨fun ⟨hempty, hhere, hup, hslash, hnul⟩ => ⟨hempty, hhere, hup, hslash, hnul⟩,
      fun h => ⟨h.ne_empty, h.ne_here, h.ne_up, h.slash_not_mem, h.nul_not_mem⟩⟩

variable {names above : List String} {name : String}

namespace IsOrdinary

theorem toList_ne_nil (h : IsOrdinary name) : name.toList ≠ [] := by
  intro hnil
  refine h.ne_empty (String.toList_inj.mp ?_)
  rw [hnil]
  rfl

theorem ofPiece? (h : IsOrdinary name) : Step.ofPiece? name.toList = some (.name name) := by
  have hhere : name.toList ≠ ['.'] := fun heq => h.ne_here (String.toList_inj.mp heq)
  have hup : name.toList ≠ ['.', '.'] := fun heq => h.ne_up (String.toList_inj.mp heq)
  unfold Step.ofPiece?
  rw [if_neg h.toList_ne_nil, if_neg hhere, if_neg hup, String.ofList_toList]

theorem isIdle (h : IsOrdinary name) : isIdle name.toList = false := by
  have hhere : name.toList ≠ ['.'] := fun heq => h.ne_here (String.toList_inj.mp heq)
  simp [Route.isIdle, h.toList_ne_nil, hhere]

end IsOrdinary

theorem toList_ofNames (names : List String) :
    (ofNames names).toList = ['/'].intercalate (names.map String.toList) :=
  String.toList_intercalate

/-- One more name is written behind a slash. -/
theorem ofNames_concat (habove : above ≠ []) (last : String) :
    ofNames (above ++ [last]) = ofNames above ++ "/" ++ last := by
  unfold ofNames
  rw [String.intercalate_append_of_ne_nil habove (List.cons_ne_nil last []),
    String.intercalate_singleton]

/-- The pieces between the slashes are the names. -/
theorem pieces_ofNames (hnames : ∀ name ∈ names, IsOrdinary name) (hne : names ≠ []) :
    pieces (ofNames names) = names.map String.toList := by
  rw [pieces, toList_ofNames, Text.splitOn_intercalate ?_ (by simpa using hne)]
  rintro _ hpiece
  obtain ⟨name, hname, rfl⟩ := List.mem_map.mp hpiece
  exact (hnames name hname).slash_not_mem

/-- A path of names is taken apart into steps down. -/
theorem ofString_ofNames (hnames : ∀ name ∈ names, IsOrdinary name) :
    ofString (ofNames names) = ⟨[], names.map .name, names = []⟩ := by
  rcases names with _ | ⟨first, rest⟩
  · rfl
  have hpieces := pieces_ofNames hnames (List.cons_ne_nil first rest)
  have hfirst := hnames first (List.mem_cons_self ..)
  have horigin : (ofNames (first :: rest)).toList.head? ≠ some '/' := by
    obtain ⟨c, cs, hcs⟩ := List.exists_cons_of_ne_nil hfirst.toList_ne_nil
    have hslash : c ≠ '/' := fun heq => hfirst.slash_not_mem (hcs ▸ heq ▸ List.mem_cons_self ..)
    rw [toList_ofNames, List.map_cons, hcs, List.intercalate_cons_cons_left]
    simpa using hslash
  -- an ordinary name is not empty and no dots, so it is a step of its own
  have hsteps : ((first :: rest).map String.toList).filterMap Step.ofPiece?
      = (first :: rest).map Step.name := by
    have hsome : (first :: rest).filterMap (Step.ofPiece? ∘ String.toList)
        = (first :: rest).filterMap (some ∘ Step.name) :=
      List.filterMap_congr fun name hname => (hnames name hname).ofPiece?
    rw [List.filterMap_map, hsome, List.filterMap_eq_map]
  have hclosed : ((first :: rest).map String.toList).getLast? ≠ some [] := by
    rw [List.getLast?_map]
    intro hlast
    obtain ⟨name, hname, hnil⟩ := Option.map_eq_some_iff.mp hlast
    exact (hnames name (List.mem_of_getLast? hname)).toList_ne_nil hnil
  unfold ofString
  rw [hpieces, hsteps, if_neg horigin, decide_eq_false hclosed, decide_eq_false (by simp)]

/-- Names are not passed over at the end of a path. -/
theorem dropWhile_isIdle (hnames : ∀ name ∈ names, IsOrdinary name) :
    (names.map String.toList).reverse.dropWhile isIdle = (names.map String.toList).reverse := by
  rcases List.eq_nil_or_concat names with rfl | ⟨front, last, rfl⟩
  · rfl
  · have hlast := (hnames last (by simp)).isIdle
    simp [hlast]

/-- Above a path of names lies the path without the last of them. -/
theorem parentText_ofNames_concat {last : String}
    (hnames : ∀ name ∈ above ++ [last], IsOrdinary name) :
    parentText (ofNames (above ++ [last])) = ofNames above := by
  have habove := dropWhile_isIdle fun name hname => hnames name (List.mem_append_left _ hname)
  refine String.toList_inj.mp ?_
  unfold parentText
  rw [pieces_ofNames hnames (by simp), dropWhile_isIdle hnames, List.map_append,
    List.reverse_append, List.map_singleton, List.reverse_singleton, List.singleton_append,
    List.tail_cons, habove, List.reverse_reverse, String.toList_ofList, toList_ofNames]

/-- A path of names is empty only if there are none. -/
theorem ofNames_eq_empty_iff (hnames : ∀ name ∈ names, IsOrdinary name) :
    ofNames names = "" ↔ names = [] := by
  constructor
  · intro hempty
    by_contra hne
    obtain ⟨name, hname⟩ := List.exists_mem_of_ne_nil names hne
    have hpieces := pieces_ofNames hnames hne
    rw [hempty] at hpieces
    have hmem : name.toList ∈ pieces "" := hpieces ▸ List.mem_map_of_mem hname
    exact (hnames name hname).toList_ne_nil (List.mem_singleton.mp hmem)
  · rintro rfl
    rfl

/-- The operating system takes a path of names unless it is too long. -/
theorem ofString?_ofNames (hnames : ∀ name ∈ names, IsOrdinary name) (hne : names ≠ []) :
    ofString? (ofNames names)
      = if routeLimit < (ofNames names).utf8ByteSize then .error .nameTooLong
        else .ok ⟨[], names.map .name, false⟩ := by
  have hnul : (ofNames names).toList.contains '\x00' = false := by
    rw [toList_ofNames, List.contains_eq_mem, decide_eq_false_iff_not]
    intro hmem
    rcases Text.eq_or_mem_of_mem_intercalate hmem with hslash | ⟨_, hpiece, hmem⟩
    · exact absurd hslash (by decide)
    · obtain ⟨name, hname, rfl⟩ := List.mem_map.mp hpiece
      exact (hnames name hname).nul_not_mem hmem
  unfold ofString?
  rw [hnul, if_neg Bool.false_ne_true, if_neg (mt (ofNames_eq_empty_iff hnames).mp hne),
    ofString_ofNames hnames, decide_eq_false hne]

theorem utf8ByteSize_ofNames_concat (habove : above ≠ []) (last : String) :
    (ofNames (above ++ [last])).utf8ByteSize
      = (ofNames above).utf8ByteSize + 1 + last.utf8ByteSize := by
  rw [ofNames_concat habove, String.utf8ByteSize_append, String.utf8ByteSize_append]
  rfl

/-- The path above is shorter. -/
theorem utf8ByteSize_ofNames_le (above : List String) (last : String) :
    (ofNames above).utf8ByteSize ≤ (ofNames (above ++ [last])).utf8ByteSize := by
  by_cases hnil : above = []
  · rw [hnil]
    exact Nat.zero_le _
  · rw [utf8ByteSize_ofNames_concat hnil]
    omega

theorem utf8ByteSize_ofNames_replicate (name : String) (n : Nat) :
    (ofNames (List.replicate (n + 1) name)).utf8ByteSize = (n + 1) * name.utf8ByteSize + n := by
  induction n with
  | zero =>
    show (ofNames [name]).utf8ByteSize = _
    rw [ofNames, String.intercalate_singleton]
    omega
  | succ n ih =>
    rw [List.replicate_succ', utf8ByteSize_ofNames_concat (by simp), ih]
    ring

end Route

end TriggerLatency
