import TriggerLatency.Proofs.Matching.Nearest

/-!
# Runs of the matcher

`Serves` is a run of the matcher as a derivation: each send takes its nearest open
slot, which is then closed, or passes if no open slot fits. `assign_serves` says that
`assign` derives it; whatever holds of all runs is proved by induction on it.

`Serves.served_at` reads a run position by position: the send at `i` is served from the slots
that no earlier send has.
-/

namespace TriggerLatency

variable {limit : LatencyLimit}

/-- A run over some send times from some open slots, with the slot that each send takes. -/
inductive Serves (limit : LatencyLimit) : List Slot → List Float → List (Option Slot) → Prop
  | done (slots : List Slot) : Serves limit slots [] []
  | take {slots : List Slot} {t : Float} {b : Slot} {ts : List Float} {os : List (Option Slot)} :
      IsNearest limit t slots b → Serves limit (close b slots) ts os →
        Serves limit slots (t :: ts) (some b :: os)
  | pass {slots : List Slot} {t : Float} {ts : List Float} {os : List (Option Slot)} :
      (∀ s ∈ slots, ¬ Fits limit t s.time) → Serves limit slots ts os →
        Serves limit slots (t :: ts) (none :: os)

/-- The matcher's assignment is such a run. -/
theorem assign_serves (limit : LatencyLimit) {ts : List Float} (hts : ∀ t ∈ ts, t.isFinite = true) :
    ∀ {slots : List Slot}, Arena slots → Serves limit slots ts (assign limit slots ts).1 := by
  induction ts with
  | nil => intro slots _; exact Serves.done slots
  | cons t ts ih =>
    intro slots ha
    have ih := @ih (fun u hu => hts u (List.mem_cons_of_mem t hu))
    unfold assign at ih ⊢
    rw [Transducer.run_cons]
    unfold serve
    rcases nearest_spec limit (hts t (List.mem_cons_self ..)) ha with
      ⟨b, hb, hnear⟩ | ⟨hnone, hall⟩
    · rw [hb]
      exact Serves.take hnear (ih (ha.close b))
    · rw [hnone]
      exact Serves.pass hall (ih ha)

namespace Serves

variable {slots : List Slot} {ts : List Float} {os : List (Option Slot)}

/-- One answer per send. -/
theorem length_eq (h : Serves limit slots ts os) : os.length = ts.length := by
  induction h with
  | done => rfl
  | take _ _ ih => simp [ih]
  | pass _ _ ih => simp [ih]

/-- Only open slots are taken. -/
theorem mem_of_some (h : Serves limit slots ts os) {b : Slot} (hb : some b ∈ os) : b ∈ slots := by
  induction h with
  | done => exact absurd hb List.not_mem_nil
  | take hnear _ ih =>
    rcases List.mem_cons.mp hb with heq | hlater
    · rw [Option.some_inj] at heq
      exact heq ▸ hnear.mem
    · exact List.mem_of_mem_filter (ih hlater)
  | pass _ _ ih =>
    rcases List.mem_cons.mp hb with heq | hlater
    · exact absurd heq (by simp)
    · exact ih hlater

/-- Other numbers for the slots, in the same order, change nothing. -/
theorem map (h : Serves limit slots ts os) {f : Slot → Slot} (hf : Renumbers f) :
    Serves limit (slots.map f) ts (os.map (Option.map f)) := by
  have hclose : ∀ (b : Slot) (slots : List Slot),
      close (f b) (slots.map f) = (close b slots).map f := by
    intro b slots
    have hsame : ∀ s, (f s).position = (f b).position ↔ s.position = b.position := by
      intro s
      rw [Nat.le_antisymm_iff, Nat.le_antisymm_iff, hf.position, hf.position]
    simp only [close, List.filter_map, Function.comp_def, ne_eq, hsame]
  -- times and order are kept, and serving looks at nothing else
  induction h with
  | done => exact Serves.done _
  | @take slots t b ts os hnear _ ih =>
    refine Serves.take ⟨List.mem_map_of_mem hnear.mem, ?_, ?_, ?_⟩ (hclose b slots ▸ ih)
    · rw [hf.time]
      exact hnear.fits
    · intro s hs hfits
      obtain ⟨u, hu, rfl⟩ := List.mem_map.mp hs
      rw [hf.time] at hfits
      rw [hf.time, hf.time]
      exact hnear.least u hu hfits
    · intro s hs hfits hle
      obtain ⟨u, hu, rfl⟩ := List.mem_map.mp hs
      rw [hf.time] at hfits
      rw [hf.time, hf.time] at hle
      exact (hf.position b u).mpr (hnear.first u hu hfits hle)
  | @pass slots t ts os hall _ ih =>
    refine Serves.pass ?_ ih
    intro s hs
    obtain ⟨u, hu, rfl⟩ := List.mem_map.mp hs
    rw [hf.time]
    exact hall u hu

/-- A pool has one run. -/
theorem unique (h : Serves limit slots ts os) (ha : Arena slots) {os' : List (Option Slot)}
    (h' : Serves limit slots ts os') : os = os' := by
  induction h generalizing os' with
  | done =>
    cases h'
    rfl
  | take hnear _ ih =>
    cases h' with
    | take hnear' hrest' =>
      obtain rfl := hnear.unique ha hnear'
      rw [ih (ha.close _) hrest']
    | pass hall' _ => exact absurd hnear.fits (hall' _ hnear.mem)
  | pass hall _ ih =>
    cases h' with
    | take hnear' _ => exact absurd hnear'.fits (hall _ hnear'.mem)
    | pass _ hrest' => rw [ih ha hrest']

/-- Slots that fit no send can be left out. -/
theorem of_reach (h : Serves limit slots ts os) {slots' : List Slot} (hsub : slots' ⊆ slots)
    (hreach : ∀ t ∈ ts, ∀ s ∈ slots, Fits limit t s.time → s ∈ slots') :
    Serves limit slots' ts os := by
  induction h generalizing slots' with
  | done => exact Serves.done _
  | @take slots t b ts os hnear _ ih =>
    have hb : b ∈ slots' := hreach t (List.mem_cons_self ..) b hnear.mem hnear.fits
    refine Serves.take (hnear.of_subset hsub hb) (ih (List.filter_subset _ hsub) ?_)
    intro u hu s hs hfits
    obtain ⟨hmem, hne⟩ := List.mem_filter.mp hs
    exact List.mem_filter.mpr ⟨hreach u (List.mem_cons_of_mem t hu) s hmem hfits, hne⟩
  | @pass slots t ts os hall _ ih =>
    refine Serves.pass (fun s hs => hall s (hsub hs)) (ih hsub ?_)
    exact fun u hu => hreach u (List.mem_cons_of_mem t hu)

/-- The slots that the sends before position `i` leave open. -/
def openAt (slots : List Slot) (os : List (Option Slot)) (i : Nat) : List Slot :=
  slots.filter fun s => some s ∉ os.take i

theorem mem_openAt {i : Nat} {s : Slot} :
    s ∈ openAt slots os i ↔ s ∈ slots ∧ some s ∉ os.take i := by
  simp [openAt]

/-- What is open later on is what is open once the first slot is closed. -/
private theorem mem_openAt_cons (os : List (Option Slot)) (ha : Arena slots) {b : Slot}
    (hb : b ∈ slots) (i : Nat) (s : Slot) :
    s ∈ openAt slots (some b :: os) (i + 1) ↔ s ∈ openAt (close b slots) os i := by
  rw [mem_openAt, mem_openAt, ha.mem_close_iff hb, List.take_succ_cons, List.mem_cons,
    Option.some_inj]
  tauto

/-- The send at any position takes the nearest of the slots that are open there, if one fits. -/
theorem served_at (ha : Arena slots) (h : Serves limit slots ts os) {i : Nat} {t : Float}
    (ht : ts[i]? = some t) :
    (∃ b, os[i]? = some (some b) ∧ IsNearest limit t (openAt slots os i) b)
    ∨ (os[i]? = some none ∧ ∀ s ∈ openAt slots os i, ¬ Fits limit t s.time) := by
  induction h generalizing i with
  | done => simp at ht
  | @take slots u b ts os hnear _ ih =>
    cases i with
    | zero =>
      -- before the first send all slots are open
      obtain rfl : u = t := by simpa using ht
      exact Or.inl ⟨b, rfl, hnear.congr fun s => by simp [mem_openAt]⟩
    | succ i =>
      have hsame := mem_openAt_cons os ha hnear.mem i
      rcases ih (ha.close b) ht with ⟨c, hc, hcnear⟩ | ⟨hnone, hall⟩
      · exact Or.inl ⟨c, hc, hcnear.congr fun s => (hsame s).symm⟩
      · exact Or.inr ⟨hnone, fun s hs => hall s ((hsame s).mp hs)⟩
  | @pass slots u ts os hall _ ih =>
    have hsame : ∀ i s, s ∈ openAt slots (none :: os) (i + 1) ↔ s ∈ openAt slots os i := by
      intro i s
      simp [mem_openAt]
    cases i with
    | zero =>
      obtain rfl : u = t := by simpa using ht
      exact Or.inr ⟨rfl, fun s hs => hall s (mem_openAt.mp hs).1⟩
    | succ i =>
      rcases ih ha ht with ⟨c, hc, hcnear⟩ | ⟨hnone, hall⟩
      · exact Or.inl ⟨c, hc, hcnear.congr fun s => (hsame i s).symm⟩
      · exact Or.inr ⟨hnone, fun s hs => hall s ((hsame i s).mp hs)⟩

end Serves

end TriggerLatency
