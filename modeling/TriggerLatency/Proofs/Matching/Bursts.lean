import TriggerLatency.Proofs.Matching.Outcome

/-!
# Bursts of events

Sends and receive events that come in two bursts, none of the receive events of one burst in
reach of the sends of the other, are matched burst by burst, however the receive events of the
two stand among each other (`pair_interleaved`).

The slots of a burst are numbered differently when those of the other stand between them. A run
only asks which of two numbers is less, so it takes the same slots by their other numbers
(`Slot.exists_sides`, `Serves.map`), and those of the other burst can be left out because they
fit no send (`Serves.of_reach`).
-/

namespace TriggerLatency

/-- A list is put together from two others, each in its order. -/
inductive Interleaves {α : Type} : List α → List α → List α → Prop
  | nil : Interleaves [] [] []
  | left {a : α} {as bs merged : List α} :
      Interleaves as bs merged → Interleaves (a :: as) bs (a :: merged)
  | right {b : α} {as bs merged : List α} :
      Interleaves as bs merged → Interleaves as (b :: bs) (b :: merged)

theorem Interleaves.mem_iff {α : Type} {as bs merged : List α} (h : Interleaves as bs merged)
    {x : α} : x ∈ merged ↔ x ∈ as ∨ x ∈ bs := by
  induction h with
  | nil => simp
  | left _ ih =>
    rw [List.mem_cons, List.mem_cons, ih]
    tauto
  | right _ ih =>
    rw [List.mem_cons, List.mem_cons, ih]
    tauto

/-! ## The slots of interleaved receive times -/

namespace Slot

/-- The slot as it is numbered when there is one more in front. -/
def next (s : Slot) : Slot :=
  ⟨s.position + 1, s.time⟩

/-- A renumbering of the slots behind the first, which keeps its number. -/
def behindFirst (f : Slot → Slot) : Slot → Slot
  | ⟨0, time⟩ => ⟨0, time⟩
  | ⟨position + 1, time⟩ => (f ⟨position, time⟩).next

theorem ofTimes_cons (time : Float) (times : List Float) :
    ofTimes (time :: times) = ⟨0, time⟩ :: (ofTimes times).map next := by
  rw [ofTimes, List.zipIdx_cons, List.map_cons, Nat.zero_add, List.zipIdx_succ, List.map_map,
    ofTimes, List.map_map]
  rfl

theorem map_behindFirst_ofTimes (f : Slot → Slot) (time : Float) (times : List Float) :
    (ofTimes (time :: times)).map (behindFirst f)
      = ⟨0, time⟩ :: ((ofTimes times).map f).map next := by
  rw [ofTimes_cons, List.map_cons, List.map_map, List.map_map]
  rfl

theorem next_injective : Function.Injective next := by
  intro a b h
  injection h with hposition htime
  exact Slot.mk.injEq .. ▸ ⟨Nat.succ.inj hposition, htime⟩

end Slot

theorem Renumbers.next {f : Slot → Slot} (hf : Renumbers f) : Renumbers (Slot.next ∘ f) where
  time := hf.time
  position a b := Nat.succ_le_succ_iff.trans (hf.position a b)

theorem Renumbers.behindFirst {f : Slot → Slot} (hf : Renumbers f) :
    Renumbers (Slot.behindFirst f) where
  time
    | ⟨0, _⟩ => rfl
    | ⟨_ + 1, _⟩ => hf.time _
  position
    | ⟨0, _⟩, ⟨0, _⟩ => Iff.rfl
    | ⟨0, _⟩, ⟨_ + 1, _⟩ => iff_of_true (Nat.zero_le _) (Nat.zero_le _)
    | ⟨_ + 1, _⟩, ⟨0, _⟩ => iff_of_false (Nat.not_succ_le_zero _) (Nat.not_succ_le_zero _)
    | ⟨_ + 1, _⟩, ⟨_ + 1, _⟩ =>
      Nat.succ_le_succ_iff.trans ((hf.position _ _).trans Nat.succ_le_succ_iff.symm)

/-- The slots of a pool are those of two others, which have none in common. -/
structure Sides (slots left right : List Slot) : Prop where
  mem_iff : ∀ s, s ∈ slots ↔ s ∈ left ∨ s ∈ right
  apart : ∀ s ∈ left, s ∉ right

namespace Sides

variable {slots left right : List Slot}

theorem symm (h : Sides slots left right) : Sides slots right left where
  mem_iff s := (h.mem_iff s).trans or_comm
  apart s hs hs' := h.apart s hs' hs

/-- A slot more in front, on the left. -/
theorem cons_next (h : Sides slots left right) (time : Float) :
    Sides (⟨0, time⟩ :: slots.map Slot.next) (⟨0, time⟩ :: left.map Slot.next)
      (right.map Slot.next) where
  mem_iff s := by
    have hmap : s ∈ slots.map Slot.next ↔ s ∈ left.map Slot.next ∨ s ∈ right.map Slot.next := by
      simp only [List.mem_map, h.mem_iff, or_and_right, exists_or]
    rw [List.mem_cons, List.mem_cons, hmap, or_assoc]
  apart s hs hs' := by
    obtain ⟨r, hr, rfl⟩ := List.mem_map.mp hs'
    rcases List.mem_cons.mp hs with hzero | hleft
    · exact absurd (congrArg Slot.position hzero) (Nat.succ_ne_zero _)
    · obtain ⟨l, hl, heq⟩ := List.mem_map.mp hleft
      exact h.apart l hl (Slot.next_injective heq ▸ hr)

end Sides

/-- The slots of interleaved receive times are those of the two lists, which have been
renumbered. -/
theorem Slot.exists_sides {left right merged : List Event} (h : Interleaves left right merged) :
    ∃ f g : Slot → Slot, Renumbers f ∧ Renumbers g
      ∧ Sides (Slot.ofTimes (merged.map (·.timestamp)))
        ((Slot.ofTimes (left.map (·.timestamp))).map f)
        ((Slot.ofTimes (right.map (·.timestamp))).map g) := by
  induction h with
  | nil =>
    have hid : Renumbers id := ⟨fun _ => rfl, fun _ _ => Iff.rfl⟩
    exact ⟨id, id, hid, hid, ⟨fun s => by simp [Slot.ofTimes], fun s hs => by simp [Slot.ofTimes]⟩⟩
  | left _ ih =>
    obtain ⟨f, g, hf, hg, hsides⟩ := ih
    refine ⟨Slot.behindFirst f, Slot.next ∘ g, hf.behindFirst, hg.next, ?_⟩
    rw [List.map_cons, List.map_cons, Slot.map_behindFirst_ofTimes, Slot.ofTimes_cons,
      ← List.map_map]
    exact hsides.cons_next _
  | right _ ih =>
    obtain ⟨f, g, hf, hg, hsides⟩ := ih
    refine ⟨Slot.next ∘ f, Slot.behindFirst g, hf.next, hg.behindFirst, ?_⟩
    rw [List.map_cons, List.map_cons, Slot.map_behindFirst_ofTimes, Slot.ofTimes_cons,
      ← List.map_map]
    exact (hsides.symm.cons_next _).symm

/-! ## Verdicts of two bursts -/

/-- The verdict on a send when `n` other sends are in front of it. -/
def Verdict.behind (n : Nat) : Verdict → Verdict
  | .matched m => .matched { m with index := m.index + n }
  | .unmatched u => .unmatched { u with index := u.index + n }

theorem verdictsFrom_append (first : Nat) {ts us : List Float} {given given' : List (Option Float)}
    (hlen : given.length = ts.length) :
    verdictsFrom first (ts ++ us) (given ++ given')
      = verdictsFrom first ts given ++ verdictsFrom (first + ts.length) us given' := by
  unfold verdictsFrom
  rw [List.zip_append hlen.symm, List.zipIdx_append, List.map_append, List.length_zip, hlen,
    Nat.min_self]

theorem verdictsFrom_eq_map_behind (n : Nat) (ts : List Float) (given : List (Option Float)) :
    verdictsFrom n ts given = (verdictsFrom 0 ts given).map (Verdict.behind n) := by
  unfold verdictsFrom
  rw [List.zipIdx_eq_map_add, List.map_map, List.map_map]
  refine List.map_congr_left ?_
  rintro ⟨⟨t, r⟩, i⟩ -
  cases r <;> simp [Verdict.ofTime, Verdict.behind, Measurement.ofTimes, Nat.add_comm]

theorem ofVerdicts_append_behind (vs vs' : List Verdict) (n : Nat) :
    MatchOutcome.ofVerdicts (vs ++ vs'.map (Verdict.behind n))
      = ⟨(MatchOutcome.ofVerdicts vs).measurements ++ (MatchOutcome.ofVerdicts vs').measurements.map
            fun m => { m with index := m.index + n },
          (MatchOutcome.ofVerdicts vs).unmatched ++ (MatchOutcome.ofVerdicts vs').unmatched.map
            fun u => { u with index := u.index + n }⟩ := by
  simp only [MatchOutcome.ofVerdicts, List.filterMap_append, List.filterMap_map,
    List.map_filterMap]
  congr 2
  · refine List.filterMap_congr fun v _ => ?_
    cases v <;> rfl
  · refine List.filterMap_congr fun v _ => ?_
    cases v <;> rfl

/-! ## Runs over two bursts -/

section

variable {limit : LatencyLimit} {slots : List Slot} {f : Slot → Slot} {sends receives : List Event}

/-- A run whose sends are only in reach of certain receive events takes the slots of these. -/
theorem Serves.eq_map_taken {os : List (Option Slot)}
    (h : Serves limit slots (sends.map (·.timestamp)) os) (hf : Renumbers f)
    (hsends : ∀ e ∈ sends, e.timestamp.isFinite = true)
    (hreceives : ∀ e ∈ receives, e.timestamp.isFinite = true)
    (hsub : (Slot.ofTimes (receives.map (·.timestamp))).map f ⊆ slots)
    (hreach : ∀ t ∈ sends.map (·.timestamp), ∀ s ∈ slots, Fits limit t s.time →
      s ∈ (Slot.ofTimes (receives.map (·.timestamp))).map f) :
    os = (taken limit sends receives).map (Option.map f) :=
  (h.of_reach hsub hreach).unique ((arena_ofTimes hreceives).map hf)
    ((serves_taken limit hsends hreceives).map hf)

/-- Renumbered slots are at the same times. -/
theorem map_time_taken (hf : Renumbers f) :
    ((taken limit sends receives).map (Option.map f)).map (Option.map (·.time))
      = receiveTimesOf limit sends receives := by
  rw [receiveTimesOf, List.map_map]
  refine List.map_congr_left fun b _ => ?_
  simp only [Function.comp_apply, Option.map_map, Function.comp_def, hf.time]

/-- The receive events of a list fit no send. -/
def OutOfReach (limit : LatencyLimit) (sends receives : List Event) : Prop :=
  ∀ s ∈ sends, ∀ r ∈ receives, ¬ Fits limit s.timestamp r.timestamp

/-- Slots of receive events that fit no send do not fit either, by other numbers. -/
theorem OutOfReach.not_fits (h : OutOfReach limit sends receives) (hf : Renumbers f) {t : Float}
    (ht : t ∈ sends.map (·.timestamp)) {s : Slot}
    (hs : s ∈ (Slot.ofTimes (receives.map (·.timestamp))).map f) : ¬ Fits limit t s.time := by
  obtain ⟨e, he, rfl⟩ := List.mem_map.mp ht
  obtain ⟨u, hu, rfl⟩ := List.mem_map.mp hs
  obtain ⟨j, rfl⟩ := mem_ofTimes_iff.mp hu
  rw [hf.time]
  exact h e he receives[j] (List.getElem_mem j.isLt)

/-- A run over two bursts hands out the receive times that runs over each of them hand out. -/
theorem receiveTimesOf_interleaved (limit : LatencyLimit)
    {sends later left right merged : List Event} (hmerged : Interleaves left right merged)
    (hsends : ∀ e ∈ sends ++ later, e.timestamp.isFinite = true)
    (hreceives : ∀ e ∈ merged, e.timestamp.isFinite = true)
    (hright : OutOfReach limit sends right) (hleft : OutOfReach limit later left) :
    receiveTimesOf limit (sends ++ later) merged
      = receiveTimesOf limit sends left ++ receiveTimesOf limit later right := by
  have hsends' : ∀ e ∈ sends, e.timestamp.isFinite = true :=
    fun e he => hsends e (List.mem_append_left _ he)
  have hlater : ∀ e ∈ later, e.timestamp.isFinite = true :=
    fun e he => hsends e (List.mem_append_right _ he)
  have hlefts : ∀ e ∈ left, e.timestamp.isFinite = true :=
    fun e he => hreceives e (hmerged.mem_iff.mpr (Or.inl he))
  have hrights : ∀ e ∈ right, e.timestamp.isFinite = true :=
    fun e he => hreceives e (hmerged.mem_iff.mpr (Or.inr he))
  obtain ⟨f, g, hf, hg, hsides⟩ := Slot.exists_sides hmerged
  -- the first burst takes slots of the left side only
  have hfirst : taken limit sends merged = (taken limit sends left).map (Option.map f) := by
    refine (serves_taken limit hsends' hreceives).eq_map_taken hf hsends' hlefts ?_ ?_
    · exact fun s hs => (hsides.mem_iff s).mpr (Or.inl hs)
    · intro t ht s hs hfits
      exact ((hsides.mem_iff s).mp hs).resolve_right fun h => hright.not_fits hg ht h hfits
  -- so it leaves those of the right side open
  have hopen : (Slot.ofTimes (right.map (·.timestamp))).map g ⊆ leftOpen limit sends merged := by
    intro s hs
    rw [mem_leftOpen_iff hsends' hreceives, hfirst]
    refine ⟨(hsides.mem_iff s).mpr (Or.inr hs), fun htaken => ?_⟩
    exact hsides.apart s (((serves_taken limit hsends' hlefts).map hf).mem_of_some htaken) hs
  -- and the second burst takes only these
  have hsecond : (assign limit (leftOpen limit sends merged) (later.map (·.timestamp))).1
      = (taken limit later right).map (Option.map g) := by
    refine (assign_serves limit (by simpa using hlater) (arena_leftOpen hreceives)).eq_map_taken hg
      hlater hrights hopen ?_
    intro t ht s hs hfits
    have hmem := (hsides.mem_iff s).mp ((assign_sublist _).subset hs)
    exact hmem.resolve_left fun h => hleft.not_fits hf ht h hfits
  rw [receiveTimesOf, taken_append, List.map_append, hfirst, hsecond, map_time_taken hf,
    map_time_taken hg]

/-- Two bursts of events, the receive events of neither in reach of the sends of the other, are
matched as if each came alone. -/
theorem pair_interleaved {κ : Type} (limit : LatencyLimit)
    (sends later left right merged : List Event) (hmerged : Interleaves left right merged)
    (hsends : ∀ e ∈ sends ++ later, e.timestamp.isFinite = true)
    (hreceives : ∀ e ∈ merged, e.timestamp.isFinite = true)
    (hright : ∀ s ∈ sends, ∀ r ∈ right, ¬ Fits limit s.timestamp r.timestamp)
    (hleft : ∀ s ∈ later, ∀ r ∈ left, ¬ Fits limit s.timestamp r.timestamp) (o : Observer κ) :
    let w := (pair limit sends left o).value
    let w' := (pair limit later right o).value
    (pair limit (sends ++ later) merged o).value
      = ⟨w.measurements ++ w'.measurements.map fun m => { m with index := m.index + sends.length },
        w.unmatched ++ w'.unmatched.map fun u => { u with index := u.index + sends.length }⟩ := by
  have hlen : (receiveTimesOf limit sends left).length = (sends.map (·.timestamp)).length := by
    simp [receiveTimesOf]
  dsimp only
  rw [value_pair, value_pair, value_pair, List.map_append,
    receiveTimesOf_interleaved limit hmerged hsends hreceives hright hleft,
    verdictsFrom_append 0 hlen, verdictsFrom_eq_map_behind (0 + _), ofVerdicts_append_behind,
    Nat.zero_add, List.length_map]

end

/-- Two bursts of two receive events each, which were recorded alternately, those of the second
burst first. -/
theorem pair_interleaved_of_alternate :
    let limit : LatencyLimit := ⟨12, by decide +kernel, by decide +kernel⟩
    let sends := [Event.mk 0 .send, ⟨1, .send⟩]
    let later := [Event.mk 100 .send, ⟨103, .send⟩, ⟨101, .send⟩]
    let left := [Event.mk 2 .receive, ⟨2, .receive⟩]
    let right := [Event.mk 102 .receive, ⟨100.5, .receive⟩]
    let merged := [Event.mk 102 .receive, ⟨2, .receive⟩, ⟨100.5, .receive⟩, ⟨2, .receive⟩]
    Interleaves left right merged
    ∧ (∀ e ∈ sends ++ later, e.timestamp.isFinite = true)
    ∧ (∀ e ∈ merged, e.timestamp.isFinite = true)
    ∧ (∀ s ∈ sends, ∀ r ∈ right, ¬ Fits limit s.timestamp r.timestamp)
    ∧ (∀ s ∈ later, ∀ r ∈ left, ¬ Fits limit s.timestamp r.timestamp)
    ∧ (pair limit (sends ++ later) merged Observer.silent).value
      = ⟨[⟨0, 0, 2, 2⟩, ⟨1, 1, 2, 1⟩, ⟨2, 100, 100.5, 0.5⟩, ⟨4, 101, 102, 1⟩], [⟨3, 103⟩]⟩ := by
  intro limit sends later left right merged
  have hmerged : Interleaves left right merged := .right (.left (.right (.left .nil)))
  have hsends : ∀ e ∈ sends ++ later, e.timestamp.isFinite = true := by decide +kernel
  have hreceives : ∀ e ∈ merged, e.timestamp.isFinite = true := by decide +kernel
  have hright : ∀ s ∈ sends, ∀ r ∈ right, ¬ Fits limit s.timestamp r.timestamp := by
    decide +kernel
  have hleft : ∀ s ∈ later, ∀ r ∈ left, ¬ Fits limit s.timestamp r.timestamp := by
    decide +kernel
  have hboth := pair_interleaved limit sends later left right merged hmerged hsends hreceives
    hright hleft Observer.silent
  have hfirst : (pair limit sends left Observer.silent).value
      = ⟨[⟨0, 0, 2, 2⟩, ⟨1, 1, 2, 1⟩], []⟩ := by
    decide +kernel
  have hsecond : (pair limit later right Observer.silent).value
      = ⟨[⟨0, 100, 100.5, 0.5⟩, ⟨2, 101, 102, 1⟩], [⟨1, 103⟩]⟩ := by
    decide +kernel
  rw [hfirst, hsecond] at hboth
  exact ⟨hmerged, hsends, hreceives, hright, hleft, hboth⟩

end TriggerLatency
