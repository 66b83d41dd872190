import TriggerLatency.Proofs.Matching.Outcome

/-!
# One event more

An event more on one channel can displace a long chain of sends, each of which takes the slot
of the next; yet its effect is bounded. A receive event more costs no send its match and gives
one to at most one send (`pair_insert_receive`); a send event more leaves the sends before it
alone and gains nothing for those after it (`pair_insert_send`).

Both compare a run with a run that has one more open slot. Which slot that is changes along
the chain, but it stays one slot or none (`OneMore`), so that latencies only get better and at
most one send gains a match (`Serves.improves`).
-/

namespace TriggerLatency

variable {limit : LatencyLimit}

/-! ## Latencies that get better -/

/-- The latencies of the same sends in two runs: whoever is matched in the first is matched in the
second, with no more latency, and `n` others are. -/
inductive Improves : List (Option Float) → List (Option Float) → Nat → Prop
  | done : Improves [] [] 0
  | matched {l l' : Float} {ls ls' : List (Option Float)} {n : Nat} :
      l' ≤ l → Improves ls ls' n → Improves (some l :: ls) (some l' :: ls') n
  | unmatched {ls ls' : List (Option Float)} {n : Nat} :
      Improves ls ls' n → Improves (none :: ls) (none :: ls') n
  | gained {l' : Float} {ls ls' : List (Option Float)} {n : Nat} :
      Improves ls ls' n → Improves (none :: ls) (some l' :: ls') (n + 1)

namespace Improves

variable {ls ls' : List (Option Float)} {n : Nat}

theorem countP_eq (h : Improves ls ls' n) :
    ls'.countP Option.isSome = ls.countP Option.isSome + n := by
  induction h with
  | done => rfl
  | matched _ _ ih =>
    rw [List.countP_cons_of_pos rfl, List.countP_cons_of_pos rfl, ih]
    omega
  | unmatched _ ih =>
    rw [List.countP_cons_of_neg (by simp), List.countP_cons_of_neg (by simp), ih]
  | gained _ ih =>
    rw [List.countP_cons_of_pos rfl, List.countP_cons_of_neg (by simp), ih]
    omega

/-- Whoever is matched stays matched, with no more latency. -/
theorem exists_le (h : Improves ls ls' n) {i : Nat} {l : Float} (hi : ls[i]? = some (some l)) :
    ∃ l', ls'[i]? = some (some l') ∧ l' ≤ l := by
  induction h generalizing i with
  | done => exact nomatch hi
  | @matched k k' _ _ _ hle _ ih =>
    cases i with
    | zero =>
      obtain rfl : k = l := by simpa using hi
      exact ⟨k', rfl, hle⟩
    | succ i => exact ih hi
  | unmatched _ ih =>
    cases i with
    | zero => simp at hi
    | succ i => exact ih hi
  | gained _ ih =>
    cases i with
    | zero => simp at hi
    | succ i => exact ih hi

/-- Nobody gains a match if no others are matched. -/
theorem eq_none (h : Improves ls ls' 0) {i : Nat} (hi : ls[i]? = some none) :
    ls'[i]? = some none := by
  generalize hn : 0 = n at h
  induction h generalizing i with
  | done => exact nomatch hi
  | matched _ _ ih =>
    cases i with
    | zero => simp at hi
    | succ i => exact ih hi hn
  | unmatched _ ih =>
    cases i with
    | zero => rfl
    | succ i => exact ih hi hn
  | gained => exact nomatch hn

/-- At most one send gains a match if at most one other is matched. -/
theorem gained_unique (h : Improves ls ls' n) (hn : n ≤ 1) {i j : Nat} {l l' : Float}
    (hi : ls[i]? = some none) (hi' : ls'[i]? = some (some l)) (hj : ls[j]? = some none)
    (hj' : ls'[j]? = some (some l')) : i = j := by
  induction h generalizing i j with
  | done => exact nomatch hi
  | matched _ _ ih =>
    cases i with
    | zero => simp at hi
    | succ i =>
      cases j with
      | zero => simp at hj
      | succ j => exact congrArg (· + 1) (ih hn hi hi' hj hj')
  | unmatched _ ih =>
    cases i with
    | zero => simp at hi'
    | succ i =>
      cases j with
      | zero => simp at hj'
      | succ j => exact congrArg (· + 1) (ih hn hi hi' hj hj')
  | @gained _ _ _ n hrest _ =>
    -- the one gain is here, so there is none further on
    obtain rfl : n = 0 := by omega
    cases i with
    | succ i => exact nomatch (hrest.eq_none hi).symm.trans hi'
    | zero =>
      cases j with
      | succ j => exact nomatch (hrest.eq_none hj).symm.trans hj'
      | zero => rfl

end Improves

/-! ## One open slot more -/

/-- A pool of slots has the slots of another, and `d` besides. -/
structure OneMore (d : Slot) (slots slots' : List Slot) : Prop where
  notMem : d ∉ slots
  mem_iff : ∀ s, s ∈ slots' ↔ s ∈ slots ∨ s = d

namespace OneMore

variable {slots slots' : List Slot} {d b : Slot}

theorem subset (h : OneMore d slots slots') : slots ⊆ slots' := fun s hs =>
  (h.mem_iff s).mpr (Or.inl hs)

/-- A slot is missing where it was closed. -/
theorem of_close (ha : Arena slots) (hb : b ∈ slots) : OneMore b (close b slots) slots where
  notMem hmem := ((ha.mem_close_iff hb).mp hmem).2 rfl
  mem_iff s := by
    rw [ha.mem_close_iff hb]
    refine ⟨fun hs => ?_, ?_⟩
    · by_cases heq : s = b
      · exact Or.inr heq
      · exact Or.inl ⟨hs, heq⟩
    · rintro (hs | rfl)
      · exact hs.1
      · exact hb

/-- Without the additional slot the pools are the same. -/
theorem mem_close_iff (h : OneMore d slots slots') (ha' : Arena slots') (s : Slot) :
    s ∈ close d slots' ↔ s ∈ slots := by
  rw [ha'.mem_close_iff ((h.mem_iff d).mpr (Or.inr rfl)), h.mem_iff]
  constructor
  · rintro ⟨hs | hs, hne⟩
    · exact hs
    · exact absurd hs hne
  · intro hs
    exact ⟨Or.inl hs, fun heq => h.notMem (heq ▸ hs)⟩

/-- Both runs take the same slot: the additional one stays. -/
theorem close_same (h : OneMore d slots slots') (ha : Arena slots) (ha' : Arena slots')
    (hb : b ∈ slots) : OneMore d (close b slots) (close b slots') where
  notMem hmem := h.notMem (List.mem_of_mem_filter hmem)
  mem_iff s := by
    have hne : d ≠ b := fun heq => h.notMem (heq ▸ hb)
    rw [ha.mem_close_iff hb, ha'.mem_close_iff (h.subset hb), h.mem_iff]
    constructor
    · rintro ⟨hs | rfl, hsb⟩
      · exact Or.inl ⟨hs, hsb⟩
      · exact Or.inr rfl
    · rintro (⟨hs, hsb⟩ | rfl)
      · exact ⟨Or.inl hs, hsb⟩
      · exact ⟨Or.inr rfl, hne⟩

/-- The second run takes the additional slot and the first another, which is then the additional
one. -/
theorem close_apart (h : OneMore d slots slots') (ha : Arena slots) (ha' : Arena slots')
    (hb : b ∈ slots) : OneMore b (close b slots) (close d slots') where
  notMem := (of_close ha hb).notMem
  mem_iff s := by rw [h.mem_close_iff ha', (of_close ha hb).mem_iff]

end OneMore

namespace Serves

variable {slots slots' : List Slot} {ts : List Float} {os os' : List (Option Slot)}

/-- Runs from the same open slots have the same latencies. -/
theorem improves_same (h : Serves limit slots ts os) (ha : Arena slots)
    (hsame : ∀ s, s ∈ slots' ↔ s ∈ slots) (h' : Serves limit slots' ts os') :
    Improves (latencies ts os) (latencies ts os') 0 := by
  induction h generalizing slots' os' with
  | done =>
    cases h'
    exact Improves.done
  | @take slots t b ts os hnear _ ih =>
    cases h' with
    | take hnear' hrest' =>
      obtain rfl := hnear.unique ha (hnear'.congr hsame)
      refine Improves.matched (hnear.least b hnear.mem hnear.fits) (ih (ha.close b) ?_ hrest')
      intro s
      simp only [close, List.mem_filter, hsame]
    | pass hall' _ => exact absurd hnear.fits (hall' b ((hsame b).mpr hnear.mem))
  | pass hall _ ih =>
    cases h' with
    | take hnear' _ => exact absurd hnear'.fits (hall _ ((hsame _).mp hnear'.mem))
    | pass _ hrest' => exact Improves.unmatched (ih ha hsame hrest')

/-- A run that has one more open slot has better latencies, and at most one more. -/
theorem improves (h : Serves limit slots ts os) (ha : Arena slots) (ha' : Arena slots') {d : Slot}
    (hmore : OneMore d slots slots') (h' : Serves limit slots' ts os') :
    ∃ n ≤ 1, Improves (latencies ts os) (latencies ts os') n := by
  induction h generalizing slots' os' d with
  | done =>
    cases h'
    exact ⟨0, Nat.zero_le _, Improves.done⟩
  | @take slots t b ts os hnear hrest ih =>
    cases h' with
    | @take _ _ b' _ os' hnear' hrest' =>
      have hle : b'.time - t ≤ b.time - t := hnear'.least b (hmore.subset hnear.mem) hnear.fits
      rcases (hmore.mem_iff b').mp hnear'.mem with hb' | rfl
      · -- the slot that is nearest of all is so of those in the smaller pool
        obtain rfl := hnear.unique ha (hnear'.of_subset hmore.subset hb')
        obtain ⟨n, hn, himproves⟩ := ih (ha.close b) (ha'.close b)
          (hmore.close_same ha ha' hnear.mem) hrest'
        exact ⟨n, hn, Improves.matched hle himproves⟩
      · -- the additional slot is taken, and that of the first run is left in its place
        obtain ⟨n, hn, himproves⟩ := ih (ha.close b) (ha'.close b')
          (hmore.close_apart ha ha' hnear.mem) hrest'
        exact ⟨n, hn, Improves.matched hle himproves⟩
    | pass hall' _ => exact absurd hnear.fits (hall' b (hmore.subset hnear.mem))
  | @pass slots t ts os hall hrest ih =>
    cases h' with
    | @take _ _ b' _ os' hnear' hrest' =>
      -- only the additional slot fits, and after that the pools are the same
      obtain rfl : b' = d := ((hmore.mem_iff b').mp hnear'.mem).resolve_left fun hb' =>
        hall b' hb' hnear'.fits
      exact ⟨1, Nat.le_refl 1,
        Improves.gained (hrest.improves_same ha (hmore.mem_close_iff ha') hrest')⟩
    | pass _ hrest' =>
      obtain ⟨n, hn, himproves⟩ := ih ha ha' hmore hrest'
      exact ⟨n, hn, Improves.unmatched himproves⟩

end Serves

/-! ## A receive event more -/

/-- The slot as it is numbered when there is one more at position `k`. -/
def Slot.makeRoom (k : Nat) (s : Slot) : Slot :=
  ⟨if s.position < k then s.position else s.position + 1, s.time⟩

theorem latencies_map {f : Slot → Slot} (hf : Renumbers f) (ts : List Float)
    (os : List (Option Slot)) : latencies ts (os.map (Option.map f)) = latencies ts os := by
  unfold latencies
  rw [List.zip_map_right, List.map_map]
  congr 1
  funext ⟨t, b⟩
  simp [Option.map_map, Function.comp_def, hf.time]

theorem renumbers_makeRoom (k : Nat) : Renumbers (Slot.makeRoom k) where
  time _ := rfl
  position a b := by
    simp only [Slot.makeRoom]
    split_ifs <;> omega

/-- The slots of times among which there is one more: its slot stands among the others, which have
been renumbered. -/
theorem Slot.exists_ofTimes_insert (before after : List Float) (t : Float) : ∃ front back,
    Slot.ofTimes (before ++ t :: after) = front ++ ⟨before.length, t⟩ :: back
    ∧ (Slot.ofTimes (before ++ after)).map (Slot.makeRoom before.length) = front ++ back := by
  refine ⟨before.zipIdx.map fun p => ⟨p.2, p.1⟩,
    (after.zipIdx (before.length + 1)).map fun p => ⟨p.2, p.1⟩, ?_, ?_⟩
  · simp only [Slot.ofTimes, List.zipIdx_append, List.zipIdx_cons, List.map_append, List.map_cons,
      Nat.zero_add]
  · rw [Slot.ofTimes, List.zipIdx_append, List.map_append, List.map_append, Nat.zero_add,
      List.zipIdx_succ, List.map_map, List.map_map, List.map_map]
    congr 1
    · -- a slot before the new one keeps its number
      refine List.map_congr_left fun p hp => ?_
      have hlt : p.2 < before.length := List.snd_lt_of_mem_zipIdx hp
      simp [Slot.makeRoom, hlt]
    · -- a slot behind it has the next number
      refine List.map_congr_left fun p hp => ?_
      have hle : before.length ≤ p.2 := List.le_snd_of_mem_zipIdx hp
      simp [Slot.makeRoom, Nat.not_lt.mpr hle]

theorem oneMore_insert (before after : List Float) (t : Float) :
    OneMore ⟨before.length, t⟩ ((Slot.ofTimes (before ++ after)).map (Slot.makeRoom before.length))
      (Slot.ofTimes (before ++ t :: after)) where
  notMem hmem := by
    obtain ⟨s, -, hs⟩ := List.mem_map.mp hmem
    have hposition := congrArg Slot.position hs
    simp only [Slot.makeRoom] at hposition
    split_ifs at hposition <;> omega
  mem_iff s := by
    obtain ⟨front, back, hmore, hfewer⟩ := Slot.exists_ofTimes_insert before after t
    rw [hmore, hfewer, List.mem_append, List.mem_append, List.mem_cons]
    tauto

/-- Latencies with a receive event more. -/
theorem improves_insert_receive (limit : LatencyLimit) {sends before after : List Event} {e : Event}
    (hsends : ∀ s ∈ sends, s.timestamp.isFinite = true)
    (hreceives : ∀ r ∈ before ++ e :: after, r.timestamp.isFinite = true) :
    ∃ n ≤ 1, Improves (latenciesOf limit sends (before ++ after))
      (latenciesOf limit sends (before ++ e :: after)) n := by
  have hfewer : ∀ r ∈ before ++ after, r.timestamp.isFinite = true := fun r hr =>
    hreceives r (((List.sublist_cons_self e after).append_left before).subset hr)
  have hmore : OneMore ⟨before.length, e.timestamp⟩
      ((Slot.ofTimes ((before ++ after).map (·.timestamp))).map (Slot.makeRoom before.length))
      (Slot.ofTimes ((before ++ e :: after).map (·.timestamp))) := by
    have hmore := oneMore_insert (before.map (·.timestamp)) (after.map (·.timestamp)) e.timestamp
    rwa [List.length_map, ← List.map_append, ← List.map_cons, ← List.map_append] at hmore
  have hf := renumbers_makeRoom before.length
  have himproves := ((serves_taken limit hsends hfewer).map hf).improves
    ((arena_ofTimes hfewer).map hf) (arena_ofTimes hreceives) hmore
    (serves_taken limit hsends hreceives)
  rwa [latencies_map hf] at himproves

/-- A spurious receive event, wherever it is put: whoever was matched still is, with no more
latency, at most one other send is matched, and there is at most one measurement more. -/
theorem pair_insert_receive {κ : Type} (limit : LatencyLimit) (sends before after : List Event)
    (e : Event) (hsends : ∀ s ∈ sends, s.timestamp.isFinite = true)
    (hreceives : ∀ r ∈ before ++ e :: after, r.timestamp.isFinite = true) (o : Observer κ) :
    let w := (pair limit sends (before ++ after) o).value
    let w' := (pair limit sends (before ++ e :: after) o).value
    (∀ i l, w.Matched i l → ∃ l', w'.Matched i l' ∧ l' ≤ l)
    ∧ {i | w.Unmatched i ∧ ∃ l, w'.Matched i l}.Subsingleton
    ∧ (w'.measurements.length = w.measurements.length
      ∨ w'.measurements.length = w.measurements.length + 1) := by
  obtain ⟨n, hn, himproves⟩ := improves_insert_receive limit hsends hreceives
  simp only [matched_pair_iff, unmatched_pair_iff, length_measurements_eq_countP]
  refine ⟨fun i l hi => himproves.exists_le hi, ?_, ?_⟩
  · rintro i ⟨hi, l, hi'⟩ j ⟨hj, l', hj'⟩
    exact himproves.gained_unique hn hi hi' hj hj'
  · have hcount := himproves.countP_eq
    omega

/-- Four sends and three receive slots, and a receive event before them all: each send gives its
slot up to the next, and the last one is matched. -/
theorem pair_insert_receive_of_chain :
    (∀ s ∈ [Event.mk 0 .send, ⟨1, .send⟩, ⟨2, .send⟩, ⟨3, .send⟩], s.timestamp.isFinite = true)
    ∧ (∀ r ∈ [Event.mk 2 .receive] ++ ⟨1.5, .receive⟩ :: [⟨3, .receive⟩, ⟨4, .receive⟩],
      r.timestamp.isFinite = true)
    ∧ let w : MatchOutcome := ⟨[⟨0, 0, 2, 2⟩, ⟨1, 1, 3, 2⟩, ⟨2, 2, 4, 2⟩], [⟨3, 3⟩]⟩
      let w' : MatchOutcome :=
        ⟨[⟨0, 0, 1.5, 1.5⟩, ⟨1, 1, 2, 1⟩, ⟨2, 2, 3, 1⟩, ⟨3, 3, 4, 1⟩], []⟩
      (∀ i l, w.Matched i l → ∃ l', w'.Matched i l' ∧ l' ≤ l)
      ∧ {i | w.Unmatched i ∧ ∃ l, w'.Matched i l}.Subsingleton
      ∧ (w'.measurements.length = w.measurements.length
        ∨ w'.measurements.length = w.measurements.length + 1) := by
  have hsends : ∀ s ∈ [Event.mk 0 .send, ⟨1, .send⟩, ⟨2, .send⟩, ⟨3, .send⟩],
      s.timestamp.isFinite = true := by
    decide +kernel
  have hreceives : ∀ r ∈ [Event.mk 2 .receive] ++ ⟨1.5, .receive⟩ ::
      [⟨3, .receive⟩, ⟨4, .receive⟩], r.timestamp.isFinite = true := by
    decide +kernel
  have hgains := pair_insert_receive ⟨10, by decide +kernel, by decide +kernel⟩ _ _ _ _ hsends
    hreceives Observer.silent
  have hrun : (pair ⟨10, by decide +kernel, by decide +kernel⟩
      [⟨0, .send⟩, ⟨1, .send⟩, ⟨2, .send⟩, ⟨3, .send⟩]
      ([⟨2, .receive⟩] ++ [⟨3, .receive⟩, ⟨4, .receive⟩]) Observer.silent).value
        = ⟨[⟨0, 0, 2, 2⟩, ⟨1, 1, 3, 2⟩, ⟨2, 2, 4, 2⟩], [⟨3, 3⟩]⟩ := by
    decide +kernel
  have hrun' : (pair ⟨10, by decide +kernel, by decide +kernel⟩
      [⟨0, .send⟩, ⟨1, .send⟩, ⟨2, .send⟩, ⟨3, .send⟩]
      ([⟨2, .receive⟩] ++ ⟨1.5, .receive⟩ :: [⟨3, .receive⟩, ⟨4, .receive⟩])
      Observer.silent).value
        = ⟨[⟨0, 0, 1.5, 1.5⟩, ⟨1, 1, 2, 1⟩, ⟨2, 2, 3, 1⟩, ⟨3, 3, 4, 1⟩], []⟩ := by
    decide +kernel
  rw [hrun, hrun'] at hgains
  exact ⟨hsends, hreceives, hgains⟩

/-! ## A send event more -/

/-- The latencies of sends behind one more send, which takes a slot or none: without it they
improve by no more than that. -/
theorem improves_serve (limit : LatencyLimit) {slots : List Slot} {t : Float} {ts : List Float}
    (ha : Arena slots) (ht : t.isFinite = true) (hts : ∀ u ∈ ts, u.isFinite = true) :
    ∃ n ≤ [(serve limit slots t).1].countP Option.isSome,
      Improves (latencies ts (assign limit (serve limit slots t).2 ts).1)
        (latencies ts (assign limit slots ts).1) n := by
  have hserves := assign_serves limit hts ha
  unfold serve
  rcases nearest_spec limit ht ha with ⟨b, hb, hnear⟩ | ⟨hnone, -⟩
  · rw [hb]
    exact (assign_serves limit hts (ha.close b)).improves (ha.close b) ha
      (OneMore.of_close ha hnear.mem) hserves
  · rw [hnone]
    exact ⟨0, Nat.zero_le _, hserves.improves_same ha (fun _ => Iff.rfl) hserves⟩

/-- Latencies with a send event more: that of the event stands between those of the sends before
it and those of the sends behind it, which improve without it. -/
theorem improves_insert_send (limit : LatencyLimit) {before after receives : List Event} {e : Event}
    (hsends : ∀ s ∈ before ++ e :: after, s.timestamp.isFinite = true)
    (hreceives : ∀ r ∈ receives, r.timestamp.isFinite = true) :
    ∃ l ls ls' n, latenciesOf limit (before ++ e :: after) receives
        = latenciesOf limit before receives ++ l :: ls
      ∧ latenciesOf limit (before ++ after) receives = latenciesOf limit before receives ++ ls'
      ∧ n ≤ [l].countP Option.isSome ∧ Improves ls ls' n := by
  have he : e.timestamp.isFinite = true := hsends e (by simp)
  have hafter : ∀ u ∈ after.map (·.timestamp), u.isFinite = true := by
    intro u hu
    obtain ⟨s, hs, rfl⟩ := List.mem_map.mp hu
    exact hsends s (List.mem_append_right _ (List.mem_cons_of_mem e hs))
  have ha : Arena (leftOpen limit before receives) := arena_leftOpen hreceives
  obtain ⟨n, hn, himproves⟩ := improves_serve limit ha he hafter
  refine ⟨(serve limit (leftOpen limit before receives) e.timestamp).1.map fun b =>
    b.time - e.timestamp, _, _, n, ?_, latenciesOf_append after, ?_, himproves⟩
  · rw [latenciesOf_append, List.map_cons, assign_cons]
    rfl
  · simpa using hn

/-- A spurious send event, wherever it is put: the sends before it are as they were, those behind
it are matched only if they were, with no less latency, and there is at most one measurement
more. -/
theorem pair_insert_send {κ : Type} (limit : LatencyLimit) (before after receives : List Event)
    (e : Event) (hsends : ∀ s ∈ before ++ e :: after, s.timestamp.isFinite = true)
    (hreceives : ∀ r ∈ receives, r.timestamp.isFinite = true) (o : Observer κ) :
    let w := (pair limit (before ++ after) receives o).value
    let w' := (pair limit (before ++ e :: after) receives o).value
    (∀ m : Measurement, m.index < before.length → (m ∈ w'.measurements ↔ m ∈ w.measurements))
    ∧ (∀ u : UnmatchedSend, u.index < before.length → (u ∈ w'.unmatched ↔ u ∈ w.unmatched))
    ∧ (∀ i l, before.length ≤ i → w'.Matched (i + 1) l → ∃ l', w.Matched i l' ∧ l' ≤ l)
    ∧ (w'.measurements.length = w.measurements.length
      ∨ w'.measurements.length = w.measurements.length + 1) := by
  obtain ⟨l, ls, ls', n, hmore, hless, hn, himproves⟩ :=
    improves_insert_send limit hsends hreceives
  have hlen : (latenciesOf limit before receives).length = before.length := length_latenciesOf
  refine ⟨?_, ?_, ?_, ?_⟩
  · intro m hm
    exact (mem_measurements_append_iff hm).trans (mem_measurements_append_iff hm).symm
  · intro u hu
    exact (mem_unmatched_append_iff hu).trans (mem_unmatched_append_iff hu).symm
  · intro i k hi hk
    rw [matched_pair_iff, hmore, List.getElem?_append_right (by omega), hlen,
      Nat.sub_add_comm hi, List.getElem?_cons_succ] at hk
    obtain ⟨k', hk', hle⟩ := himproves.exists_le hk
    refine ⟨k', ?_, hle⟩
    rw [matched_pair_iff, hless, List.getElem?_append_right (by omega), hlen, hk']
  · -- what the event takes makes up for what the sends behind it lose
    have hcount := himproves.countP_eq
    have hone : [l].countP Option.isSome ≤ 1 := List.countP_le_length
    rw [length_measurements_eq_countP, length_measurements_eq_countP, hmore, hless,
      List.countP_append, List.countP_append, ← List.singleton_append, List.countP_append]
    omega

/-- Four sends that are matched, and a send event behind the first: it takes the slot of the second,
which takes that of the third, and so on until the last is left without. -/
theorem pair_insert_send_of_chain :
    (∀ s ∈ [Event.mk 9 .send] ++ ⟨0, .send⟩ :: [⟨1, .send⟩, ⟨2, .send⟩, ⟨3, .send⟩],
      s.timestamp.isFinite = true)
    ∧ (∀ r ∈ [Event.mk 2 .receive, ⟨3, .receive⟩, ⟨4, .receive⟩, ⟨9.5, .receive⟩],
      r.timestamp.isFinite = true)
    ∧ let w : MatchOutcome :=
        ⟨[⟨0, 9, 9.5, 0.5⟩, ⟨1, 1, 2, 1⟩, ⟨2, 2, 3, 1⟩, ⟨3, 3, 4, 1⟩], []⟩
      let w' : MatchOutcome :=
        ⟨[⟨0, 9, 9.5, 0.5⟩, ⟨1, 0, 2, 2⟩, ⟨2, 1, 3, 2⟩, ⟨3, 2, 4, 2⟩], [⟨4, 3⟩]⟩
      (∀ m : Measurement, m.index < 1 → (m ∈ w'.measurements ↔ m ∈ w.measurements))
      ∧ (∀ u : UnmatchedSend, u.index < 1 → (u ∈ w'.unmatched ↔ u ∈ w.unmatched))
      ∧ (∀ i l, 1 ≤ i → w'.Matched (i + 1) l → ∃ l', w.Matched i l' ∧ l' ≤ l)
      ∧ (w'.measurements.length = w.measurements.length
        ∨ w'.measurements.length = w.measurements.length + 1) := by
  have hsends : ∀ s ∈ [Event.mk 9 .send] ++ ⟨0, .send⟩ :: [⟨1, .send⟩, ⟨2, .send⟩, ⟨3, .send⟩],
      s.timestamp.isFinite = true := by
    decide +kernel
  have hreceives : ∀ r ∈ [Event.mk 2 .receive, ⟨3, .receive⟩, ⟨4, .receive⟩, ⟨9.5, .receive⟩],
      r.timestamp.isFinite = true := by
    decide +kernel
  have hbounded := pair_insert_send ⟨5, by decide +kernel, by decide +kernel⟩ _ _ _ _ hsends
    hreceives Observer.silent
  have hrun : (pair ⟨5, by decide +kernel, by decide +kernel⟩
      ([⟨9, .send⟩] ++ [⟨1, .send⟩, ⟨2, .send⟩, ⟨3, .send⟩])
      [⟨2, .receive⟩, ⟨3, .receive⟩, ⟨4, .receive⟩, ⟨9.5, .receive⟩] Observer.silent).value
        = ⟨[⟨0, 9, 9.5, 0.5⟩, ⟨1, 1, 2, 1⟩, ⟨2, 2, 3, 1⟩, ⟨3, 3, 4, 1⟩], []⟩ := by
    decide +kernel
  have hrun' : (pair ⟨5, by decide +kernel, by decide +kernel⟩
      ([⟨9, .send⟩] ++ ⟨0, .send⟩ :: [⟨1, .send⟩, ⟨2, .send⟩, ⟨3, .send⟩])
      [⟨2, .receive⟩, ⟨3, .receive⟩, ⟨4, .receive⟩, ⟨9.5, .receive⟩] Observer.silent).value
        = ⟨[⟨0, 9, 9.5, 0.5⟩, ⟨1, 0, 2, 2⟩, ⟨2, 1, 3, 2⟩, ⟨3, 2, 4, 2⟩], [⟨4, 3⟩]⟩ := by
    decide +kernel
  rw [hrun, hrun'] at hbounded
  exact ⟨hsends, hreceives, hbounded⟩

end TriggerLatency
