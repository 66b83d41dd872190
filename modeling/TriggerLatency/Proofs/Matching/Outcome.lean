import TriggerLatency.Proofs.Matching.Greedy

/-!
# An outcome, send by send

An outcome lists matched and unmatched sends apart. Here the two lists are read position by
position: the send at a position is matched, with a latency, or it is unmatched
(`MatchOutcome.Matched`, `MatchOutcome.Unmatched`), and `latenciesOf` says which for all sends
in order. Two runs are compared over these lists.

The outcome of any run, whatever its times, is read off the slots that its sends took
(`mem_measurements_pair_iff`, `mem_unmatched_pair_iff`); among finite times these are what
`Serves` says, so that a run measures nothing exactly if nothing fits
(`measurements_pair_eq_nil_iff`).
-/

namespace TriggerLatency

namespace MatchOutcome

/-- The send at a position was matched, with a latency. -/
def Matched (w : MatchOutcome) (i : Nat) (l : Float) : Prop :=
  ∃ m ∈ w.measurements, m.index = i ∧ m.latency = l

/-- The send at a position was not matched. -/
def Unmatched (w : MatchOutcome) (i : Nat) : Prop :=
  ∃ u ∈ w.unmatched, u.index = i

end MatchOutcome

/-- The latencies of sends that took some slots, with nothing for a send that took none. -/
def latencies (sendTimes : List Float) (os : List (Option Slot)) : List (Option Float) :=
  (sendTimes.zip os).map fun p => p.2.map fun b => b.time - p.1

/-- The slot that each send of a matching run takes. -/
def taken (limit : LatencyLimit) (sends receives : List Event) : List (Option Slot) :=
  (assign limit (Slot.ofTimes (receives.map (·.timestamp))) (sends.map (·.timestamp))).1

/-- The receive time that each send of a matching run gets. -/
def receiveTimesOf (limit : LatencyLimit) (sends receives : List Event) : List (Option Float) :=
  (taken limit sends receives).map (Option.map (·.time))

/-- The verdict on a send that gets a receive time, or none. -/
def Verdict.ofTime (index : Nat) (sendTime : Float) : Option Float → Verdict
  | some receiveTime => .matched (Measurement.ofTimes index sendTime receiveTime)
  | none => .unmatched ⟨index, sendTime⟩

/-- The verdicts on sends, the first of which stands at position `first`, that get some receive
times. -/
def verdictsFrom (first : Nat) (sendTimes : List Float) (given : List (Option Float)) :
    List Verdict :=
  ((sendTimes.zip given).zipIdx first).map fun v => Verdict.ofTime v.2 v.1.1 v.1.2

/-- The receive slots that a matching run leaves open. -/
def leftOpen (limit : LatencyLimit) (sends receives : List Event) : List Slot :=
  (assign limit (Slot.ofTimes (receives.map (·.timestamp))) (sends.map (·.timestamp))).2

/-- A receive event is consumed by a matching run: its slot is taken by a send. -/
def Consumed (limit : LatencyLimit) (sends receives : List Event) (j : Fin receives.length) :
    Prop :=
  some (slotAt receives j) ∈ taken limit sends receives

/-- The latency of each send of a matching run. -/
def latenciesOf (limit : LatencyLimit) (sends receives : List Event) : List (Option Float) :=
  latencies (sends.map (·.timestamp)) (taken limit sends receives)

/-- There are as many latencies as slots that were taken. -/
theorem countP_latencies {ts : List Float} {os : List (Option Slot)}
    (hlen : os.length = ts.length) :
    (latencies ts os).countP Option.isSome = os.countP Option.isSome := by
  have hslots : os.countP Option.isSome = (ts.zip os).countP (Option.isSome ∘ Prod.snd) := by
    rw [← List.countP_map, List.map_snd_zip hlen.le]
  rw [hslots, latencies, List.countP_map]
  refine List.countP_congr ?_
  rintro ⟨t, b⟩ -
  cases b <;> exact Iff.rfl

theorem latencies_append {ts us : List Float} {os ps : List (Option Slot)}
    (hlen : os.length = ts.length) :
    latencies (ts ++ us) (os ++ ps) = latencies ts os ++ latencies us ps := by
  unfold latencies
  rw [List.zip_append hlen.symm, List.map_append]

section

variable {limit : LatencyLimit} {slots : List Slot}

/-- Serving a send closes at most one slot. -/
theorem serve_sublist (t : Float) : (serve limit slots t).2.Sublist slots := by
  unfold serve
  split
  · exact List.filter_sublist
  · exact List.Sublist.refl _

theorem serve_fst (t : Float) : (serve limit slots t).1 = nearest limit t slots := by
  unfold serve
  cases nearest limit t slots <;> rfl

/-- Of the open slots, the nearest is taken and the others stay open. -/
theorem mem_serve_iff {t : Float} {s : Slot} (ht : t.isFinite = true) (ha : Arena slots) :
    s ∈ (serve limit slots t).2 ↔ s ∈ slots ∧ ¬ IsNearest limit t slots s := by
  unfold serve
  rcases nearest_spec limit ht ha with ⟨b, hb, hnear⟩ | ⟨hnone, hall⟩
  · rw [hb]
    refine (ha.mem_close_iff hnear.mem).trans (and_congr_right fun _ => not_congr ?_)
    exact ⟨fun h => h ▸ hnear, fun h => h.unique ha hnear⟩
  · rw [hnone]
    exact ⟨fun h => ⟨h, fun hnear => hall s h hnear.fits⟩, And.left⟩

theorem assign_cons (t : Float) (ts : List Float) :
    assign limit slots (t :: ts)
      = ((serve limit slots t).1 :: (assign limit (serve limit slots t).2 ts).1,
        (assign limit (serve limit slots t).2 ts).2) :=
  Transducer.run_cons ..

theorem assign_sublist (ts : List Float) : (assign limit slots ts).2.Sublist slots := by
  induction ts generalizing slots with
  | nil => exact List.Sublist.refl _
  | cons t ts ih =>
    rw [assign_cons]
    exact ih.trans (serve_sublist t)

/-- The slots that stay open are those that no send takes. -/
theorem mem_assign_iff {ts : List Float} {s : Slot} (hts : ∀ t ∈ ts, t.isFinite = true)
    (ha : Arena slots) :
    s ∈ (assign limit slots ts).2 ↔ s ∈ slots ∧ some s ∉ (assign limit slots ts).1 := by
  induction ts generalizing slots with
  | nil => exact ⟨fun h => ⟨h, List.not_mem_nil⟩, And.left⟩
  | cons t ts ih =>
    have ht := hts t (List.mem_cons_self ..)
    have hts' := fun u hu => hts u (List.mem_cons_of_mem t hu)
    rw [assign_cons, ih hts' (ha.sublist (serve_sublist t)), mem_serve_iff ht ha, List.mem_cons,
      serve_fst, eq_comm, nearest_eq_some_iff ht ha, not_or, and_assoc]

/-- A run takes nothing exactly if no slot fits any send. -/
theorem Serves.countP_eq_zero_iff {ts : List Float} {os : List (Option Slot)}
    (h : Serves limit slots ts os) :
    os.countP Option.isSome = 0 ↔ ∀ t ∈ ts, ∀ s ∈ slots, ¬ Fits limit t s.time := by
  induction h with
  | done => simp
  | @take slots t b ts os hnear _ _ =>
    rw [List.countP_cons_of_pos rfl]
    exact ⟨nofun, fun h => absurd hnear.fits (h t (List.mem_cons_self ..) b hnear.mem)⟩
  | pass hno _ ih =>
    rw [List.countP_cons_of_neg (by simp), ih, List.forall_mem_cons, and_iff_right hno]

private theorem of_foldl_better {t : Float} {best : Option Slot} {b : Slot}
    (h : slots.foldl (better limit t) best = some b) :
    best = some b ∨ b ∈ slots ∧ Eligible limit t b.time := by
  induction slots generalizing best with
  | nil => exact Or.inl h
  | cons s slots ih =>
    rcases ih h with hbest | ⟨hmem, heligible⟩
    · -- the better of two slots is one of them, and if it is the new one, that is eligible
      have hcases : best = some b ∨ Eligible limit t s.time ∧ b = s := by
        unfold better at hbest
        split at hbest
        · next heligible =>
          cases best with
          | none => exact Or.inr ⟨heligible, (Option.some.inj hbest).symm⟩
          | some a =>
            dsimp only at hbest
            split_ifs at hbest
            · exact Or.inr ⟨heligible, (Option.some.inj hbest).symm⟩
            · exact Or.inl hbest
        · exact Or.inl hbest
      rcases hcases with heq | ⟨heligible, rfl⟩
      · exact Or.inl heq
      · exact Or.inr ⟨List.mem_cons_self .., heligible⟩
    · exact Or.inr ⟨List.mem_cons_of_mem s hmem, heligible⟩

/-- Only open slots are taken, whatever the times. -/
theorem nearest_mem {t : Float} {b : Slot} (h : nearest limit t slots = some b) : b ∈ slots :=
  ((of_foldl_better h).resolve_left (nomatch ·)).1

/-- Only eligible slots are taken, whatever the times. -/
theorem nearest_eligible {t : Float} {b : Slot} (h : nearest limit t slots = some b) :
    Eligible limit t b.time :=
  ((of_foldl_better h).resolve_left (nomatch ·)).2

/-- Closing an open slot leaves one slot less. -/
theorem length_close {b : Slot} (hsorted : slots.Pairwise fun a b => a.position < b.position)
    (hb : b ∈ slots) : (close b slots).length + 1 = slots.length := by
  have hnodup : (slots.map (·.position)).Nodup :=
    (List.pairwise_map.mpr hsorted).imp fun hlt => hlt.ne
  have hone : (slots.map (·.position)).count b.position = 1 :=
    List.count_eq_one_of_mem hnodup (List.mem_map_of_mem hb)
  have hsplit := slots.length_eq_countP_add_countP fun s => s.position = b.position
  rw [List.count, List.countP_map] at hone
  simp only [Function.comp_def, beq_eq_decide, decide_eq_true_eq] at hone hsplit
  rw [close, ← List.countP_eq_length_filter, hsplit, hone, Nat.add_comm]

/-- Whatever the times, a send takes a slot that is eligible for it. -/
theorem eligible_of_assign {ts : List Float} {i : Nat} {t : Float} {b : Slot} (ht : ts[i]? = some t)
    (hb : (assign limit slots ts).1[i]? = some (some b)) : Eligible limit t b.time := by
  induction ts generalizing slots i with
  | nil => exact nomatch ht
  | cons u ts ih =>
    rw [assign_cons] at hb
    cases i with
    | zero =>
      obtain rfl : u = t := Option.some.inj ht
      exact nearest_eligible ((serve_fst u).symm.trans (Option.some.inj hb))
    | succ i => exact ih ht hb

/-- Every slot of a run is taken or left open. -/
theorem countP_add_length_assign
    (hsorted : slots.Pairwise fun a b => a.position < b.position) (ts : List Float) :
    (assign limit slots ts).1.countP Option.isSome + (assign limit slots ts).2.length
      = slots.length := by
  induction ts generalizing slots with
  | nil => exact Nat.zero_add _
  | cons t ts ih =>
    have hsub : (serve limit slots t).2.Sublist slots := serve_sublist t
    have ih := ih (hsorted.sublist hsub)
    rw [assign_cons]
    unfold serve at ih ⊢
    cases hb : nearest limit t slots with
    | none =>
      rw [hb] at ih
      rwa [List.countP_cons_of_neg (by simp)]
    | some b =>
      rw [hb] at ih
      have hclose := length_close hsorted (nearest_mem hb)
      rw [List.countP_cons_of_pos rfl]
      dsimp only at ih ⊢
      omega

end

section

variable {limit : LatencyLimit} {sends receives : List Event}

@[simp] theorem length_taken : (taken limit sends receives).length = sends.length := by
  unfold taken assign
  rw [Transducer.length_run, List.length_map]

@[simp] theorem length_latenciesOf : (latenciesOf limit sends receives).length = sends.length := by
  simp [latenciesOf, latencies]

/-- The slots of a run over finite times are taken as a run of the matcher takes them. -/
theorem serves_taken (limit : LatencyLimit) (hsends : ∀ e ∈ sends, e.timestamp.isFinite = true)
    (hreceives : ∀ e ∈ receives, e.timestamp.isFinite = true) :
    Serves limit (Slot.ofTimes (receives.map (·.timestamp))) (sends.map (·.timestamp))
      (taken limit sends receives) :=
  assign_serves limit (by simpa using hsends) (arena_ofTimes hreceives)

theorem arena_leftOpen (hreceives : ∀ e ∈ receives, e.timestamp.isFinite = true) :
    Arena (leftOpen limit sends receives) :=
  (arena_ofTimes hreceives).sublist (assign_sublist _)

/-- What stays open are the slots that no send takes. -/
theorem mem_leftOpen_iff (hsends : ∀ e ∈ sends, e.timestamp.isFinite = true)
    (hreceives : ∀ e ∈ receives, e.timestamp.isFinite = true) {s : Slot} :
    s ∈ leftOpen limit sends receives ↔ s ∈ Slot.ofTimes (receives.map (·.timestamp))
      ∧ some s ∉ taken limit sends receives :=
  mem_assign_iff (by simpa using hsends) (arena_ofTimes hreceives)

/-- A receive event is consumed exactly if its slot does not stay open. -/
theorem consumed_iff (hsends : ∀ e ∈ sends, e.timestamp.isFinite = true)
    (hreceives : ∀ e ∈ receives, e.timestamp.isFinite = true) {j : Fin receives.length} :
    Consumed limit sends receives j ↔ slotAt receives j ∉ leftOpen limit sends receives := by
  rw [mem_leftOpen_iff hsends hreceives, and_iff_right (mem_ofTimes_iff.mpr ⟨j, rfl⟩),
    Decidable.not_not, Consumed]

/-- Every receive event is consumed or left open. -/
theorem countP_taken_add_length_leftOpen (limit : LatencyLimit) (sends receives : List Event) :
    (taken limit sends receives).countP Option.isSome + (leftOpen limit sends receives).length
      = receives.length := by
  refine (countP_add_length_assign (Slot.sorted_ofTimes _) _).trans ?_
  rw [Slot.ofTimes, List.length_map, List.length_zipIdx, List.length_map]

/-- The slots of later sends are taken from those that earlier ones leave open. -/
theorem taken_append (later : List Event) :
    taken limit (sends ++ later) receives = taken limit sends receives
      ++ (assign limit (leftOpen limit sends receives) (later.map (·.timestamp))).1 := by
  unfold taken leftOpen assign
  rw [List.map_append, Transducer.run_append]

theorem latenciesOf_append (later : List Event) :
    latenciesOf limit (sends ++ later) receives = latenciesOf limit sends receives
      ++ latencies (later.map (·.timestamp))
        (assign limit (leftOpen limit sends receives) (later.map (·.timestamp))).1 := by
  unfold latenciesOf
  rw [taken_append, List.map_append, latencies_append (by simp)]

variable {κ : Type} {o : Observer κ}

/-- The verdicts of a run are read off its send times and the receive times that they get. -/
theorem verdicts_ofTimes : (Pairing.ofTimes limit (sends.map (·.timestamp))
    (receives.map (·.timestamp))).verdicts = verdictsFrom 0 (sends.map (·.timestamp))
      (receiveTimesOf limit sends receives) := by
  unfold verdictsFrom receiveTimesOf
  rw [List.zip_map_right, List.zipIdx_map, List.map_map]
  refine List.map_congr_left ?_
  rintro ⟨⟨t, b⟩, i⟩ -
  cases b <;> rfl

/-- And so is its outcome. -/
theorem value_pair : (pair limit sends receives o).value = MatchOutcome.ofVerdicts
    (verdictsFrom 0 (sends.map (·.timestamp)) (receiveTimesOf limit sends receives)) :=
  congrArg MatchOutcome.ofVerdicts verdicts_ofTimes

private theorem mem_verdicts_iff {v : Verdict} :
    v ∈ (Pairing.ofTimes limit (sends.map (·.timestamp)) (receives.map (·.timestamp))).verdicts
      ↔ ∃ i e b, sends[i]? = some e ∧ (taken limit sends receives)[i]? = some b
        ∧ v = Verdict.ofSlot i e.timestamp b := by
  simp only [Pairing.ofTimes, List.mem_map, List.mem_zipIdx_iff_getElem?]
  constructor
  · rintro ⟨⟨⟨t, b⟩, i⟩, hi, rfl⟩
    obtain ⟨ht, hb⟩ := List.getElem?_zip_eq_some.mp hi
    rw [List.getElem?_map] at ht
    obtain ⟨e, he, rfl⟩ := Option.map_eq_some_iff.mp ht
    exact ⟨i, e, b, he, hb, rfl⟩
  · rintro ⟨i, e, b, he, hb, rfl⟩
    refine ⟨((e.timestamp, b), i), List.getElem?_zip_eq_some.mpr ⟨?_, hb⟩, rfl⟩
    rw [List.getElem?_map, he, Option.map_some]

/-- A measurement is of a send and of the slot that it took. -/
theorem mem_measurements_pair_iff {m : Measurement} :
    m ∈ (pair limit sends receives o).value.measurements ↔ ∃ e b, sends[m.index]? = some e
      ∧ (taken limit sends receives)[m.index]? = some (some b)
      ∧ m = Measurement.ofTimes m.index e.timestamp b.time := by
  simp only [pair, MatchOutcome.ofVerdicts, List.mem_filterMap, mem_verdicts_iff]
  constructor
  · rintro ⟨v, ⟨i, e, b, he, hb, rfl⟩, hm⟩
    cases b with
    | none => exact absurd hm (Option.some_ne_none m).symm
    | some b =>
      obtain rfl := Option.some.inj hm
      exact ⟨e, b, he, hb, rfl⟩
  · rintro ⟨e, b, he, hb, hm⟩
    exact ⟨_, ⟨m.index, e, some b, he, hb, rfl⟩, congrArg some hm.symm⟩

/-- An unmatched send is one that took no slot. -/
theorem mem_unmatched_pair_iff {u : UnmatchedSend} :
    u ∈ (pair limit sends receives o).value.unmatched ↔ ∃ e, sends[u.index]? = some e
      ∧ (taken limit sends receives)[u.index]? = some none ∧ u = ⟨u.index, e.timestamp⟩ := by
  simp only [pair, MatchOutcome.ofVerdicts, List.mem_filterMap, mem_verdicts_iff]
  constructor
  · rintro ⟨v, ⟨i, e, b, he, hb, rfl⟩, hu⟩
    cases b with
    | none =>
      obtain rfl := Option.some.inj hu
      exact ⟨e, he, hb, rfl⟩
    | some b => exact absurd hu (Option.some_ne_none u).symm
  · rintro ⟨e, he, hb, hu⟩
    exact ⟨_, ⟨u.index, e, none, he, hb, rfl⟩, congrArg some hu.symm⟩

/-- What comes behind a send does not matter to it, if it is matched. -/
theorem mem_measurements_append_iff {later : List Event} {m : Measurement}
    (hm : m.index < sends.length) :
    m ∈ (pair limit (sends ++ later) receives o).value.measurements
      ↔ m ∈ (pair limit sends receives o).value.measurements := by
  rw [mem_measurements_pair_iff, mem_measurements_pair_iff, taken_append,
    List.getElem?_append_left hm, List.getElem?_append_left (by simpa using hm)]

/-- What comes behind a send does not matter to it, if it is not matched. -/
theorem mem_unmatched_append_iff {later : List Event} {u : UnmatchedSend}
    (hu : u.index < sends.length) :
    u ∈ (pair limit (sends ++ later) receives o).value.unmatched
      ↔ u ∈ (pair limit sends receives o).value.unmatched := by
  rw [mem_unmatched_pair_iff, mem_unmatched_pair_iff, taken_append,
    List.getElem?_append_left hu, List.getElem?_append_left (by simpa using hu)]

private theorem getElem?_latenciesOf_eq_some {i : Nat} {l : Option Float} :
    (latenciesOf limit sends receives)[i]? = some l ↔ ∃ e b, sends[i]? = some e
      ∧ (taken limit sends receives)[i]? = some b ∧ l = b.map fun s => s.time - e.timestamp := by
  rw [latenciesOf, latencies, List.getElem?_map, Option.map_eq_some_iff]
  constructor
  · rintro ⟨⟨t, b⟩, hi, rfl⟩
    obtain ⟨ht, hb⟩ := List.getElem?_zip_eq_some.mp hi
    rw [List.getElem?_map] at ht
    obtain ⟨e, he, rfl⟩ := Option.map_eq_some_iff.mp ht
    exact ⟨e, b, he, hb, rfl⟩
  · rintro ⟨e, b, he, hb, rfl⟩
    refine ⟨(e.timestamp, b), List.getElem?_zip_eq_some.mpr ⟨?_, hb⟩, rfl⟩
    rw [List.getElem?_map, he, Option.map_some]

/-- The latencies tell the matched sends. -/
theorem matched_pair_iff {i : Nat} {l : Float} :
    (pair limit sends receives o).value.Matched i l
      ↔ (latenciesOf limit sends receives)[i]? = some (some l) := by
  unfold MatchOutcome.Matched
  simp only [mem_measurements_pair_iff, getElem?_latenciesOf_eq_some]
  constructor
  · rintro ⟨m, ⟨e, b, he, hb, hm⟩, rfl, rfl⟩
    exact ⟨e, some b, he, hb, congrArg (some ·.latency) hm⟩
  · rintro ⟨e, b, he, hb, hl⟩
    obtain ⟨b, rfl, rfl⟩ := Option.map_eq_some_iff.mp hl.symm
    exact ⟨Measurement.ofTimes i e.timestamp b.time, ⟨e, b, he, hb, rfl⟩, rfl, rfl⟩

/-- The latencies tell the unmatched sends. -/
theorem unmatched_pair_iff {i : Nat} :
    (pair limit sends receives o).value.Unmatched i
      ↔ (latenciesOf limit sends receives)[i]? = some none := by
  unfold MatchOutcome.Unmatched
  simp only [mem_unmatched_pair_iff, getElem?_latenciesOf_eq_some]
  constructor
  · rintro ⟨u, ⟨e, he, hb, -⟩, rfl⟩
    exact ⟨e, none, he, hb, rfl⟩
  · rintro ⟨e, b, he, hb, hl⟩
    obtain rfl := Option.map_eq_none_iff.mp hl.symm
    exact ⟨⟨i, e.timestamp⟩, ⟨e, he, hb, rfl⟩, rfl⟩

/-- There are as many measurements as sends that took a slot. -/
theorem length_measurements_pair :
    (pair limit sends receives o).value.measurements.length
      = (taken limit sends receives).countP Option.isSome := by
  have hslots : (taken limit sends receives).countP Option.isSome
      = ((sends.map (·.timestamp)).zip (taken limit sends receives)).zipIdx.countP
          (Option.isSome ∘ Prod.snd ∘ Prod.fst) := by
    rw [← List.countP_map, ← List.map_map, List.zipIdx_map_fst, List.map_snd_zip (by simp)]
  rw [hslots]
  simp only [pair, MatchOutcome.ofVerdicts, Pairing.ofTimes, List.length_filterMap_eq_countP,
    List.countP_map]
  refine List.countP_congr ?_
  rintro ⟨⟨t, b⟩, i⟩ -
  cases b <;> exact Iff.rfl

/-- There are as many measurements as latencies. -/
theorem length_measurements_eq_countP :
    (pair limit sends receives o).value.measurements.length
      = (latenciesOf limit sends receives).countP Option.isSome := by
  rw [latenciesOf, countP_latencies (by simp), length_measurements_pair]

/-- A matching run measures nothing exactly if no receive event fits any send. -/
theorem measurements_pair_eq_nil_iff (hsends : ∀ e ∈ sends, e.timestamp.isFinite = true)
    (hreceives : ∀ e ∈ receives, e.timestamp.isFinite = true) :
    (pair limit sends receives o).value.measurements = []
      ↔ ∀ s ∈ sends, ∀ r ∈ receives, ¬ Fits limit s.timestamp r.timestamp := by
  rw [← List.length_eq_zero_iff, length_measurements_pair,
    (serves_taken limit hsends hreceives).countP_eq_zero_iff]
  simp only [List.forall_mem_map]
  refine forall₂_congr fun s _ => ⟨fun h r hr => ?_, fun h slot hslot => ?_⟩
  · obtain ⟨j, hj, rfl⟩ := List.mem_iff_getElem.mp hr
    exact h (slotAt receives ⟨j, hj⟩) (mem_ofTimes_iff.mpr ⟨⟨j, hj⟩, rfl⟩)
  · obtain ⟨j, rfl⟩ := mem_ofTimes_iff.mp hslot
    exact h receives[j] (List.getElem_mem _)

/-- A matching run succeeds exactly if both channels have events and something is paired. -/
theorem match?_eq_ok_iff {outcome : MatchOutcome} :
    (match? limit sends receives o).value = .ok outcome ↔ sends ≠ [] ∧ receives ≠ []
      ∧ (pair limit sends receives o).value.measurements ≠ []
      ∧ (pair limit sends receives o).value = outcome := by
  unfold match?
  split_ifs with hsends hreceives
  · simp [hsends]
  · simp [hreceives]
  · dsimp only
    split_ifs with hnone
    · simp [hnone]
    · simp [hsends, hreceives, hnone]

end

end TriggerLatency
