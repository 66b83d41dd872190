import TriggerLatency.Matching.Run
import TriggerLatency.Proofs.Matching.Cardinality
import Mathlib.Data.List.FinRange
import Mathlib.Order.Bounds.Defs

/-!
# Matching is the greedy assignment

A `Choice` gives receive slots to sends. The greedy one (`IsGreedy`) gives each send the nearest
of the slots that no earlier send has, which leaves no freedom at all (`IsGreedy.unique`). A run
of the matcher follows it, so a matching run computes the one greedy choice
(`pair_computes_greedy_choice`).

The greedy choice need not have the least total latency, but over time-ordered events it has
as many pairs as any other (`pair_isGreatest`).
-/

namespace TriggerLatency

/-! ## The greedy choice -/

section

variable {limit : LatencyLimit} {sends receives : List Event}

/-- A partial map from the positions of the sends to receive slots. -/
abbrev Choice (sends receives : List Event) := Fin sends.length → Option (Fin receives.length)

/-- The latency of a send and a receive slot. -/
def latency (sends receives : List Event) (i : Fin sends.length) (j : Fin receives.length) :
    Float :=
  receives[j].timestamp - sends[i].timestamp

namespace Choice

/-- Slot `j` is outside what the sends before `i` have chosen, and it fits the send at `i`. -/
def CanTake (limit : LatencyLimit) (σ : Choice sends receives) (i : Fin sends.length)
    (j : Fin receives.length) : Prop :=
  (∀ k < i, σ k ≠ some j) ∧ Fits limit sends[i].timestamp receives[j].timestamp

/-- Every send that can take a slot takes, of those of minimal latency, the one of lowest number;
the others take none. -/
structure IsGreedy (limit : LatencyLimit) (σ : Choice sends receives) : Prop where
  isSome_iff : ∀ i, (σ i).isSome = true ↔ ∃ j, CanTake limit σ i j
  canTake : ∀ i j, σ i = some j → CanTake limit σ i j
  least : ∀ i j, σ i = some j → ∀ j', CanTake limit σ i j' →
    latency sends receives i j ≤ latency sends receives i j'
  first : ∀ i j, σ i = some j → ∀ j', CanTake limit σ i j' →
    latency sends receives i j' ≤ latency sends receives i j → j ≤ j'

/-- The measurements of the sends that have a slot, in increasing order. -/
def measurements (σ : Choice sends receives) : List Measurement :=
  (List.finRange sends.length).filterMap fun i => (σ i).map fun j =>
    { index := i
      sendTime := sends[i].timestamp
      receiveTime := receives[j].timestamp
      latency := receives[j].timestamp - sends[i].timestamp }

/-- The sends without a slot, in increasing order. -/
def unmatched (σ : Choice sends receives) : List UnmatchedSend :=
  (List.finRange sends.length).filterMap fun i =>
    if σ i = none then some { index := i, sendTime := sends[i].timestamp } else none

/-- No slot is chosen twice. -/
theorem IsGreedy.injective {σ : Choice sends receives} (h : IsGreedy limit σ)
    {i i' : Fin sends.length} {j : Fin receives.length} (hi : σ i = some j)
    (hi' : σ i' = some j) : i = i' := by
  rcases lt_trichotomy i i' with hlt | heq | hgt
  · exact absurd hi ((h.canTake i' j hi').1 i hlt)
  · exact heq
  · exact absurd hi' ((h.canTake i j hi).1 i' hgt)

/-- Every choice is forced by those before it. -/
theorem IsGreedy.unique {σ τ : Choice sends receives} (hσ : IsGreedy limit σ)
    (hτ : IsGreedy limit τ) : τ = σ := by
  have hpoint : ∀ (n : Nat) (i : Fin sends.length), i.val = n → τ i = σ i := by
    intro n
    induction n using Nat.strongRecOn with
    | ind n ih =>
      intro i hi
      -- what is taken before `i` is the same, so the candidates are
      have hsame : ∀ j, CanTake limit τ i j ↔ CanTake limit σ i j := by
        intro j
        refine and_congr_left fun _ => forall_congr' fun k => forall_congr' ?_
        intro hk
        rw [ih k.val (by omega) k rfl]
      cases hj : σ i with
      | none =>
        have hno : ¬ ∃ j, CanTake limit σ i j := by
          rw [← hσ.isSome_iff i, hj]
          exact Bool.false_ne_true
        cases hj' : τ i with
        | none => rfl
        | some j' => exact absurd ⟨j', (hsame j').mp (hτ.canTake i j' hj')⟩ hno
      | some j =>
        have hcan := hσ.canTake i j hj
        obtain ⟨j', hj'⟩ := Option.isSome_iff_exists.mp
          ((hτ.isSome_iff i).mpr ⟨j, (hsame j).mpr hcan⟩)
        have hcan' := hτ.canTake i j' hj'
        -- each is among the candidates of the other, so they have the same latency and number
        have hle := hσ.least i j hj j' ((hsame j').mp hcan')
        have hle' := hτ.least i j' hj' j ((hsame j).mpr hcan)
        have hpos := hσ.first i j hj j' ((hsame j').mp hcan') hle'
        have hpos' := hτ.first i j' hj' j ((hsame j).mpr hcan) hle
        rw [hj', le_antisymm hpos' hpos]
  exact funext fun i => hpoint i.val i rfl

end Choice

/-! ## The matcher makes the greedy choice -/

/-- The slot of a receive event. -/
def slotAt (receives : List Event) (j : Fin receives.length) : Slot := ⟨j, receives[j].timestamp⟩

theorem slotAt_inj {j j' : Fin receives.length} :
    slotAt receives j = slotAt receives j' ↔ j = j' := by
  refine ⟨fun h => Fin.ext ?_, fun h => h ▸ rfl⟩
  exact congrArg Slot.position h

theorem latency_eq (i : Fin sends.length) (j : Fin receives.length) :
    latency sends receives i j = (slotAt receives j).time - sends[i].timestamp := rfl

theorem mem_ofTimes_iff {s : Slot} :
    s ∈ Slot.ofTimes (receives.map (·.timestamp)) ↔ ∃ j, s = slotAt receives j := by
  simp only [Slot.ofTimes, List.mem_map, List.mem_zipIdx_iff_getElem?]
  constructor
  · rintro ⟨⟨t, j⟩, hj, rfl⟩
    dsimp only at hj
    rw [List.getElem?_map, Option.map_eq_some_iff] at hj
    obtain ⟨e, he, rfl⟩ := hj
    obtain ⟨hlt, rfl⟩ := List.getElem?_eq_some_iff.mp he
    exact ⟨⟨j, hlt⟩, rfl⟩
  · rintro ⟨j, rfl⟩
    exact ⟨(receives[j].timestamp, j), by simp, rfl⟩

theorem arena_ofTimes (h : ∀ e ∈ receives, e.timestamp.isFinite = true) :
    Arena (Slot.ofTimes (receives.map (·.timestamp))) :=
  Arena.ofTimes (by simpa using h)

/-- The slots that a run took are those of a choice. -/
def Choice.Follows (σ : Choice sends receives) (os : List (Option Slot)) : Prop :=
  ∀ i, os[i.val]? = some ((σ i).map (slotAt receives))

/-- A run over the send times takes the slots of some choice. -/
theorem exists_choice {os : List (Option Slot)}
    (h : Serves limit (Slot.ofTimes (receives.map (·.timestamp))) (sends.map (·.timestamp)) os) :
    ∃ σ : Choice sends receives, σ.Follows os := by
  have hpoint : ∀ i : Fin sends.length, ∃ o : Option (Fin receives.length),
      os[i.val]? = some (o.map (slotAt receives)) := by
    intro i
    have hi : i.val < os.length := by
      rw [h.length_eq, List.length_map]
      exact i.isLt
    rw [List.getElem?_eq_getElem hi]
    cases hb : os[i.val] with
    | none => exact ⟨none, rfl⟩
    | some b =>
      obtain ⟨j, rfl⟩ := mem_ofTimes_iff.mp (h.mem_of_some (hb ▸ List.getElem_mem hi))
      exact ⟨some j, rfl⟩
  exact ⟨fun i => (hpoint i).choose, fun i => (hpoint i).choose_spec⟩

namespace Choice.Follows

variable {os : List (Option Slot)} {σ : Choice sends receives}

/-- The slots open at a position are those that the choice has not used up. -/
theorem mem_openAt_iff (hσ : σ.Follows os) (i : Fin sends.length) (j : Fin receives.length) :
    slotAt receives j ∈ Serves.openAt (Slot.ofTimes (receives.map (·.timestamp))) os i.val
      ↔ ∀ k < i, σ k ≠ some j := by
  rw [Serves.mem_openAt, and_iff_right (mem_ofTimes_iff.mpr ⟨j, rfl⟩)]
  constructor
  · -- a slot that an earlier send has is not open
    intro hnot k hk hkj
    refine hnot (List.mem_iff_getElem?.mpr ⟨k.val, ?_⟩)
    rw [List.getElem?_take, if_pos (show k.val < i.val from hk), hσ k, hkj]
    rfl
  · -- a slot that is not open is that of an earlier send
    intro hfree hmem
    obtain ⟨k, hkb⟩ := List.mem_iff_getElem?.mp hmem
    rw [List.getElem?_take] at hkb
    split_ifs at hkb with hk
    have hkn : k < sends.length := Nat.lt_trans hk i.isLt
    have hk' := hσ ⟨k, hkn⟩
    rw [hkb, Option.some_inj] at hk'
    obtain ⟨j', hj', hsame⟩ := Option.map_eq_some_iff.mp hk'.symm
    exact hfree ⟨k, hkn⟩ hk (hj'.trans (congrArg some (slotAt_inj.mp hsame)))

/-- A send can take the open slots that fit it. -/
theorem canTake_iff (hσ : σ.Follows os) (i : Fin sends.length) (j : Fin receives.length) :
    σ.CanTake limit i j ↔
      slotAt receives j ∈ Serves.openAt (Slot.ofTimes (receives.map (·.timestamp))) os i.val
      ∧ Fits limit sends[i].timestamp (slotAt receives j).time := by
  rw [hσ.mem_openAt_iff]
  exact Iff.rfl

/-- The send at any position has the nearest of the open slots, if one fits. -/
theorem served_at (hσ : σ.Follows os)
    (ha : Arena (Slot.ofTimes (receives.map (·.timestamp))))
    (h : Serves limit (Slot.ofTimes (receives.map (·.timestamp))) (sends.map (·.timestamp)) os)
    (i : Fin sends.length) :
    (∃ j, σ i = some j ∧ IsNearest limit sends[i].timestamp
      (Serves.openAt (Slot.ofTimes (receives.map (·.timestamp))) os i.val) (slotAt receives j))
    ∨ (σ i = none ∧ ∀ j, ¬ σ.CanTake limit i j) := by
  have hat : (sends.map (·.timestamp))[i.val]? = some sends[i].timestamp := by simp
  have hi := hσ i
  rcases h.served_at ha hat with ⟨b, hb, hnear⟩ | ⟨hnone, hall⟩
  · rw [hb, Option.some_inj] at hi
    obtain ⟨j, hj, rfl⟩ := Option.map_eq_some_iff.mp hi.symm
    exact Or.inl ⟨j, hj, hnear⟩
  · rw [hnone, Option.some_inj] at hi
    refine Or.inr ⟨Option.map_eq_none_iff.mp hi.symm, ?_⟩
    intro j hj
    obtain ⟨hmem, hfits⟩ := (hσ.canTake_iff i j).mp hj
    exact hall _ hmem hfits

/-- The choice that a run makes is greedy. -/
theorem isGreedy (hσ : σ.Follows os) (ha : Arena (Slot.ofTimes (receives.map (·.timestamp))))
    (h : Serves limit (Slot.ofTimes (receives.map (·.timestamp))) (sends.map (·.timestamp)) os) :
    σ.IsGreedy limit := by
  have hnearest : ∀ i j, σ i = some j → IsNearest limit sends[i].timestamp
      (Serves.openAt (Slot.ofTimes (receives.map (·.timestamp))) os i.val) (slotAt receives j) := by
    intro i j hj
    rcases hσ.served_at ha h i with ⟨j', hj', hnear⟩ | ⟨hnone, -⟩
    · rw [hj, Option.some_inj] at hj'
      exact hj' ▸ hnear
    · exact absurd (hj.symm.trans hnone) (Option.some_ne_none j)
  have hcan : ∀ i j, σ i = some j → σ.CanTake limit i j := fun i j hj =>
    (hσ.canTake_iff i j).mpr ⟨(hnearest i j hj).mem, (hnearest i j hj).fits⟩
  -- at each send, the slots that the run has open are those that the choice can take
  refine ⟨?_, hcan, ?_, ?_⟩
  · intro i
    constructor
    · intro hsome
      obtain ⟨j, hj⟩ := Option.isSome_iff_exists.mp hsome
      exact ⟨j, hcan i j hj⟩
    · rintro ⟨j, hj⟩
      rcases hσ.served_at ha h i with ⟨j', hj', -⟩ | ⟨-, hall⟩
      · rw [hj']
        rfl
      · exact absurd hj (hall j)
  · intro i j hj j' hj'
    obtain ⟨hmem, hfits⟩ := (hσ.canTake_iff i j').mp hj'
    rw [latency_eq, latency_eq]
    exact (hnearest i j hj).least _ hmem hfits
  · intro i j hj j' hj' hle
    obtain ⟨hmem, hfits⟩ := (hσ.canTake_iff i j').mp hj'
    rw [latency_eq, latency_eq] at hle
    exact (hnearest i j hj).first _ hmem hfits hle

/-- The verdicts of a run, send by send. -/
theorem verdicts_eq (hσ : σ.Follows os) (hlen : os.length = sends.length) :
    (((sends.map (·.timestamp)).zip os).zipIdx.map fun v => Verdict.ofSlot v.2 v.1.1 v.1.2)
      = (List.finRange sends.length).map fun (i : Fin sends.length) =>
          Verdict.ofSlot i.val sends[i].timestamp ((σ i).map (slotAt receives)) := by
  refine List.ext_getElem (by simp [hlen]) (?_)
  intro i hi _
  have hin : i < sends.length := by simpa [hlen] using hi
  have hios : i < os.length := hlen.symm ▸ hin
  have hos : os[i] = (σ ⟨i, hin⟩).map (slotAt receives) := by
    have hat := hσ ⟨i, hin⟩
    rwa [List.getElem?_eq_getElem hios, Option.some_inj] at hat
  simp [hos]

end Choice.Follows

/-- A matching run follows a choice, and reports it in send order. -/
theorem pair_follows {κ : Type} (limit : LatencyLimit)
    (hsends : ∀ e ∈ sends, e.timestamp.isFinite = true)
    (hreceives : ∀ e ∈ receives, e.timestamp.isFinite = true) (o : Observer κ) :
    ∃ (σ : Choice sends receives) (os : List (Option Slot)),
      Serves limit (Slot.ofTimes (receives.map (·.timestamp))) (sends.map (·.timestamp)) os
      ∧ σ.Follows os ∧ (pair limit sends receives o).value = ⟨σ.measurements, σ.unmatched⟩ := by
  have hserves : Serves limit _ (sends.map (·.timestamp)) _ :=
    assign_serves limit (by simpa using hsends) (arena_ofTimes hreceives)
  obtain ⟨σ, hσ⟩ := exists_choice hserves
  refine ⟨σ, _, hserves, hσ, ?_⟩
  have hlen := hserves.length_eq
  rw [List.length_map] at hlen
  -- both lists of the outcome are read off the verdicts, send by send
  simp only [pair, Pairing.ofTimes, hσ.verdicts_eq hlen, MatchOutcome.ofVerdicts,
    List.filterMap_map]
  congr 1
  · refine List.filterMap_congr ?_
    intro i _
    cases hi : σ i <;> simp [hi, Verdict.ofSlot, Verdict.measurement?, Measurement.ofTimes, slotAt]
  · refine List.filterMap_congr ?_
    intro i _
    cases hi : σ i <;> simp [hi, Verdict.ofSlot, Verdict.unmatched?]

/-- A matching run makes the one greedy choice, and reports it in send order. -/
theorem pair_computes_greedy_choice {κ : Type} (limit : LatencyLimit) (sends receives : List Event)
    (hsends : ∀ e ∈ sends, e.timestamp.isFinite = true)
    (hreceives : ∀ e ∈ receives, e.timestamp.isFinite = true) (o : Observer κ) :
    ∃ σ : Choice sends receives,
      σ.IsGreedy limit
      ∧ (∀ τ : Choice sends receives, τ.IsGreedy limit → τ = σ)
      ∧ (∀ i i' j, σ i = some j → σ i' = some j → i = i')
      ∧ (pair limit sends receives o).value = ⟨σ.measurements, σ.unmatched⟩ := by
  obtain ⟨σ, os, hserves, hσ, hvalue⟩ := pair_follows limit hsends hreceives o
  have hgreedy := hσ.isGreedy (arena_ofTimes hreceives) hserves
  have hinjective : ∀ i i' j, σ i = some j → σ i' = some j → i = i' := fun i i' j hi hi' =>
    hgreedy.injective hi hi'
  exact ⟨σ, hgreedy, fun τ hτ => hgreedy.unique hτ, hinjective, hvalue⟩

end

/-- Two sends whose two receive slots are at the same time: the lower slot goes to the first send,
although that is the later one. -/
theorem greedy_choice_of_tied_slots :
    (∀ e ∈ [Event.mk 1 .send, ⟨0, .send⟩], e.timestamp.isFinite = true)
    ∧ (∀ e ∈ [Event.mk 2 .receive, ⟨2, .receive⟩], e.timestamp.isFinite = true)
    ∧ ∃ σ : Choice [Event.mk 1 .send, ⟨0, .send⟩] [Event.mk 2 .receive, ⟨2, .receive⟩],
      σ.IsGreedy ⟨10, by decide +kernel, by decide +kernel⟩
      ∧ σ.measurements = [⟨0, 1, 2, 1⟩, ⟨1, 0, 2, 2⟩] ∧ σ.unmatched = [] := by
  have hsends : ∀ e ∈ [Event.mk 1 .send, ⟨0, .send⟩], e.timestamp.isFinite = true := by
    decide +kernel
  have hreceives : ∀ e ∈ [Event.mk 2 .receive, ⟨2, .receive⟩], e.timestamp.isFinite = true := by
    decide +kernel
  obtain ⟨σ, hgreedy, -, -, hvalue⟩ :=
    pair_computes_greedy_choice ⟨10, by decide +kernel, by decide +kernel⟩ _ _ hsends hreceives
      Observer.silent
  have hrun : (pair ⟨10, by decide +kernel, by decide +kernel⟩ [⟨1, .send⟩, ⟨0, .send⟩]
      [⟨2, .receive⟩, ⟨2, .receive⟩] Observer.silent).value
        = ⟨[⟨0, 1, 2, 1⟩, ⟨1, 0, 2, 2⟩], []⟩ := by
    decide +kernel
  rw [hrun, MatchOutcome.mk.injEq] at hvalue
  exact ⟨hsends, hreceives, σ, hgreedy, hvalue.1.symm, hvalue.2.symm⟩

/-! ## No packet is lost on ordered data -/

section

variable {limit : LatencyLimit} {sends receives : List Event}

namespace Choice

/-- Every chosen slot fits its send, and no slot is chosen twice. -/
structure IsMatching (limit : LatencyLimit) (σ : Choice sends receives) : Prop where
  fits : ∀ i j, σ i = some j → Fits limit sends[i].timestamp receives[j].timestamp
  injective : ∀ i i' j, σ i = some j → σ i' = some j → i = i'

/-- The sends that have a slot. -/
def served (σ : Choice sends receives) : List (Fin sends.length) :=
  (List.finRange sends.length).filter fun i => (σ i).isSome

theorem length_measurements (σ : Choice sends receives) :
    σ.measurements.length = σ.served.length := by
  unfold measurements served
  rw [List.length_filterMap_eq_countP, ← List.countP_eq_length_filter]
  simp

/-- A matching is a way to give slots to sends. -/
theorem IsMatching.packs {σ : Choice sends receives} (h : σ.IsMatching limit)
    {is : List (Fin sends.length)} (hnodup : is.Nodup) {S : Set Slot}
    (hfree : ∀ i ∈ is, ∀ j, σ i = some j → slotAt receives j ∈ S) :
    Packs limit S (is.map fun i => sends[i].timestamp)
      (is.filter fun i => (σ i).isSome).length := by
  induction is generalizing S with
  | nil => exact Packs.done S
  | cons i is ih =>
    obtain ⟨hi, hnodup'⟩ := List.nodup_cons.mp hnodup
    rw [List.map_cons]
    cases hj : σ i with
    | none =>
      rw [List.filter_cons_of_neg (by simp [hj])]
      exact Packs.skip (ih hnodup' fun k hk => hfree k (List.mem_cons_of_mem i hk))
    | some j =>
      rw [List.filter_cons_of_pos (by simp [hj]), List.length_cons]
      refine Packs.give (hfree i (List.mem_cons_self ..) j hj) (h.fits i j hj) (ih hnodup' ?_)
      -- the later sends have other slots
      intro k hk j' hj'
      refine ⟨hfree k (List.mem_cons_of_mem i hk) j' hj', fun heq => hi ?_⟩
      obtain rfl := slotAt_inj.mp heq
      exact h.injective i k j' hj hj' ▸ hk

/-- The greedy choice is a matching. -/
theorem IsGreedy.isMatching {σ : Choice sends receives} (h : σ.IsGreedy limit) :
    σ.IsMatching limit where
  fits i j hj := (h.canTake i j hj).2
  injective _ _ _ hi hi' := h.injective hi hi'

/-- The slots of a run, send by send. -/
theorem Follows.eq_map {σ : Choice sends receives} {os : List (Option Slot)} (hσ : σ.Follows os)
    (hlen : os.length = sends.length) :
    os = (List.finRange sends.length).map fun i => (σ i).map (slotAt receives) := by
  refine List.ext_getElem (by simp [hlen]) ?_
  intro i hi _
  have hat := hσ ⟨i, hlen ▸ hi⟩
  rw [List.getElem?_eq_getElem hi, Option.some_inj] at hat
  simp [hat]

/-- A choice has as many served sends as the run that it follows. -/
theorem Follows.length_served {σ : Choice sends receives} {os : List (Option Slot)}
    (hσ : σ.Follows os) (hlen : os.length = sends.length) :
    σ.served.length = os.countP Option.isSome := by
  rw [hσ.eq_map hlen, List.countP_map, served, ← List.countP_eq_length_filter]
  congr 1
  funext i
  simp

end Choice

theorem inTimeOrder_ofTimes (h : receives.Pairwise fun a b => a.timestamp ≤ b.timestamp) :
    InTimeOrder (Slot.ofTimes (receives.map (·.timestamp))) := by
  intro a ha b hb hlt
  obtain ⟨j, rfl⟩ := mem_ofTimes_iff.mp ha
  obtain ⟨j', rfl⟩ := mem_ofTimes_iff.mp hb
  exact List.pairwise_iff_getElem.mp h j j' j.isLt j'.isLt hlt

/-- On time-ordered events, a matching run makes as many measurements as any matching of sends
with receive slots has pairs. -/
theorem pair_isGreatest {κ : Type} (limit : LatencyLimit) (sends receives : List Event)
    (hsends : ∀ e ∈ sends, e.timestamp.isFinite = true)
    (hreceives : ∀ e ∈ receives, e.timestamp.isFinite = true)
    (hsorted : sends.Pairwise fun a b => a.timestamp ≤ b.timestamp)
    (hsorted' : receives.Pairwise fun a b => a.timestamp ≤ b.timestamp) (o : Observer κ) :
    IsGreatest {n | ∃ σ : Choice sends receives, σ.IsMatching limit ∧ σ.served.length = n}
      (pair limit sends receives o).value.measurements.length := by
  have ha := arena_ofTimes hreceives
  obtain ⟨σ, os, hserves, hσ, hvalue⟩ := pair_follows limit hsends hreceives o
  have hlen := hserves.length_eq
  rw [List.length_map] at hlen
  rw [hvalue, Choice.length_measurements]
  refine ⟨⟨σ, (hσ.isGreedy ha hserves).isMatching, rfl⟩, ?_⟩
  rintro n ⟨τ, hτ, rfl⟩
  -- a matching packs its sends into the slots, and so does the run
  have hpacks : Packs limit {s | s ∈ Slot.ofTimes (receives.map (·.timestamp))}
      (sends.map (·.timestamp)) τ.served.length := by
    have htimes : sends.map (·.timestamp)
        = (List.finRange sends.length).map fun i => sends[i].timestamp :=
      List.ext_getElem (by simp) (by simp)
    rw [htimes]
    exact hτ.packs (List.nodup_finRange sends.length) fun i _ j _ => mem_ofTimes_iff.mpr ⟨j, rfl⟩
  rw [hσ.length_served hlen]
  refine hserves.packs_le ha (inTimeOrder_ofTimes hsorted') (by simpa using hsends) ?_ hpacks
  rwa [List.pairwise_map]

end

/-- Three sends and two receive slots: two pairs are the most, and the run has them. -/
theorem pair_isGreatest_of_three_sends :
    (∀ e ∈ [Event.mk 0 .send, ⟨1, .send⟩, ⟨4, .send⟩], e.timestamp.isFinite = true)
    ∧ (∀ e ∈ [Event.mk 2 .receive, ⟨3, .receive⟩], e.timestamp.isFinite = true)
    ∧ [Event.mk 0 .send, ⟨1, .send⟩, ⟨4, .send⟩].Pairwise (fun a b => a.timestamp ≤ b.timestamp)
    ∧ [Event.mk 2 .receive, ⟨3, .receive⟩].Pairwise (fun a b => a.timestamp ≤ b.timestamp)
    ∧ IsGreatest {n | ∃ σ : Choice [Event.mk 0 .send, ⟨1, .send⟩, ⟨4, .send⟩]
          [Event.mk 2 .receive, ⟨3, .receive⟩],
        σ.IsMatching ⟨10, by decide +kernel, by decide +kernel⟩ ∧ σ.served.length = n} 2 := by
  have hsends : ∀ e ∈ [Event.mk 0 .send, ⟨1, .send⟩, ⟨4, .send⟩], e.timestamp.isFinite = true := by
    decide +kernel
  have hreceives : ∀ e ∈ [Event.mk 2 .receive, ⟨3, .receive⟩], e.timestamp.isFinite = true := by
    decide +kernel
  have hsorted : [Event.mk 0 .send, ⟨1, .send⟩, ⟨4, .send⟩].Pairwise
      (fun a b => a.timestamp ≤ b.timestamp) := by
    decide +kernel
  have hsorted' : [Event.mk 2 .receive, ⟨3, .receive⟩].Pairwise
      (fun a b => a.timestamp ≤ b.timestamp) := by
    decide +kernel
  have hgreatest := pair_isGreatest ⟨10, by decide +kernel, by decide +kernel⟩ _ _ hsends hreceives
    hsorted hsorted' Observer.silent
  have hcount : (pair ⟨10, by decide +kernel, by decide +kernel⟩
      [Event.mk 0 .send, ⟨1, .send⟩, ⟨4, .send⟩] [Event.mk 2 .receive, ⟨3, .receive⟩]
      Observer.silent).value.measurements.length = 2 := by
    decide +kernel
  exact ⟨hsends, hreceives, hsorted, hsorted', hcount ▸ hgreatest⟩

end TriggerLatency
