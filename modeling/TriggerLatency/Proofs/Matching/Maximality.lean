import TriggerLatency.Proofs.Matching.ArrivalOrder

/-!
# At least half of what is possible

On events in any order a matching run may make fewer pairs than there could be, since a send
keeps what it takes although a later one has nothing else. But the run is maximal: whatever
fits a send that goes without was taken by an earlier send (`Choice.IsGreedy.isMaximal`). So it
makes at least half as many pairs as any matching does (`pair_at_least_half`).

For the half, each pair of the other matching is charged to a pair of the run: to that of its
send, if the run serves this send, and else to the one that has its slot. No pair of the run is
charged more than twice, once for its send and once for its slot.
-/

namespace TriggerLatency

section

variable {limit : LatencyLimit} {sends receives : List Event}

namespace Choice

variable {σ τ : Choice sends receives}

/-- Whatever fits a send without a slot is the slot of an earlier send. -/
def IsMaximal (limit : LatencyLimit) (σ : Choice sends receives) : Prop :=
  ∀ i j, σ i = none → Fits limit (sends.get i).timestamp (receives.get j).timestamp →
    ∃ k < i, σ k = some j

/-- The greedy choice leaves nothing that could be had. -/
theorem IsGreedy.isMaximal (h : σ.IsGreedy limit) : σ.IsMaximal limit := by
  intro i j hnone hfits
  have hno : ¬ ∃ j, σ.CanTake limit i j := by
    rw [← h.isSome_iff i, hnone]
    exact Bool.false_ne_true
  by_contra hfree
  exact hno ⟨j, fun k hk hkj => hfree ⟨k, hk, hkj⟩, hfits⟩

theorem mem_served_iff {i : Fin sends.length} : i ∈ σ.served ↔ ∃ j, σ i = some j := by
  rw [served, List.mem_filter, and_iff_right (List.mem_finRange i), Option.isSome_iff_exists]

theorem card_served (σ : Choice sends receives) : σ.served.toFinset.card = σ.served.length :=
  List.toFinset_card_of_nodup ((List.nodup_finRange _).filter _)

/-- The sends that only another matching serves are no more than those that a maximal choice
serves: their slots are all taken. -/
theorem IsMaximal.card_sdiff_le (hσ : σ.IsMaximal limit) (hτ : τ.IsMatching limit) :
    (τ.served.toFinset \ σ.served.toFinset).card ≤ σ.served.toFinset.card := by
  refine Finset.card_le_card_of_forall_subsingleton (fun i k => ∃ j, τ i = some j ∧ σ k = some j)
    ?_ ?_
  · intro i hi
    simp only [Finset.mem_sdiff, List.mem_toFinset, mem_served_iff] at hi
    obtain ⟨⟨j, hj⟩, hnot⟩ := hi
    have hnone : σ i = none := Option.eq_none_iff_forall_ne_some.mpr fun j' hj' => hnot ⟨j', hj'⟩
    obtain ⟨k, -, hk⟩ := hσ i j hnone (hτ.fits i j hj)
    exact ⟨k, List.mem_toFinset.mpr (mem_served_iff.mpr ⟨j, hk⟩), j, hj, hk⟩
  · -- who is charged for a slot is charged by the one send that has it in the other matching
    rintro k - i ⟨-, j, hi, hk⟩ i' ⟨-, j', hi', hk'⟩
    obtain rfl : j = j' := Option.some.inj (hk.symm.trans hk')
    exact hτ.injective i i' j hi hi'

/-- No matching has more than twice as many pairs as a maximal choice. -/
theorem IsMaximal.length_served_le (hσ : σ.IsMaximal limit) (hτ : τ.IsMatching limit) :
    τ.served.length ≤ 2 * σ.served.length := by
  calc τ.served.length
    _ = τ.served.toFinset.card := τ.card_served.symm
    _ ≤ (τ.served.toFinset \ σ.served.toFinset).card + σ.served.toFinset.card :=
      Finset.card_le_card_sdiff_add_card
    _ ≤ σ.served.toFinset.card + σ.served.toFinset.card :=
      Nat.add_le_add_right (hσ.card_sdiff_le hτ) _
    _ = 2 * σ.served.length := by rw [card_served, two_mul]

end Choice

/-- What the sends of a matching run take is a greedy choice. -/
theorem exists_greedy_follows_taken (limit : LatencyLimit)
    (hsends : ∀ e ∈ sends, e.timestamp.isFinite = true)
    (hreceives : ∀ e ∈ receives, e.timestamp.isFinite = true) :
    ∃ σ : Choice sends receives, σ.IsGreedy limit ∧ σ.Follows (taken limit sends receives) := by
  have hserves := serves_taken limit hsends hreceives
  obtain ⟨σ, hσ⟩ := exists_choice hserves
  exact ⟨σ, hσ.isGreedy (arena_ofTimes hreceives) hserves, hσ⟩

namespace Choice.Follows

variable {σ : Choice sends receives} {κ : Type} {o : Observer κ}

/-- A send that is left unmatched has no slot. -/
theorem exists_of_mem_unmatched (hσ : σ.Follows (taken limit sends receives)) {u : UnmatchedSend}
    (hu : u ∈ (pair limit sends receives o).value.unmatched) :
    ∃ i, i.val = u.index ∧ (sends.get i).timestamp = u.sendTime ∧ σ i = none := by
  obtain ⟨e, he, htaken, hu⟩ := mem_unmatched_pair_iff.mp hu
  obtain ⟨hlt, hget⟩ := List.getElem?_eq_some_iff.mp he
  refine ⟨⟨u.index, hlt⟩, rfl, ?_, ?_⟩
  · exact (congrArg (·.timestamp) hget).trans (congrArg (·.sendTime) hu).symm
  · rw [hσ ⟨u.index, hlt⟩, Option.some_inj] at htaken
    exact Option.map_eq_none_iff.mp htaken

/-- A slot that a send has is consumed by the measurement of that send. -/
theorem exists_consumes (hσ : σ.Follows (taken limit sends receives)) {i : Fin sends.length}
    {j : Fin receives.length} (hij : σ i = some j) :
    ∃ m ∈ (pair limit sends receives o).value.measurements, m.index = i.val
      ∧ m.Consumes limit sends receives (slotAt receives j) := by
  have htaken : (taken limit sends receives)[i.val]? = some (some (slotAt receives j)) := by
    rw [hσ i, hij, Option.map_some]
  refine ⟨Measurement.ofTimes i.val sends[i].timestamp (slotAt receives j).time, ?_, rfl, htaken,
    rfl⟩
  exact mem_measurements_pair_iff.mpr ⟨sends[i], _, List.getElem?_eq_getElem i.isLt, htaken, rfl⟩

end Choice.Follows

/-- Whatever receive event fits an unmatched send is consumed by the measurement of an earlier
send, and no matching of sends with receive slots has more than twice as many pairs as there are
measurements. -/
theorem pair_at_least_half {κ : Type} (limit : LatencyLimit) (sends receives : List Event)
    (hsends : ∀ e ∈ sends, e.timestamp.isFinite = true)
    (hreceives : ∀ e ∈ receives, e.timestamp.isFinite = true) (o : Observer κ) :
    (∀ u ∈ (pair limit sends receives o).value.unmatched, ∀ j : Fin receives.length,
      Fits limit u.sendTime (receives.get j).timestamp →
        ∃ m ∈ (pair limit sends receives o).value.measurements, m.index < u.index
          ∧ m.Consumes limit sends receives (slotAt receives j))
    ∧ ∀ τ : Choice sends receives, τ.IsMatching limit →
        τ.served.length ≤ 2 * (pair limit sends receives o).value.measurements.length := by
  obtain ⟨σ, hgreedy, hσ⟩ := exists_greedy_follows_taken limit hsends hreceives
  have hmaximal := hgreedy.isMaximal
  refine ⟨?_, ?_⟩
  · intro u hu j hfits
    obtain ⟨i, hi, htime, hnone⟩ := hσ.exists_of_mem_unmatched hu
    obtain ⟨k, hk, hkj⟩ := hmaximal i j hnone (htime ▸ hfits)
    obtain ⟨m, hm, hindex, hconsumes⟩ := hσ.exists_consumes hkj
    exact ⟨m, hm, hindex ▸ hi ▸ hk, hconsumes⟩
  · intro τ hτ
    rw [length_measurements_pair, ← hσ.length_served length_taken]
    exact hmaximal.length_served_le hτ

end

/-- The later send comes first and takes the only slot that the other reaches: one pair, where two
are possible. -/
theorem pair_at_least_half_of_rivals :
    let limit : LatencyLimit := ⟨7, by decide +kernel, by decide +kernel⟩
    let sends := [Event.mk 5 .send, ⟨0, .send⟩]
    let receives := [Event.mk 6 .receive, ⟨12, .receive⟩]
    let w := (pair limit sends receives Observer.silent).value
    let τ : Choice sends receives := ![some ⟨1, by decide⟩, some ⟨0, by decide⟩]
    (∀ e ∈ sends, e.timestamp.isFinite = true)
    ∧ (∀ e ∈ receives, e.timestamp.isFinite = true)
    ∧ w = ⟨[⟨0, 5, 6, 1⟩], [⟨1, 0⟩]⟩
    ∧ Fits limit 0 6
    ∧ (∃ m ∈ w.measurements, m.index < 1 ∧ m.Consumes limit sends receives ⟨0, 6⟩)
    ∧ τ.IsMatching limit
    ∧ τ.served.length = 2 * w.measurements.length
    ∧ τ.served.length ≤ 2 * w.measurements.length := by
  intro limit sends receives w τ
  have hsends : ∀ e ∈ sends, e.timestamp.isFinite = true := by decide +kernel
  have hreceives : ∀ e ∈ receives, e.timestamp.isFinite = true := by decide +kernel
  have hrun : w = ⟨[⟨0, 5, 6, 1⟩], [⟨1, 0⟩]⟩ := by decide +kernel
  have hfits : Fits limit 0 6 := by decide +kernel
  have hτ : τ.IsMatching limit := ⟨by decide +kernel, by decide +kernel⟩
  obtain ⟨hearlier, hhalf⟩ := pair_at_least_half limit sends receives hsends hreceives
    Observer.silent
  have hlost : UnmatchedSend.mk 1 0 ∈ w.unmatched := by
    rw [hrun]
    exact List.mem_cons_self ..
  have htwice : τ.served.length = 2 * w.measurements.length := by decide +kernel
  exact ⟨hsends, hreceives, hrun, hfits, hearlier _ hlost ⟨0, by decide⟩ hfits, hτ, htwice,
    hhalf τ hτ⟩

end TriggerLatency
