import TriggerLatency.Proofs.Matching.Outcome
import Mathlib.Data.List.Perm.Basic

/-!
# The latencies of a run are the least

Of all ways to give receive slots to sends, a matching run takes the one whose latencies, in
send order and with an infinite one for a send that goes without, come first
lexicographically (`pair_lexMin`). So the first send is served as well as it can be, the
second as well as it can be after that, and so on.

This needs that slots which are equally near to a send are at the same time
(`TiesCoincide`): it does not matter then which of them is taken. What two assignments are
compared by is therefore not the slots that they leave but the times of these, as often as
they occur. As long as both serve their sends equally well, these are the same
(`Serves.eq_or_lt_of_deals`). A run sees nothing but times either, so the order of the
receive events does not matter to it.
-/

namespace TriggerLatency

open Double

/-! ## Latencies in send order -/

/-- The latency of a send that gets a receive time, or gets none. -/
def latencyOrInfinity (sendTime : Float) : Option Float → Float
  | some receiveTime => receiveTime - sendTime
  | none => infinity

/-- The latencies of sends that get some receive times. -/
def delays (sendTimes : List Float) (given : List (Option Float)) : List Float :=
  List.zipWith latencyOrInfinity sendTimes given

/-- Receive events that fit a send and are equally near to it are at the same time, bit for bit. -/
def TiesCoincide (limit : LatencyLimit) (sends receives : List Event) : Prop :=
  ∀ s ∈ sends, ∀ r ∈ receives, ∀ r' ∈ receives,
    Fits limit s.timestamp r.timestamp → Fits limit s.timestamp r'.timestamp →
    r.timestamp - s.timestamp = r'.timestamp - s.timestamp → r.timestamp = r'.timestamp

instance (limit : LatencyLimit) (sends receives : List Event) :
    Decidable (TiesCoincide limit sends receives) :=
  inferInstanceAs (Decidable (∀ s ∈ sends, _))

/-- Some receive times are dealt out to sends: each gets one that fits it and that nobody before
it has, or none. -/
inductive Deals (limit : LatencyLimit) : List Float → List Float → List (Option Float) → Prop
  | done (rs : List Float) : Deals limit rs [] []
  | give {rs rest : List Float} {t r : Float} {ts : List Float} {given : List (Option Float)} :
      rs.Perm (r :: rest) → Fits limit t r → Deals limit rest ts given →
        Deals limit rs (t :: ts) (some r :: given)
  | skip {rs : List Float} {t : Float} {ts : List Float} {given : List (Option Float)} :
      Deals limit rs ts given → Deals limit rs (t :: ts) (none :: given)

section

variable {limit : LatencyLimit} {t : Float} {slots : List Slot} {b : Slot}

/-- Equal latencies are equal bits, since none of them is zero. -/
theorem latency_eq_of_le {r r' : Float} (ht : t.isFinite = true) (hr : r.isFinite = true)
    (hr' : r'.isFinite = true) (hlater : t < r) (h : r - t ≤ r' - t) (h' : r' - t ≤ r - t) :
    r - t = r' - t := by
  have hnan := isNaN_float_sub hr ht
  have hnan' := isNaN_float_sub hr' ht
  have hpos := (lt_iff_grains (by decide +kernel) hnan).mp (zero_lt_sub ht hr hlater)
  rw [grains_zero] at hpos
  rw [le_iff_grains hnan hnan'] at h
  rw [le_iff_grains hnan' hnan] at h'
  exact float_eq_of_grains_eq hnan hnan' hpos (le_antisymm h h')

/-- The latency of a send that is served is less than that of one that is not. -/
theorem Fits.lt_infinity {r : Float} (ht : t.isFinite = true) (hr : r.isFinite = true)
    (h : Fits limit t r) : r - t < infinity := by
  have hnan := isNaN_float_sub hr ht
  have hlimit := isNaN_of_isFinite limit.finite
  have hle := (le_iff_grains hnan hlimit).mp h.2
  have hlt := (lt_iff_grains hlimit isNaN_infinity).mp (Double.lt_infinity limit.finite)
  exact (lt_iff_grains hnan isNaN_infinity).mpr (hle.trans_lt hlt)

/-- Closing a slot takes its time from the times that are open, once. -/
theorem perm_times_close (ha : Arena slots) (hb : b ∈ slots) :
    (slots.map (·.time)).Perm (b.time :: (close b slots).map (·.time)) := by
  have hnot : b ∉ close b slots := fun h => ((ha.mem_close_iff hb).mp h).2 rfl
  have hslots : slots.Perm (b :: close b slots) := by
    rw [List.perm_ext_iff_of_nodup ha.nodup (List.nodup_cons.mpr ⟨hnot, (ha.close b).nodup⟩)]
    intro s
    rw [List.mem_cons, ha.mem_close_iff hb]
    by_cases heq : s = b
    · simp [heq, hb]
    · simp [heq]
  exact hslots.map _

variable {ts : List Float} {os : List (Option Slot)}

/-- A run deals out the times of its slots. -/
theorem Serves.deals (h : Serves limit slots ts os) (ha : Arena slots) :
    Deals limit (slots.map (·.time)) ts (os.map (Option.map (·.time))) := by
  induction h with
  | done => exact Deals.done _
  | @take slots t b ts os hnear _ ih =>
    exact Deals.give (perm_times_close ha hnear.mem) hnear.fits (ih (ha.close b))
  | pass _ _ ih => exact Deals.skip (ih ha)

/-- Whatever else is made of the same receive times, a run makes the same of them, or its
latencies come first. -/
theorem Serves.eq_or_lt_of_deals (h : Serves limit slots ts os) (ha : Arena slots)
    (hts : ∀ t ∈ ts, t.isFinite = true)
    (hties : ∀ t ∈ ts, ∀ s ∈ slots, ∀ s' ∈ slots, Fits limit t s.time → Fits limit t s'.time →
      s.time - t = s'.time - t → s.time = s'.time)
    {rs : List Float} {given : List (Option Float)} (hsame : rs.Perm (slots.map (·.time)))
    (hdeals : Deals limit rs ts given) :
    os.map (Option.map (·.time)) = given
      ∨ delays ts (os.map (Option.map (·.time))) < delays ts given := by
  induction h generalizing rs given with
  | done =>
    cases hdeals
    exact Or.inl rfl
  | @take slots t b ts os hnear _ ih =>
    have ht := hts t (List.mem_cons_self ..)
    have hbfin := ha.finite b hnear.mem
    cases hdeals with
    | skip _ =>
      -- a send that could be served goes without
      exact Or.inr (List.Lex.rel (hnear.fits.lt_infinity ht hbfin))
    | @give _ rest _ r _ given hr hfits hrest =>
      obtain ⟨s, hs, rfl⟩ := List.mem_map.mp (hsame.subset (hr.symm.subset (List.mem_cons_self ..)))
      have hsfin := ha.finite s hs
      have hleast := hnear.least s hs hfits
      by_cases hle : s.time - t ≤ b.time - t
      · -- equally near, so at the same time: the times that are left are the same as well
        have hlatency := latency_eq_of_le ht hbfin hsfin hnear.fits.1 hleast hle
        have htime : b.time = s.time :=
          hties t (List.mem_cons_self ..) b hnear.mem s hs hnear.fits hfits hlatency
        have hleft : rest.Perm ((close b slots).map (·.time)) := by
          have hall := hr.symm.trans (hsame.trans (perm_times_close ha hnear.mem))
          rw [htime] at hall
          exact hall.cons_inv
        have hties' : ∀ u ∈ ts, ∀ s ∈ close b slots, ∀ s' ∈ close b slots, Fits limit u s.time →
            Fits limit u s'.time → s.time - u = s'.time - u → s.time = s'.time :=
          fun u hu s hs s' hs' => hties u (List.mem_cons_of_mem t hu) s (List.mem_of_mem_filter hs)
            s' (List.mem_of_mem_filter hs')
        have hts' : ∀ u ∈ _, _ := fun u hu => hts u (List.mem_cons_of_mem t hu)
        rcases ih (ha.close b) hts' hties' hleft hrest with heq | hlt
        · exact Or.inl (congrArg₂ List.cons (congrArg some htime) heq)
        · right
          show List.Lex _ ((b.time - t) :: _) ((s.time - t) :: _)
          rw [htime]
          exact List.Lex.cons hlt
      · -- nearer
        have hlt := (float_not_le (isNaN_float_sub hsfin ht) (isNaN_float_sub hbfin ht)).mp hle
        exact Or.inr (List.Lex.rel hlt)
  | @pass slots t ts os hall _ ih =>
    cases hdeals with
    | give hr hfits _ =>
      -- what fits the send is not among the times that are open
      obtain ⟨s, hs, rfl⟩ := List.mem_map.mp (hsame.subset (hr.symm.subset (List.mem_cons_self ..)))
      exact absurd hfits (hall s hs)
    | skip hrest =>
      rcases ih ha (fun u hu => hts u (List.mem_cons_of_mem t hu))
        (fun u hu => hties u (List.mem_cons_of_mem t hu)) hsame hrest with heq | hlt
      · exact Or.inl (congrArg (List.cons none) heq)
      · exact Or.inr (List.Lex.cons hlt)

end

/-! ## Choices -/

section

variable {limit : LatencyLimit} {sends receives : List Event}

namespace Choice

/-- The receive time of each send, if it has a slot. -/
def receiveTimes (σ : Choice sends receives) : List (Option Float) :=
  (List.finRange sends.length).map fun i => (σ i).map fun j => (receives.get j).timestamp

/-- The latency of each send in send order, infinite if it has no slot. -/
def latencies (σ : Choice sends receives) : List Float :=
  (List.finRange sends.length).map fun i =>
    match σ i with
    | some j => latency sends receives i j
    | none => infinity

theorem delays_receiveTimes (σ : Choice sends receives) :
    delays (sends.map (·.timestamp)) σ.receiveTimes = σ.latencies := by
  unfold delays receiveTimes latencies
  refine List.ext_getElem (by simp) ?_
  intro i hi _
  have hin : i < sends.length := by simpa using hi
  cases h : σ ⟨i, hin⟩ <;> simp [h, latencyOrInfinity, latency]

theorem Follows.receiveTimes_eq {σ : Choice sends receives} {os : List (Option Slot)}
    (hσ : σ.Follows os) (hlen : os.length = sends.length) :
    os.map (Option.map (·.time)) = σ.receiveTimes := by
  rw [hσ.eq_map hlen, List.map_map]
  refine List.map_congr_left fun i _ => ?_
  rw [Function.comp_apply, Option.map_map]
  rfl

/-- A matching deals out receive times: to some sends, from slots that are theirs. -/
theorem IsMatching.deals {σ : Choice sends receives} (h : σ.IsMatching limit)
    {is : List (Fin sends.length)} (hnodup : is.Nodup) {js : List (Fin receives.length)}
    (hfree : ∀ i ∈ is, ∀ j, σ i = some j → j ∈ js) :
    Deals limit (js.map fun j => (receives.get j).timestamp)
      (is.map fun i => (sends.get i).timestamp)
      (is.map fun i => (σ i).map fun j => (receives.get j).timestamp) := by
  induction is generalizing js with
  | nil => exact Deals.done _
  | cons i is ih =>
    obtain ⟨hi, hnodup'⟩ := List.nodup_cons.mp hnodup
    rw [List.map_cons, List.map_cons]
    cases hj : σ i with
    | none => exact Deals.skip (ih hnodup' fun k hk => hfree k (List.mem_cons_of_mem i hk))
    | some j =>
      have hjs := hfree i (List.mem_cons_self ..) j hj
      refine Deals.give ((List.perm_cons_erase hjs).map _) (h.fits i j hj) (ih hnodup' ?_)
      -- the later sends have other slots
      intro k hk j' hj'
      have hne : j' ≠ j := by
        rintro rfl
        exact hi (h.injective i k j' hj hj' ▸ hk)
      exact (List.mem_erase_of_ne hne).mpr (hfree k (List.mem_cons_of_mem i hk) j' hj')

/-- A matching deals out the times of the receive events. -/
theorem IsMatching.deals_all {σ : Choice sends receives} (h : σ.IsMatching limit) :
    Deals limit (receives.map (·.timestamp)) (sends.map (·.timestamp)) σ.receiveTimes := by
  have hdeals := h.deals (List.nodup_finRange _) fun _ _ j _ => List.mem_finRange j
  have hall : ∀ l : List Event, (List.finRange l.length).map (fun i => (l.get i).timestamp)
      = l.map (·.timestamp) := fun l => List.ext_getElem (by simp) fun i _ _ => by simp
  rwa [hall, hall] at hdeals

end Choice

theorem times_ofTimes (receives : List Event) :
    (Slot.ofTimes (receives.map (·.timestamp))).map (·.time) = receives.map (·.timestamp) := by
  rw [Slot.ofTimes, List.map_map]
  exact List.zipIdx_map_fst ..

/-- Slots that are equally near to a send are at the same time if the events are. -/
theorem TiesCoincide.slots (hties : TiesCoincide limit sends receives) :
    ∀ t ∈ sends.map (·.timestamp), ∀ s ∈ Slot.ofTimes (receives.map (·.timestamp)),
      ∀ s' ∈ Slot.ofTimes (receives.map (·.timestamp)), Fits limit t s.time →
      Fits limit t s'.time → s.time - t = s'.time - t → s.time = s'.time := by
  rw [List.forall_mem_map]
  intro e he s hs s' hs'
  obtain ⟨j, rfl⟩ := mem_ofTimes_iff.mp hs
  obtain ⟨j', rfl⟩ := mem_ofTimes_iff.mp hs'
  exact hties e he _ (List.getElem_mem j.isLt) _ (List.getElem_mem j'.isLt)

/-- What a run over finite times hands out to its sends, it deals out. -/
theorem deals_receiveTimesOf (limit : LatencyLimit)
    (hsends : ∀ e ∈ sends, e.timestamp.isFinite = true)
    (hreceives : ∀ e ∈ receives, e.timestamp.isFinite = true) :
    Deals limit (receives.map (·.timestamp)) (sends.map (·.timestamp))
      (receiveTimesOf limit sends receives) := by
  have hdeals := (serves_taken limit hsends hreceives).deals (arena_ofTimes hreceives)
  rwa [times_ofTimes] at hdeals

/-- Whatever else is made of the times of the receive events, a run makes the same of them, or
its latencies come first. -/
theorem TiesCoincide.eq_or_lt_of_deals (hties : TiesCoincide limit sends receives)
    (hsends : ∀ e ∈ sends, e.timestamp.isFinite = true)
    (hreceives : ∀ e ∈ receives, e.timestamp.isFinite = true) {os : List (Option Slot)}
    (hserves : Serves limit (Slot.ofTimes (receives.map (·.timestamp)))
      (sends.map (·.timestamp)) os)
    {rs : List Float} {given : List (Option Float)} (hsame : rs.Perm (receives.map (·.timestamp)))
    (hdeals : Deals limit rs (sends.map (·.timestamp)) given) :
    os.map (Option.map (·.time)) = given
      ∨ delays (sends.map (·.timestamp)) (os.map (Option.map (·.time)))
        < delays (sends.map (·.timestamp)) given := by
  refine hserves.eq_or_lt_of_deals (arena_ofTimes hreceives) (by simpa using hsends) hties.slots ?_
    hdeals
  rwa [times_ofTimes]

/-- The order of the receive events does not matter to what a run hands out. -/
theorem receiveTimesOf_perm {receives' : List Event}
    (hsends : ∀ e ∈ sends, e.timestamp.isFinite = true)
    (hreceives : ∀ e ∈ receives, e.timestamp.isFinite = true)
    (hties : TiesCoincide limit sends receives) (hperm : receives'.Perm receives) :
    receiveTimesOf limit sends receives' = receiveTimesOf limit sends receives := by
  have hreceives' : ∀ e ∈ receives', e.timestamp.isFinite = true :=
    fun e he => hreceives e (hperm.subset he)
  have hties' : TiesCoincide limit sends receives' :=
    fun s hs r hr r' hr' => hties s hs r (hperm.subset hr) r' (hperm.subset hr')
  have hserves := serves_taken limit hsends hreceives
  have hserves' := serves_taken limit hsends hreceives'
  -- each run is one way to deal out the times of the other
  rcases hties'.eq_or_lt_of_deals hsends hreceives' hserves' (hperm.symm.map _)
    (deals_receiveTimesOf limit hsends hreceives) with heq | hlt
  · exact heq
  · rcases hties.eq_or_lt_of_deals hsends hreceives hserves (hperm.map _)
      (deals_receiveTimesOf limit hsends hreceives') with heq | hgt
    · exact heq.symm
    · exact absurd hgt (List.lt_asymm hlt)

/-- Of all matchings of sends with receive slots, a matching run makes the one whose latencies in
send order come first; and the order of the receive events does not matter to it. -/
theorem pair_lexMin {κ : Type} (limit : LatencyLimit) (sends receives : List Event)
    (hsends : ∀ e ∈ sends, e.timestamp.isFinite = true)
    (hreceives : ∀ e ∈ receives, e.timestamp.isFinite = true)
    (hties : TiesCoincide limit sends receives) (o : Observer κ) :
    (∃ σ : Choice sends receives, σ.IsMatching limit
      ∧ (pair limit sends receives o).value = ⟨σ.measurements, σ.unmatched⟩
      ∧ ∀ τ : Choice sends receives, τ.IsMatching limit →
        σ.latencies = τ.latencies ∨ σ.latencies < τ.latencies)
    ∧ ∀ receives' : List Event, receives'.Perm receives →
      (pair limit sends receives' o).value = (pair limit sends receives o).value := by
  refine ⟨?_, ?_⟩
  · obtain ⟨σ, os, hserves, hσ, hvalue⟩ := pair_follows limit hsends hreceives o
    have hlen : os.length = sends.length := by simpa using hserves.length_eq
    refine ⟨σ, (hσ.isGreedy (arena_ofTimes hreceives) hserves).isMatching, hvalue, ?_⟩
    intro τ hτ
    rw [← σ.delays_receiveTimes, ← τ.delays_receiveTimes, ← hσ.receiveTimes_eq hlen]
    rcases hties.eq_or_lt_of_deals hsends hreceives hserves (List.Perm.refl _) hτ.deals_all with
      heq | hlt
    · exact Or.inl (congrArg _ heq)
    · exact Or.inr hlt
  · intro receives' hperm
    rw [value_pair, value_pair, receiveTimesOf_perm hsends hreceives hties hperm]

end

/-- Two of the slots are at the same time and equally near to the first send; one of them is left
to the second, and the fourth finds nothing. -/
theorem pair_lexMin_of_twin_slots :
    let limit : LatencyLimit := ⟨8, by decide +kernel, by decide +kernel⟩
    let sends := [Event.mk 0 .send, ⟨1, .send⟩, ⟨4, .send⟩, ⟨6, .send⟩]
    let receives := [Event.mk 5 .receive, ⟨2, .receive⟩, ⟨2, .receive⟩]
    let w : MatchOutcome := ⟨[⟨0, 0, 2, 2⟩, ⟨1, 1, 2, 1⟩, ⟨2, 4, 5, 1⟩], [⟨3, 6⟩]⟩
    (∀ e ∈ sends, e.timestamp.isFinite = true)
    ∧ (∀ e ∈ receives, e.timestamp.isFinite = true)
    ∧ TiesCoincide limit sends receives
    ∧ (∃ σ : Choice sends receives, σ.IsMatching limit ∧ w = ⟨σ.measurements, σ.unmatched⟩
      ∧ ∀ τ : Choice sends receives, τ.IsMatching limit →
        σ.latencies = τ.latencies ∨ σ.latencies < τ.latencies)
    ∧ ∀ receives' : List Event, receives'.Perm receives →
      (pair limit sends receives' Observer.silent).value = w := by
  intro limit sends receives w
  have hsends : ∀ e ∈ sends, e.timestamp.isFinite = true := by decide +kernel
  have hreceives : ∀ e ∈ receives, e.timestamp.isFinite = true := by decide +kernel
  have hties : TiesCoincide limit sends receives := by decide +kernel
  have hleast := pair_lexMin limit sends receives hsends hreceives hties Observer.silent
  have hrun : (pair limit sends receives Observer.silent).value = w := by decide +kernel
  rw [hrun] at hleast
  exact ⟨hsends, hreceives, hties, hleast⟩

end TriggerLatency
