import TriggerLatency.Proofs.Matching.Outcome
import Mathlib.Data.List.Perm.Subperm

/-!
# A greater limit

Under a greater latency limit an early send may take a slot that a later send had before, so
single sends can lose their match. But no receive event goes back to being open: what is
consumed under a limit is consumed under every greater one, and so there are no fewer
measurements (`pair_mono_limit`).

The two runs make different choices. What carries the induction is that the slots open under
the greater limit are among those open under the lesser one (`serve_mono`, `assign_mono`): the
slot that is taken there is taken here too, unless it is gone already.
-/

namespace TriggerLatency

open Double

variable {limit limit' : LatencyLimit} {t : Float} {slots slots' : List Slot}

theorem Fits.of_limit_le {r : Float} (ht : t.isFinite = true) (hr : r.isFinite = true)
    (hle : limit.ms ≤ limit'.ms) (h : Fits limit t r) : Fits limit' t r := by
  have hlimit := isNaN_of_isFinite limit.finite
  have hlimit' := isNaN_of_isFinite limit'.finite
  exact ⟨h.1, float_le_trans (isNaN_float_sub hr ht) hlimit hlimit' h.2 hle⟩

/-- What fits only the greater limit is farther than what fits the lesser one. -/
theorem IsNearest.of_limit_le {b : Slot} (ht : t.isFinite = true) (ha : Arena slots)
    (hle : limit.ms ≤ limit'.ms) (h : IsNearest limit t slots b) : IsNearest limit' t slots b := by
  have hlimit := isNaN_of_isFinite limit.finite
  have hnan : ∀ s ∈ slots, (s.time - t).isNaN = false := fun s hs =>
    isNaN_float_sub (ha.finite s hs) ht
  refine ⟨h.mem, h.fits.of_limit_le ht (ha.finite b h.mem) hle, ?_, ?_⟩
  · intro s hs hfits
    by_cases hwithin : s.time - t ≤ limit.ms
    · exact h.least s hs ⟨hfits.1, hwithin⟩
    · have hbeyond := (float_not_le (hnan s hs) hlimit).mp hwithin
      exact float_le_trans (hnan b h.mem) hlimit (hnan s hs) h.fits.2
        (float_le_of_lt hlimit (hnan s hs) hbeyond)
  · intro s hs hfits hless
    -- as near as `b`, which is within the lesser limit
    have hwithin : s.time - t ≤ limit.ms :=
      float_le_trans (hnan s hs) (hnan b h.mem) hlimit hless h.fits.2
    exact h.first s hs ⟨hfits.1, hwithin⟩ hless

/-- One send: fewer open slots stay fewer. -/
theorem serve_mono (ht : t.isFinite = true) (ha : Arena slots) (ha' : Arena slots')
    (hle : limit.ms ≤ limit'.ms) (hsub : slots' ⊆ slots) :
    (serve limit' slots' t).2 ⊆ (serve limit slots t).2 := by
  intro s hs
  rw [mem_serve_iff ht ha'] at hs
  rw [mem_serve_iff ht ha]
  obtain ⟨hmem, hnot⟩ := hs
  refine ⟨hsub hmem, fun hnear => hnot ?_⟩
  exact (hnear.of_subset hsub hmem).of_limit_le ht ha' hle

/-- All sends: fewer open slots stay fewer. -/
theorem assign_mono {ts : List Float} (hts : ∀ t ∈ ts, t.isFinite = true)
    (hle : limit.ms ≤ limit'.ms) (ha : Arena slots) (ha' : Arena slots') (hsub : slots' ⊆ slots) :
    (assign limit' slots' ts).2 ⊆ (assign limit slots ts).2 := by
  induction ts generalizing slots slots' with
  | nil => exact hsub
  | cons t ts ih =>
    have ht := hts t (List.mem_cons_self ..)
    have hts' := fun u hu => hts u (List.mem_cons_of_mem t hu)
    rw [assign_cons, assign_cons]
    exact ih hts' (ha.sublist (serve_sublist t)) (ha'.sublist (serve_sublist t))
      (serve_mono ht ha ha' hle hsub)

/-- A greater limit consumes whatever receive events a lesser one consumes, makes no fewer
measurements, and lets a run succeed that succeeds under the lesser one. -/
theorem pair_mono_limit {κ : Type} {limit limit' : LatencyLimit} (hle : limit.ms ≤ limit'.ms)
    (sends receives : List Event) (hsends : ∀ e ∈ sends, e.timestamp.isFinite = true)
    (hreceives : ∀ e ∈ receives, e.timestamp.isFinite = true) (o : Observer κ) :
    (∀ j, Consumed limit sends receives j → Consumed limit' sends receives j)
    ∧ (pair limit sends receives o).value.measurements.length
      ≤ (pair limit' sends receives o).value.measurements.length
    ∧ ((∃ outcome, (match? limit sends receives o).value = .ok outcome) →
      ∃ outcome, (match? limit' sends receives o).value = .ok outcome) := by
  have ha := arena_ofTimes hreceives
  have hopen : leftOpen limit' sends receives ⊆ leftOpen limit sends receives :=
    assign_mono (by simpa using hsends) hle ha ha (List.Subset.refl _)
  -- fewer slots stay open, so more are consumed
  have hlength : (pair limit sends receives o).value.measurements.length
      ≤ (pair limit' sends receives o).value.measurements.length := by
    have hnodup : (leftOpen limit' sends receives).Nodup := (arena_leftOpen hreceives).nodup
    have hless := (hnodup.subperm hopen).length_le
    have hcount := countP_taken_add_length_leftOpen limit sends receives
    have hcount' := countP_taken_add_length_leftOpen limit' sends receives
    rw [length_measurements_pair, length_measurements_pair]
    omega
  refine ⟨?_, hlength, ?_⟩
  · intro j hj
    rw [consumed_iff hsends hreceives] at hj ⊢
    exact fun hmem => hj (hopen hmem)
  · rintro ⟨outcome, hok⟩
    obtain ⟨hne, hne', hsome, -⟩ := match?_eq_ok_iff.mp hok
    refine ⟨_, match?_eq_ok_iff.mpr ⟨hne, hne', ?_, rfl⟩⟩
    rw [← List.length_pos_iff] at hsome ⊢
    omega

/-- Two sends, and a receive slot that only the second reaches: under the greater limit the first
send takes it, and the second is left without. -/
theorem pair_mono_limit_of_rivals :
    (1 : Float) ≤ 2
    ∧ (∀ e ∈ [Event.mk 0 .send, ⟨1, .send⟩], e.timestamp.isFinite = true)
    ∧ (∀ e ∈ [Event.mk 9 .receive, ⟨1.5, .receive⟩], e.timestamp.isFinite = true)
    ∧ Consumed ⟨2, by decide +kernel, by decide +kernel⟩ [⟨0, .send⟩, ⟨1, .send⟩]
      [⟨9, .receive⟩, ⟨1.5, .receive⟩] ⟨1, by decide⟩
    ∧ 1 ≤ (pair ⟨2, by decide +kernel, by decide +kernel⟩ [⟨0, .send⟩, ⟨1, .send⟩]
      [⟨9, .receive⟩, ⟨1.5, .receive⟩] Observer.silent).value.measurements.length
    ∧ ∃ outcome, (match? ⟨2, by decide +kernel, by decide +kernel⟩ [⟨0, .send⟩, ⟨1, .send⟩]
      [⟨9, .receive⟩, ⟨1.5, .receive⟩] Observer.silent).value = .ok outcome := by
  have hle : (1 : Float) ≤ 2 := by decide +kernel
  have hsends : ∀ e ∈ [Event.mk 0 .send, ⟨1, .send⟩], e.timestamp.isFinite = true := by
    decide +kernel
  have hreceives : ∀ e ∈ [Event.mk 9 .receive, ⟨1.5, .receive⟩],
      e.timestamp.isFinite = true := by
    decide +kernel
  obtain ⟨hconsumed, hlength, hsucceeds⟩ := @pair_mono_limit _
    ⟨1, by decide +kernel, by decide +kernel⟩ ⟨2, by decide +kernel, by decide +kernel⟩ hle _ _
    hsends hreceives Observer.silent
  have hslot : Consumed ⟨1, by decide +kernel, by decide +kernel⟩ [⟨0, .send⟩, ⟨1, .send⟩]
      [⟨9, .receive⟩, ⟨1.5, .receive⟩] ⟨1, by decide⟩ := by
    unfold Consumed
    decide +kernel
  have hrun : (match? ⟨1, by decide +kernel, by decide +kernel⟩ [⟨0, .send⟩, ⟨1, .send⟩]
      [⟨9, .receive⟩, ⟨1.5, .receive⟩] Observer.silent).value
        = .ok ⟨[⟨1, 1, 1.5, 0.5⟩], [⟨0, 0⟩]⟩ := by
    decide +kernel
  obtain ⟨-, -, -, hpair⟩ := match?_eq_ok_iff.mp hrun
  rw [hpair] at hlength
  exact ⟨hle, hsends, hreceives, hconsumed _ hslot, hlength, hsucceeds ⟨_, hrun⟩⟩

end TriggerLatency
