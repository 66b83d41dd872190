import TriggerLatency.Proofs.Matching.Outcome

/-!
# First in, first out

On time-ordered events no two pairs of a matching run cross: the slots that its sends take
stand in the order of the sends (`Serves.pairwise_position`), and so do the receive times of
the measurements (`pair_first_in_first_out`).

The scan of a send knows nothing of order. What makes it so is a step lemma: a slot in front
of the one that a send takes fits no later send (`IsNearest.position_lt`). If it did, it would
have fitted the earlier send as well, and with no more latency, since subtraction is monotone;
of two such slots the matcher takes the one in front.
-/

namespace TriggerLatency

open Double

section

variable {limit : LatencyLimit} {slots : List Slot}

/-- Whatever else fits a later send stands behind the slot that an earlier send takes. -/
theorem IsNearest.position_lt {t u : Float} {b c : Slot} (ht : t.isFinite = true)
    (hu : u.isFinite = true) (htu : t ≤ u) (ha : Arena slots) (horder : InTimeOrder slots)
    (h : IsNearest limit t slots b) (hc : c ∈ slots) (hne : c ≠ b)
    (hfits : Fits limit u c.time) : b.position < c.position := by
  have hbfin := ha.finite b h.mem
  have hcfin := ha.finite c hc
  rcases lt_trichotomy b.position c.position with hlt | heq | hgt
  · exact hlt
  · exact absurd (ha.eq_of_position hc h.mem heq.symm) hne
  · -- a slot in front of `b` is as near to the earlier send as `b`
    have hlatency : c.time - t ≤ b.time - t :=
      Double.sub_le_sub_right hcfin hbfin ht (horder c hc b h.mem hgt)
    have hafter : t < c.time := by
      have hle := (le_iff_grains (isNaN_of_isFinite ht) (isNaN_of_isFinite hu)).mp htu
      have hlt := (lt_iff_grains (isNaN_of_isFinite hu) (isNaN_of_isFinite hcfin)).mp hfits.1
      exact (lt_iff_grains (isNaN_of_isFinite ht) (isNaN_of_isFinite hcfin)).mpr (by omega)
    have hwithin : c.time - t ≤ limit.ms :=
      float_le_trans (isNaN_float_sub hcfin ht) (isNaN_float_sub hbfin ht)
        (isNaN_of_isFinite limit.finite) hlatency h.fits.2
    exact absurd (h.first c hc ⟨hafter, hwithin⟩ hlatency) (Nat.not_le.mpr hgt)

namespace Serves

variable {ts : List Float} {os : List (Option Slot)}

/-- A slot that is taken fits one of the sends. -/
theorem exists_fits (h : Serves limit slots ts os) {b : Slot} (hb : some b ∈ os) :
    ∃ t ∈ ts, Fits limit t b.time := by
  induction h with
  | done => exact absurd hb List.not_mem_nil
  | @take slots t c ts os hnear _ ih =>
    rcases List.mem_cons.mp hb with heq | hlater
    · obtain rfl := Option.some.inj heq
      exact ⟨t, List.mem_cons_self .., hnear.fits⟩
    · obtain ⟨u, hu, hfits⟩ := ih hlater
      exact ⟨u, List.mem_cons_of_mem t hu, hfits⟩
  | @pass slots t ts os _ _ ih =>
    obtain ⟨u, hu, hfits⟩ := ih ((List.mem_cons.mp hb).resolve_left (Option.some_ne_none b))
    exact ⟨u, List.mem_cons_of_mem t hu, hfits⟩

/-- On time-ordered sends and slots, the slots that are taken stand in the order of the sends. -/
theorem pairwise_position (h : Serves limit slots ts os) (ha : Arena slots)
    (horder : InTimeOrder slots) (hts : ∀ t ∈ ts, t.isFinite = true)
    (hsorted : ts.Pairwise (· ≤ ·)) :
    os.reduceOption.Pairwise fun a b => a.position < b.position := by
  induction h with
  | done => exact List.Pairwise.nil
  | @take slots t b ts os hnear hrest ih =>
    have ht := hts t (List.mem_cons_self ..)
    have hts' := fun u hu => hts u (List.mem_cons_of_mem t hu)
    obtain ⟨hfirst, hsorted'⟩ := List.pairwise_cons.mp hsorted
    rw [List.reduceOption_cons_of_some]
    refine List.pairwise_cons.mpr ⟨?_, ih (ha.close b) (horder.close b) hts' hsorted'⟩
    intro c hc
    have hc : some c ∈ os := List.reduceOption_mem_iff.mp hc
    -- `c` is open once `b` is closed, and fits one of the later sends
    obtain ⟨hmem, hne⟩ := (ha.mem_close_iff hnear.mem).mp (hrest.mem_of_some hc)
    obtain ⟨u, hu, hfits⟩ := hrest.exists_fits hc
    exact hnear.position_lt ht (hts' u hu) (hfirst u hu) ha horder hmem hne hfits
  | @pass slots t ts os _ _ ih =>
    have hts' := fun u hu => hts u (List.mem_cons_of_mem t hu)
    rw [List.reduceOption_cons_of_none]
    exact ih ha horder hts' (List.pairwise_cons.mp hsorted).2

end Serves

end

section

variable {κ : Type} {limit : LatencyLimit} {sends receives : List Event} {o : Observer κ}

/-- The receive slots that a matching run consumes, in the order of its measurements. -/
def consumedSlots (limit : LatencyLimit) (sends receives : List Event) : List Slot :=
  (taken limit sends receives).reduceOption

/-- The measurement `m` consumes the slot `s`: its send takes that slot, at that time. -/
def Measurement.Consumes (limit : LatencyLimit) (sends receives : List Event) (m : Measurement)
    (s : Slot) : Prop :=
  (taken limit sends receives)[m.index]? = some (some s) ∧ m.receiveTime = s.time

/-- Each measurement consumes one slot. -/
theorem forall₂_consumes :
    List.Forall₂ (Measurement.Consumes limit sends receives)
      (pair limit sends receives o).value.measurements (consumedSlots limit sends receives) := by
  -- both lists are read off the sends with the slots that they take
  let answers := ((sends.map (·.timestamp)).zip (taken limit sends receives)).zipIdx
  have hslots : consumedSlots limit sends receives = answers.filterMap fun v => v.1.2 := by
    have htaken : taken limit sends receives = answers.map fun v => v.1.2 := by
      show _ = answers.map (Prod.snd ∘ Prod.fst)
      rw [← List.map_map, List.zipIdx_map_fst, List.map_snd_zip (by simp)]
    rw [consumedSlots, htaken, List.reduceOption, List.filterMap_map]
    rfl
  have hmeasurements : (pair limit sends receives o).value.measurements
      = answers.filterMap fun v => v.1.2.map fun s => Measurement.ofTimes v.2 v.1.1 s.time := by
    show (answers.map fun v => Verdict.ofSlot v.2 v.1.1 v.1.2).filterMap Verdict.measurement? = _
    rw [List.filterMap_map]
    refine List.filterMap_congr ?_
    intro v _
    obtain ⟨⟨t, b⟩, i⟩ := v
    cases b <;> rfl
  have hsame : List.Forall₂ (fun v w => v = w ∧ v ∈ answers) answers answers :=
    List.forall₂_same.mpr fun v hv => ⟨rfl, hv⟩
  rw [hmeasurements, hslots]
  refine List.rel_filterMap ?_ hsame
  intro v w hvw
  obtain ⟨rfl, hv⟩ := hvw
  obtain ⟨⟨t, b⟩, i⟩ := v
  cases b with
  | none => exact Option.Rel.none
  | some s =>
    have hi := (List.getElem?_zip_eq_some.mp (List.mem_zipIdx_iff_getElem?.mp hv)).2
    exact Option.Rel.some ⟨hi, rfl⟩

/-- The receive times of the measurements are the times of the consumed slots. -/
theorem map_receiveTime :
    (pair limit sends receives o).value.measurements.map (·.receiveTime)
      = (consumedSlots limit sends receives).map (·.time) := by
  rw [← List.forall₂_eq_eq_eq, List.forall₂_map_left_iff, List.forall₂_map_right_iff]
  exact forall₂_consumes.imp fun _ _ h => h.2

/-- The slots that a run consumes are slots of receive events. -/
theorem exists_of_mem_consumedSlots (hsends : ∀ e ∈ sends, e.timestamp.isFinite = true)
    (hreceives : ∀ e ∈ receives, e.timestamp.isFinite = true) {s : Slot}
    (hs : s ∈ consumedSlots limit sends receives) : ∃ j, s = slotAt receives j := by
  have hs : some s ∈ taken limit sends receives := List.reduceOption_mem_iff.mp hs
  exact mem_ofTimes_iff.mp ((serves_taken limit hsends hreceives).mem_of_some hs)

/-- Receive times that go up with the slots go up with the measurements. -/
theorem pairwise_receiveTime {r : Float → Float → Prop}
    (hsends : ∀ e ∈ sends, e.timestamp.isFinite = true)
    (hreceives : ∀ e ∈ receives, e.timestamp.isFinite = true)
    (hpositions : (consumedSlots limit sends receives).Pairwise fun a b => a.position < b.position)
    (hsorted : receives.Pairwise fun a b => r a.timestamp b.timestamp) :
    (pair limit sends receives o).value.measurements.Pairwise fun m m' =>
      r m.receiveTime m'.receiveTime := by
  rw [← List.pairwise_map (R := r), map_receiveTime, List.pairwise_map]
  refine hpositions.imp_of_mem ?_
  intro a b ha hb hlt
  obtain ⟨j, rfl⟩ := exists_of_mem_consumedSlots hsends hreceives ha
  obtain ⟨k, rfl⟩ := exists_of_mem_consumedSlots hsends hreceives hb
  exact List.pairwise_iff_getElem.mp hsorted j k j.isLt k.isLt hlt

end

/-- On time-ordered events a matching run is first in, first out: its successive measurements
consume receive slots of strictly increasing position, so their receive times never decrease, and
increase if those of the receive events do. -/
theorem pair_first_in_first_out {κ : Type} (limit : LatencyLimit) (sends receives : List Event)
    (hsends : ∀ e ∈ sends, e.timestamp.isFinite = true)
    (hreceives : ∀ e ∈ receives, e.timestamp.isFinite = true)
    (hsorted : sends.Pairwise fun a b => a.timestamp ≤ b.timestamp)
    (hsorted' : receives.Pairwise fun a b => a.timestamp ≤ b.timestamp) (o : Observer κ) :
    List.Forall₂ (Measurement.Consumes limit sends receives)
      (pair limit sends receives o).value.measurements (consumedSlots limit sends receives)
    ∧ ((consumedSlots limit sends receives).Pairwise fun a b => a.position < b.position)
    ∧ ((pair limit sends receives o).value.measurements.Pairwise fun m m' =>
      m.receiveTime ≤ m'.receiveTime)
    ∧ ((receives.Pairwise fun a b => a.timestamp < b.timestamp) →
      (pair limit sends receives o).value.measurements.Pairwise fun m m' =>
        m.receiveTime < m'.receiveTime) := by
  have hpositions : (consumedSlots limit sends receives).Pairwise fun a b =>
      a.position < b.position := by
    refine (serves_taken limit hsends hreceives).pairwise_position (arena_ofTimes hreceives)
      (inTimeOrder_ofTimes hsorted') (by simpa using hsends) ?_
    rwa [List.pairwise_map]
  exact ⟨forall₂_consumes, hpositions,
    pairwise_receiveTime hsends hreceives hpositions hsorted',
    fun hstrict => pairwise_receiveTime hsends hreceives hpositions hstrict⟩

/-- Four sends, the third of which reaches no receive event: the others have the three slots in
their order. -/
theorem first_in_first_out_around_lost_send :
    (∀ e ∈ [Event.mk 0 .send, ⟨1, .send⟩, ⟨5, .send⟩, ⟨12, .send⟩], e.timestamp.isFinite = true)
    ∧ (∀ e ∈ [Event.mk 2 .receive, ⟨3, .receive⟩, ⟨20, .receive⟩], e.timestamp.isFinite = true)
    ∧ [Event.mk 0 .send, ⟨1, .send⟩, ⟨5, .send⟩, ⟨12, .send⟩].Pairwise
      (fun a b => a.timestamp ≤ b.timestamp)
    ∧ [Event.mk 2 .receive, ⟨3, .receive⟩, ⟨20, .receive⟩].Pairwise
      (fun a b => a.timestamp ≤ b.timestamp)
    ∧ (pair ⟨9, by decide +kernel, by decide +kernel⟩
      [⟨0, .send⟩, ⟨1, .send⟩, ⟨5, .send⟩, ⟨12, .send⟩]
      [⟨2, .receive⟩, ⟨3, .receive⟩, ⟨20, .receive⟩] Observer.silent).value.measurements
        = [⟨0, 0, 2, 2⟩, ⟨1, 1, 3, 2⟩, ⟨3, 12, 20, 8⟩]
    ∧ [Slot.mk 0 2, ⟨1, 3⟩, ⟨2, 20⟩].Pairwise (fun a b => a.position < b.position)
    ∧ [Measurement.mk 0 0 2 2, ⟨1, 1, 3, 2⟩, ⟨3, 12, 20, 8⟩].Pairwise
      (fun m m' => m.receiveTime < m'.receiveTime) := by
  have hsends : ∀ e ∈ [Event.mk 0 .send, ⟨1, .send⟩, ⟨5, .send⟩, ⟨12, .send⟩],
      e.timestamp.isFinite = true := by
    decide +kernel
  have hreceives : ∀ e ∈ [Event.mk 2 .receive, ⟨3, .receive⟩, ⟨20, .receive⟩],
      e.timestamp.isFinite = true := by
    decide +kernel
  have hsorted : [Event.mk 0 .send, ⟨1, .send⟩, ⟨5, .send⟩, ⟨12, .send⟩].Pairwise
      (fun a b => a.timestamp ≤ b.timestamp) := by
    decide +kernel
  have hsorted' : [Event.mk 2 .receive, ⟨3, .receive⟩, ⟨20, .receive⟩].Pairwise
      (fun a b => a.timestamp ≤ b.timestamp) := by
    decide +kernel
  have hstrict : [Event.mk 2 .receive, ⟨3, .receive⟩, ⟨20, .receive⟩].Pairwise
      (fun a b => a.timestamp < b.timestamp) := by
    decide +kernel
  obtain ⟨-, hpositions, -, htimes⟩ := pair_first_in_first_out
    ⟨9, by decide +kernel, by decide +kernel⟩ _ _ hsends hreceives hsorted hsorted'
    Observer.silent
  have hrun : (pair ⟨9, by decide +kernel, by decide +kernel⟩
      [⟨0, .send⟩, ⟨1, .send⟩, ⟨5, .send⟩, ⟨12, .send⟩]
      [⟨2, .receive⟩, ⟨3, .receive⟩, ⟨20, .receive⟩] Observer.silent).value.measurements
        = [⟨0, 0, 2, 2⟩, ⟨1, 1, 3, 2⟩, ⟨3, 12, 20, 8⟩] := by
    decide +kernel
  have hslots : consumedSlots ⟨9, by decide +kernel, by decide +kernel⟩
      [⟨0, .send⟩, ⟨1, .send⟩, ⟨5, .send⟩, ⟨12, .send⟩]
      [⟨2, .receive⟩, ⟨3, .receive⟩, ⟨20, .receive⟩] = [⟨0, 2⟩, ⟨1, 3⟩, ⟨2, 20⟩] := by
    decide +kernel
  exact ⟨hsends, hreceives, hsorted, hsorted', hrun, hslots ▸ hpositions,
    hrun ▸ htimes hstrict⟩

end TriggerLatency
