import TriggerLatency.Matching.Assignment
import TriggerLatency.Proofs.Double.Rounding
import Mathlib.Data.List.Induction

/-!
# The slot that a send takes

Among finite times the comparisons of the matcher mean what they say: a receive time
may be taken exactly if it `Fits`, being later than the send time and within the
limit. `nearest` then takes the fitting slot of least latency, and of several the one
of least position (`IsNearest`), or nothing if no slot fits (`nearest_spec`).

What a run keeps of its open slots is an `Arena`: they stand in the order of their
positions, and their times are finite.
-/

namespace TriggerLatency

open Double

/-- A receive time fits a send time: it is later, by no more than the limit. -/
def Fits (limit : LatencyLimit) (sendTime receiveTime : Float) : Prop :=
  sendTime < receiveTime ∧ receiveTime - sendTime ≤ limit.ms

instance (limit : LatencyLimit) (sendTime receiveTime : Float) :
    Decidable (Fits limit sendTime receiveTime) :=
  inferInstanceAs (Decidable (_ ∧ _))

/-- Among finite times the two refusals of the matcher leave exactly the fitting times. -/
theorem eligible_iff_fits (limit : LatencyLimit) {s r : Float} (hs : s.isFinite = true)
    (hr : r.isFinite = true) : Eligible limit s r ↔ Fits limit s r := by
  have hlimit := isNaN_of_isFinite limit.finite
  have hdiff := isNaN_float_sub hr hs
  have hs := isNaN_of_isFinite hs
  have hr := isNaN_of_isFinite hr
  unfold Eligible Fits
  rw [float_not_le hr hs, float_not_lt hlimit hdiff]

/-- Slots get other numbers, in the same order. -/
structure Renumbers (f : Slot → Slot) : Prop where
  time : ∀ s, (f s).time = s.time
  position : ∀ a b, (f a).position ≤ (f b).position ↔ a.position ≤ b.position

theorem Slot.sorted_ofTimes (times : List Float) :
    (Slot.ofTimes times).Pairwise fun a b => a.position < b.position := by
  rw [Slot.ofTimes, List.pairwise_map]
  have hpositions := List.pairwise_lt_range' (s := 0) (n := times.length)
  rwa [← List.zipIdx_map_snd, List.pairwise_map] at hpositions

/-- The open slots of a run: in the order of their positions, and at finite times. -/
structure Arena (slots : List Slot) : Prop where
  sorted : slots.Pairwise fun a b => a.position < b.position
  finite : ∀ s ∈ slots, s.time.isFinite = true

namespace Arena

variable {slots : List Slot}

/-- A position stands for one slot. -/
theorem eq_of_position (h : Arena slots) {a b : Slot} (ha : a ∈ slots) (hb : b ∈ slots)
    (hpos : a.position = b.position) : a = b := by
  have hsame : ∀ a ∈ slots, ∀ b ∈ slots, a.position = b.position → a = b :=
    List.Pairwise.forall_of_forall_of_flip (fun _ _ _ => rfl)
      (h.sorted.imp fun hlt heq => absurd heq hlt.ne)
      (h.sorted.imp fun hlt heq => absurd heq hlt.ne')
  exact hsame a ha b hb hpos

theorem nodup (h : Arena slots) : slots.Nodup :=
  h.sorted.imp fun hlt heq => absurd (heq ▸ hlt) (Nat.lt_irrefl _)

theorem ofTimes {times : List Float} (h : ∀ t ∈ times, t.isFinite = true) :
    Arena (Slot.ofTimes times) where
  sorted := Slot.sorted_ofTimes times
  finite s hs := by
    obtain ⟨t, ht, rfl⟩ := List.mem_map.mp hs
    exact h t.1 (List.fst_mem_of_mem_zipIdx ht)

theorem map (h : Arena slots) {f : Slot → Slot} (hf : Renumbers f) : Arena (slots.map f) where
  sorted := by
    rw [List.pairwise_map]
    refine h.sorted.imp ?_
    intro a b hlt
    rw [← Nat.not_le] at hlt ⊢
    exact fun hle => hlt ((hf.position b a).mp hle)
  finite s hs := by
    obtain ⟨u, hu, rfl⟩ := List.mem_map.mp hs
    exact hf.time u ▸ h.finite u hu

theorem sublist {open' : List Slot} (h : Arena slots) (hsub : open'.Sublist slots) :
    Arena open' :=
  ⟨h.sorted.sublist hsub, fun s hs => h.finite s (hsub.subset hs)⟩

theorem close (h : Arena slots) (b : Slot) : Arena (close b slots) :=
  h.sublist List.filter_sublist

/-- Closing a slot takes out that slot and no other. -/
theorem mem_close_iff (h : Arena slots) {b s : Slot} (hb : b ∈ slots) :
    s ∈ TriggerLatency.close b slots ↔ s ∈ slots ∧ s ≠ b := by
  simp only [TriggerLatency.close, List.mem_filter, decide_eq_true_eq]
  constructor
  · rintro ⟨hs, hpos⟩
    exact ⟨hs, fun heq => hpos (heq ▸ rfl)⟩
  · rintro ⟨hs, hne⟩
    exact ⟨hs, fun hpos => hne (h.eq_of_position hs hb hpos)⟩

end Arena

/-- The slot that a send time takes: it fits, no fitting slot has less latency, and none of as
little latency has a lesser position. -/
structure IsNearest (limit : LatencyLimit) (t : Float) (slots : List Slot) (b : Slot) : Prop where
  mem : b ∈ slots
  fits : Fits limit t b.time
  least : ∀ s ∈ slots, Fits limit t s.time → b.time - t ≤ s.time - t
  first : ∀ s ∈ slots, Fits limit t s.time → s.time - t ≤ b.time - t → b.position ≤ s.position

section

variable {limit : LatencyLimit} {t : Float} {slots : List Slot}

/-- Latencies are compared as integers. -/
private theorem latency_le_iff (ht : t.isFinite = true) {r r' : Float} (hr : r.isFinite = true)
    (hr' : r'.isFinite = true) : r - t ≤ r' - t ↔ grains (r - t) ≤ grains (r' - t) :=
  le_iff_grains (isNaN_float_sub hr ht) (isNaN_float_sub hr' ht)

/-- Only which slots are open matters, not their list. -/
theorem IsNearest.congr {slots' : List Slot} {b : Slot} (hsame : ∀ s, s ∈ slots ↔ s ∈ slots')
    (h : IsNearest limit t slots b) : IsNearest limit t slots' b where
  mem := (hsame b).mp h.mem
  fits := h.fits
  least s hs := h.least s ((hsame s).mpr hs)
  first s hs := h.first s ((hsame s).mpr hs)

/-- The nearest slot stays the nearest when other slots are closed. -/
theorem IsNearest.of_subset {slots' : List Slot} {b : Slot} (h : IsNearest limit t slots b)
    (hsub : slots' ⊆ slots) (hb : b ∈ slots') : IsNearest limit t slots' b where
  mem := hb
  fits := h.fits
  least s hs := h.least s (hsub hs)
  first s hs := h.first s (hsub hs)

/-- There is at most one nearest slot. -/
theorem IsNearest.unique (ha : Arena slots) {b b' : Slot} (h : IsNearest limit t slots b)
    (h' : IsNearest limit t slots b') : b = b' := by
  have hle := h.least b' h'.mem h'.fits
  have hle' := h'.least b h.mem h.fits
  have hpos := h.first b' h'.mem h'.fits hle'
  have hpos' := h'.first b h.mem h.fits hle
  exact ha.eq_of_position h.mem h'.mem (Nat.le_antisymm hpos hpos')

variable {seen : List Slot} {next b : Slot}

private theorem mem_seen_or_eq {s : Slot} (h : s ∈ seen ++ [next]) : s ∈ seen ∨ s = next := by
  rwa [List.mem_append, List.mem_singleton] at h

/-- The slot kept so far stays the nearest if the next one does not fit or has no less latency. -/
private theorem IsNearest.keep (hnear : IsNearest limit t seen b)
    (hafter : b.position < next.position)
    (hno : Fits limit t next.time → b.time - t ≤ next.time - t) :
    IsNearest limit t (seen ++ [next]) b := by
  refine ⟨List.mem_append_left _ hnear.mem, hnear.fits, ?_, ?_⟩
  · intro s hs hfits
    rcases mem_seen_or_eq hs with hseen | rfl
    · exact hnear.least s hseen hfits
    · exact hno hfits
  · intro s hs hfits hle
    rcases mem_seen_or_eq hs with hseen | rfl
    · exact hnear.first s hseen hfits hle
    · exact hafter.le

/-- A fitting slot of lesser latency is nearer than all before it. -/
private theorem IsNearest.displace (ht : t.isFinite = true) (ha : Arena (seen ++ [next]))
    (hnear : IsNearest limit t seen b) (hfits : Fits limit t next.time)
    (hlt : next.time - t < b.time - t) : IsNearest limit t (seen ++ [next]) next := by
  have hmem : next ∈ seen ++ [next] := by simp
  have hnext := ha.finite next hmem
  have hbfin := ha.finite b (List.mem_append_left _ hnear.mem)
  have hless := (lt_iff_grains (isNaN_float_sub hnext ht) (isNaN_float_sub hbfin ht)).mp hlt
  have hbeats : ∀ s ∈ seen, Fits limit t s.time → grains (next.time - t) < grains (s.time - t) := by
    intro s hs hsf
    have hsfin := ha.finite s (List.mem_append_left _ hs)
    have hle := (latency_le_iff ht hbfin hsfin).mp (hnear.least s hs hsf)
    omega
  refine ⟨hmem, hfits, ?_, ?_⟩
  · intro s hs hsf
    rw [latency_le_iff ht hnext (ha.finite s hs)]
    rcases mem_seen_or_eq hs with hseen | rfl
    · exact (hbeats s hseen hsf).le
    · exact le_rfl
  · intro s hs hsf hle
    rw [latency_le_iff ht (ha.finite s hs) hnext] at hle
    rcases mem_seen_or_eq hs with hseen | rfl
    · -- no slot seen has as little latency
      have := hbeats s hseen hsf
      omega
    · exact Nat.le_refl _

/-- The first slot that fits is the nearest so far. -/
private theorem IsNearest.first_fit (ht : t.isFinite = true) (hnext : next.time.isFinite = true)
    (hnone : ∀ s ∈ seen, ¬ Fits limit t s.time) (hfits : Fits limit t next.time) :
    IsNearest limit t (seen ++ [next]) next := by
  have honly : ∀ s ∈ seen ++ [next], Fits limit t s.time → s = next := by
    intro s hs hsf
    exact (mem_seen_or_eq hs).resolve_left fun hseen => hnone s hseen hsf
  refine ⟨by simp, hfits, ?_, ?_⟩
  · intro s hs hsf
    obtain rfl := honly s hs hsf
    exact (latency_le_iff ht hnext hnext).mpr le_rfl
  · intro s hs hsf _
    obtain rfl := honly s hs hsf
    exact Nat.le_refl _

/-- What the scan has kept so far, against one more slot. -/
private theorem nearest_step (ht : t.isFinite = true) (ha : Arena (seen ++ [next]))
    (hnear : IsNearest limit t seen b) :
    ∃ b', better limit t (some b) next = some b' ∧ IsNearest limit t (seen ++ [next]) b' := by
  have hnext := ha.finite next (by simp)
  have hbfin := ha.finite b (List.mem_append_left _ hnear.mem)
  have hafter : b.position < next.position :=
    (List.pairwise_append.mp ha.sorted).2.2 b hnear.mem next (by simp)
  unfold better
  rw [if_congr (eligible_iff_fits limit ht hnext) rfl rfl]
  by_cases hfits : Fits limit t next.time
  · rw [if_pos hfits]
    dsimp only
    by_cases hlt : next.time - t < b.time - t
    · -- a lesser latency displaces the slot kept so far
      exact ⟨next, if_pos hlt, hnear.displace ht ha hfits hlt⟩
    · -- an equal one does not
      refine ⟨b, if_neg hlt, hnear.keep hafter ?_⟩
      intro _
      rw [lt_iff_grains (isNaN_float_sub hnext ht) (isNaN_float_sub hbfin ht)] at hlt
      rw [latency_le_iff ht hbfin hnext]
      omega
  · rw [if_neg hfits]
    exact ⟨b, rfl, hnear.keep hafter fun h => absurd h hfits⟩

/-- The scan of the slots keeps the nearest of those it has seen. -/
theorem nearest_spec (limit : LatencyLimit) (ht : t.isFinite = true) (ha : Arena slots) :
    (∃ b, nearest limit t slots = some b ∧ IsNearest limit t slots b)
    ∨ (nearest limit t slots = none ∧ ∀ s ∈ slots, ¬ Fits limit t s.time) := by
  unfold nearest
  induction slots using List.reverseRecOn with
  | nil => exact Or.inr ⟨rfl, fun s hs => absurd hs List.not_mem_nil⟩
  | append_singleton seen next ih =>
    have hnext : next.time.isFinite = true := ha.finite next (by simp)
    rw [List.foldl_append, List.foldl_cons, List.foldl_nil]
    -- either a slot seen so far fits, or the next one is the first that can
    rcases ih (ha.sublist (List.sublist_append_left seen [next])) with
      ⟨b, hb, hnear⟩ | ⟨hnone, hall⟩
    · rw [hb]
      exact Or.inl (nearest_step ht ha hnear)
    · rw [hnone]
      unfold better
      rw [if_congr (eligible_iff_fits limit ht hnext) rfl rfl]
      by_cases hfits : Fits limit t next.time
      · rw [if_pos hfits]
        exact Or.inl ⟨next, rfl, IsNearest.first_fit ht hnext hall hfits⟩
      · rw [if_neg hfits]
        refine Or.inr ⟨rfl, ?_⟩
        intro s hs
        rcases mem_seen_or_eq hs with hseen | rfl
        · exact hall s hseen
        · exact hfits

theorem nearest_eq_some_iff (ht : t.isFinite = true) (ha : Arena slots) {b : Slot} :
    nearest limit t slots = some b ↔ IsNearest limit t slots b := by
  rcases nearest_spec limit ht ha with ⟨b', hb', hnear⟩ | ⟨hnone, hall⟩
  · rw [hb', Option.some_inj]
    exact ⟨fun h => h ▸ hnear, fun h => hnear.unique ha h⟩
  · rw [hnone]
    exact ⟨fun h => absurd h (by simp), fun h => absurd h.fits (hall b h.mem)⟩

end

end TriggerLatency
