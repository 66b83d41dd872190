import TriggerLatency.Proofs.Matching.Serves
import Mathlib.Data.Set.Insert

/-!
# No run wastes a slot

`Packs` says that some number of sends can be given slots of their own that fit them, in
whatever way. Over time-ordered events a run of the matcher loses nothing against it
(`Serves.packs_le`): when it takes `b` where another assignment gives `c`, then `b` is no later
than `c`, so whoever fits `b` later on fits `c` (`Fits.of_le`), and the two slots can be
exchanged (`Packs.exchange`). Rounding does no harm, since subtraction is monotone.
-/

namespace TriggerLatency

open Double

/-- Of the sends at some times, `n` can have slots of their own that fit them. -/
inductive Packs (limit : LatencyLimit) : Set Slot → List Float → Nat → Prop
  | done (S : Set Slot) : Packs limit S [] 0
  | give {S : Set Slot} {t : Float} {c : Slot} {ts : List Float} {n : Nat} :
      c ∈ S → Fits limit t c.time → Packs limit (S \ {c}) ts n → Packs limit S (t :: ts) (n + 1)
  | skip {S : Set Slot} {t : Float} {ts : List Float} {n : Nat} :
      Packs limit S ts n → Packs limit S (t :: ts) n

namespace Packs

variable {limit : LatencyLimit} {S S' : Set Slot} {ts : List Float} {n : Nat}

/-- More slots do not hurt. -/
theorem mono (h : Packs limit S ts n) (hsub : S ⊆ S') : Packs limit S' ts n := by
  induction h generalizing S' with
  | done => exact Packs.done S'
  | give hc hfits _ ih => exact Packs.give (hsub hc) hfits (ih (Set.sdiff_subset_sdiff_left hsub))
  | skip _ ih => exact Packs.skip (ih hsub)

/-- A slot less costs at most one send. -/
theorem exists_without (h : Packs limit S ts n) (b : Slot) :
    ∃ n', Packs limit (S \ {b}) ts n' ∧ n ≤ n' + 1 := by
  induction h with
  | done S => exact ⟨0, Packs.done _, Nat.zero_le _⟩
  | @give S t c ts n hc hfits hrest ih =>
    by_cases heq : c = b
    · -- the send that has `b` passes
      exact ⟨n, Packs.skip (heq ▸ hrest), Nat.le_refl _⟩
    · -- this send keeps its slot, and a later one loses its own
      obtain ⟨n', hpacks, hle⟩ := ih
      rw [Set.sdiff_sdiff_comm] at hpacks
      exact ⟨n' + 1, Packs.give ⟨hc, heq⟩ hfits hpacks, by omega⟩
  | skip _ ih =>
    obtain ⟨n', hpacks, hle⟩ := ih
    exact ⟨n', Packs.skip hpacks, hle⟩

/-- A new slot `c` can stand in for `b`, if it fits whomever `b` fits. -/
theorem exchange (b : Slot) {c : Slot} (h : Packs limit S ts n) (hsub : ∀ s ∈ S, s ≠ b → s ∈ S')
    (hc : c ∈ S') (hnew : c ∉ S) (hfits : ∀ t ∈ ts, Fits limit t b.time → Fits limit t c.time) :
    Packs limit S' ts n := by
  induction h generalizing S' with
  | done => exact Packs.done S'
  | @give S t d ts n hd hdfits hrest ih =>
    have hlater := fun u hu => hfits u (List.mem_cons_of_mem t hu)
    by_cases heq : d = b
    · -- the send that has `b` gets `c`
      subst heq
      refine Packs.give hc (hfits t (List.mem_cons_self ..) hdfits) (hrest.mono ?_)
      rintro s ⟨hs, hne⟩
      exact ⟨hsub s hs hne, fun hsc => hnew (hsc ▸ hs)⟩
    · refine Packs.give (hsub d hd heq) hdfits (ih ?_ ⟨hc, ?_⟩ (fun h => hnew h.1) hlater)
      · rintro s ⟨hs, hne⟩ hsb
        exact ⟨hsub s hs hsb, hne⟩
      · exact fun hcd => hnew (hcd ▸ hd)
  | @skip S t ts n _ ih =>
    exact Packs.skip (ih hsub hc hnew fun u hu => hfits u (List.mem_cons_of_mem t hu))

end Packs

/-- A slot that fits an early send fits a later one too, if a slot before it does. -/
theorem Fits.of_le {limit : LatencyLimit} {t u r r' : Float} (ht : t.isFinite = true)
    (hu : u.isFinite = true) (hr : r.isFinite = true) (hr' : r'.isFinite = true) (htu : t ≤ u)
    (hrr' : r ≤ r') (hearly : Fits limit t r') (hfits : Fits limit u r) : Fits limit u r' := by
  have hu' := isNaN_of_isFinite hu
  have hrn := isNaN_of_isFinite hr
  have hrn' := isNaN_of_isFinite hr'
  have hlimit := isNaN_of_isFinite limit.finite
  constructor
  · -- later than `r`, which is later than `u`
    have hlt := (lt_iff_grains hu' hrn).mp hfits.1
    have hle := (le_iff_grains hrn hrn').mp hrr'
    exact (lt_iff_grains hu' hrn').mpr (by omega)
  · -- nearer to `u` than to `t`, and within the limit of `t`
    have hsub := Double.sub_le_sub_left ht hu hr' htu
    exact float_le_trans (isNaN_float_sub hr' hu) (isNaN_float_sub hr' ht) hlimit hsub hearly.2

/-- Slots of greater position are no earlier. -/
def InTimeOrder (slots : List Slot) : Prop :=
  ∀ a ∈ slots, ∀ b ∈ slots, a.position < b.position → a.time ≤ b.time

section

variable {limit : LatencyLimit} {slots : List Slot}

theorem InTimeOrder.close (h : InTimeOrder slots) (b : Slot) : InTimeOrder (close b slots) :=
  fun a ha c hc => h a (List.mem_of_mem_filter ha) c (List.mem_of_mem_filter hc)

/-- Among slots in time order, the nearest one is no later than any other that fits. -/
theorem IsNearest.time_le {t : Float} {b c : Slot} (ht : t.isFinite = true) (ha : Arena slots)
    (horder : InTimeOrder slots) (h : IsNearest limit t slots b) (hc : c ∈ slots)
    (hfits : Fits limit t c.time) (hne : c ≠ b) : b.time ≤ c.time := by
  rcases lt_trichotomy b.position c.position with hlt | heq | hgt
  · exact horder b h.mem c hc hlt
  · exact absurd (ha.eq_of_position hc h.mem heq.symm) hne
  · -- an earlier slot of no more latency would have been taken
    have htime := horder c hc b h.mem hgt
    have hlatency := Double.sub_le_sub_right (ha.finite c hc) (ha.finite b h.mem) ht htime
    have hfirst := h.first c hc hfits hlatency
    omega

/-- The open slots, as a set, once one is closed. -/
theorem setOf_close (ha : Arena slots) {b : Slot} (hb : b ∈ slots) :
    {s | s ∈ close b slots} = {s | s ∈ slots} \ {b} := by
  ext s
  exact ha.mem_close_iff hb

/-- No assignment of the open slots gives more sends a slot than a run does. -/
theorem Serves.packs_le {ts : List Float} {os : List (Option Slot)} (h : Serves limit slots ts os)
    (ha : Arena slots) (horder : InTimeOrder slots) (hts : ∀ t ∈ ts, t.isFinite = true)
    (hsorted : ts.Pairwise (· ≤ ·)) {n : Nat} (hn : Packs limit {s | s ∈ slots} ts n) :
    n ≤ os.countP Option.isSome := by
  induction h generalizing n with
  | done =>
    cases hn
    exact Nat.zero_le _
  | @take slots t b ts os hnear _ ih =>
    have ht := hts t (List.mem_cons_self ..)
    have hts' := fun u hu => hts u (List.mem_cons_of_mem t hu)
    obtain ⟨hfirst, hsorted'⟩ := List.pairwise_cons.mp hsorted
    have ih := fun {n} => @ih (ha.close b) (horder.close b) hts' hsorted' n
    rw [setOf_close ha hnear.mem] at ih
    rw [List.countP_cons_of_pos rfl]
    cases hn with
    | @give _ _ c _ n hc hfits hrest =>
      by_cases heq : c = b
      · exact Nat.succ_le_succ (ih (heq ▸ hrest))
      · -- exchange `b`, which the other assignment still has, for `c`
        have hbc := hnear.time_le ht ha horder hc hfits heq
        have hrest' : Packs limit ({s | s ∈ slots} \ {b}) ts n := by
          refine hrest.exchange b ?_ ⟨hc, heq⟩ (fun h => h.2 rfl) ?_
          · rintro s ⟨hs, -⟩ hsb
            exact ⟨hs, hsb⟩
          · intro u hu
            exact Fits.of_le ht (hts' u hu) (ha.finite b hnear.mem) (ha.finite c hc) (hfirst u hu)
              hbc hfits
        exact Nat.succ_le_succ (ih hrest')
    | skip hrest =>
      -- the run serves one more send, which makes up for the slot
      obtain ⟨n', hpacks, hle⟩ := hrest.exists_without b
      have := ih hpacks
      omega
  | @pass slots t ts os hall _ ih =>
    have hts' := fun u hu => hts u (List.mem_cons_of_mem t hu)
    rw [List.countP_cons_of_neg (by simp)]
    -- whom no open slot fits, no assignment serves
    cases hn with
    | give hc hfits _ => exact absurd hfits (hall _ hc)
    | skip hrest => exact ih ha horder hts' (List.pairwise_cons.mp hsorted).2 hrest

end

end TriggerLatency
