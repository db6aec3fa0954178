import NandFs.LogRuns
import NandFs.ObsoleteOnce

/-! # Marking pages of the log

The walks over the pages of a transaction mark one page after the other.  Where each of them was
written, the log goes on to hold what it held, and of the pages that are not marked nothing
changes.
-/
namespace NandFs

open Program

variable [Config]

/-- From `w` to `t` the pages `phyAddrs` were marked and nothing else of the chip or the map was
changed. -/
structure MarkedPages (phyAddrs : List Nat) (w t : World) : Prop where
  page : ∀ p, t.flash.page p = if p ∈ phyAddrs then (w.flash.page p).marked else w.flash.page p
  spare : ∀ p ∉ phyAddrs, t.flash.spareWrites p = w.flash.spareWrites p
  writes : t.flash.mainAreaWrites = w.flash.mainAreaWrites
  badEu : t.flash.badEu = w.flash.badEu
  segMap : t.segMap = w.segMap

theorem MarkedPages.spareMarked {phyAddrs : List Nat} {w t : World}
    (h : MarkedPages phyAddrs w t) (hspare : w.flash.SpareMarked) : t.flash.SpareMarked := by
  intro a ha
  by_cases hmem : a ∈ phyAddrs
  · left
    rw [h.page, if_pos hmem]
    rfl
  · rw [h.spare a hmem] at ha
    rw [h.page, if_neg hmem, Flash.good_congr h.badEu]
    exact hspare a ha

/-! ## What the log does not look at -/

section Agree
variable {f t : Flash} {m : SegMap} {c : Contents} (hpage : t.page = f.page)
  (hwrites : t.mainAreaWrites = f.mainAreaWrites) (hbad : t.badEu = f.badEu)
include hpage hwrites hbad

/-- The layout does not depend on the spare areas programmed and the power left. -/
theorem Layout.agrees (h : Layout f m c) : Layout t m c := by
  have hm : SameMarks f t := ⟨hbad, fun a => by rw [hpage], fun a => by rw [hpage]⟩
  have hholds : ∀ {a st}, PageHolds f a st → PageHolds t a st := by
    intro a st hst
    cases st with
    | none => exact ⟨by rw [hpage]; exact hst.1, by rw [hwrites]; exact hst.2⟩
    | some st => exact ⟨by rw [hpage]; exact hst.1, by rw [hpage]; exact hst.2⟩
  constructor
  · exact h.reserves
  · intro slot eu home hs he hh i hi
    exact hholds (h.holds hs he (hm.isHome_iff.mp hh) i hi)
  · intro slot eu hs he hgood
    rw [hm.good] at hgood
    simp only [hm.isHome_iff]
    exact h.replaced hs he hgood
  · intro eu hmem hfree i hi
    exact hholds (h.free hmem (hm.isFree_iff.mp hfree) i hi)
  · intro p eu eu' hp hmem hmem' hst hst'
    rw [hm.standsFor] at hst hst'
    exact h.unique hp hmem hmem' hst hst'
  · intro seg eu home hseg he hgood hh
    rw [hm.good] at hgood
    exact h.unreplaced hseg he hgood (hm.isHome_iff.mp hh)

theorem Log.agrees {nBytes : Nat} (h : Log nBytes f m c) : Log nBytes t m c := by
  have hm : SameMarks f t := ⟨hbad, fun a => by rw [hpage], fun a => by rw [hpage]⟩
  have hvalid : t.validEuAt (m.segToSlot firstReserveSegment) 2 =
      f.validEuAt (m.segToSlot firstReserveSegment) 2 := by
    unfold Flash.validEuAt
    rw [show t.good = f.good from funext hm.good]
  refine ⟨⟨h.head.layout.agrees hpage hwrites hbad, ?_, h.head.notReserve, h.head.newSlot,
    h.head.growing, h.head.le, h.head.written, fun hin => (h.head.placed hin).marks hm⟩,
    h.segments, h.fits, h.opened⟩
  rw [hvalid]
  exact h.head.copyBack

end Agree

/-! ## Marking one page after the other -/

/-- The obsolete bytes of the pages are programmed. -/
def Flash.programAllObsolete (f : Flash) (phyAddrs : List Nat) : Flash :=
  phyAddrs.foldl Flash.programObsolete f

theorem Flash.programAllObsolete_frame (f : Flash) (phyAddrs : List Nat) :
    (f.programAllObsolete phyAddrs).mainAreaWrites = f.mainAreaWrites ∧
      (f.programAllObsolete phyAddrs).badEu = f.badEu := by
  induction phyAddrs generalizing f with
  | nil => exact ⟨rfl, rfl⟩
  | cons p ps ih => exact ih (f.programObsolete p)

theorem Flash.programAllObsolete_page (f : Flash) (phyAddrs : List Nat) (p : Nat) :
    (f.programAllObsolete phyAddrs).page p =
      if p ∈ phyAddrs then (f.page p).marked else f.page p := by
  induction phyAddrs generalizing f with
  | nil => rw [if_neg List.not_mem_nil]; rfl
  | cons q qs ih =>
    have hone : (f.programObsolete q).page p = if p = q then (f.page p).marked else f.page p := by
      show Function.update f.page q (f.page q).marked p = _
      rw [Function.update_apply]
      by_cases hpq : p = q
      · rw [if_pos hpq, if_pos hpq, hpq]
      · rw [if_neg hpq, if_neg hpq]
    show ((f.programObsolete q).programAllObsolete qs).page p = _
    rw [ih, hone]
    by_cases hpq : p = q
    · rw [if_pos hpq, if_pos (List.mem_cons.mpr (.inl hpq))]
      by_cases hqs : p ∈ qs
      · rw [if_pos hqs]
        rfl
      · rw [if_neg hqs]
    · rw [if_neg hpq]
      by_cases hqs : p ∈ qs
      · rw [if_pos hqs, if_pos (List.mem_cons_of_mem _ hqs)]
      · rw [if_neg hqs, if_neg fun hmem => (List.mem_cons.mp hmem).elim hpq hqs]

/-- The page of a logical address was written. -/
structure WrittenAt (m : SegMap) (c : Contents) (a : LogAddr) : Prop where
  segment : a.segment < m.nSegments
  offset : a.offset < pagesPerSlot
  written : m.stored c a ≠ none

section Marks
variable {nBytes : Nat} {w t : World} {c : Contents}

/-- One page is marked: the others are as they were, and what was written stays written. -/
theorem Log.markOne {v : LogAddr × Nat} (h : Log nBytes w.flash w.segMap c)
    (hv : WrittenAt w.segMap c v.1) (hfound : logicalAddressToPhysical v.1 w = .ok v.2 w) :
    ∃ c', Log nBytes (w.flash.programObsolete v.2) w.segMap c' ∧
      (∀ a, a.segment < w.segMap.nSegments → a ≠ v.1 →
        w.segMap.stored c' a = w.segMap.stored c a) ∧
      ∀ a, w.segMap.stored c a ≠ none → w.segMap.stored c' a ≠ none := by
  have hslot := h.segments.phase.slotOf_data hv.segment
  rcases h.lookup hv.segment hv.offset with ⟨home, hh, hrun⟩ | ⟨hno, -⟩
  swap
  · exact absurd hno hv.written
  obtain ⟨st, hst⟩ := Option.ne_none_iff_exists'.mp hv.written
  rw [SegMap.stored_eq] at hst
  have hphy : v.2 = home + v.1.offset % pagesPerEu :=
    (EStateM.Result.ok.inj (hfound.symm.trans hrun)).1
  refine ⟨_, by rw [hphy]; exact h.mark hslot hv.offset hh hst w.flash.power, fun a ha hne => ?_,
    fun a ha => ?_⟩
  · rw [SegMap.stored_eq, SegMap.stored_eq]
    by_cases hs : w.segMap.slotOf a = w.segMap.slotOf v.1
    · have hoff : a.offset ≠ v.1.offset := fun he =>
        hne (h.segments.phase.slotOf_inj ha hv.segment hs he)
      rw [hs, Contents.set_of_ne hoff]
    · rw [Contents.set_of_ne_slot hs]
  · rw [SegMap.stored_eq] at ha ⊢
    exact (Contents.mark_ne_none hst).mpr ha

/-- The pages of a list are marked. -/
theorem Log.markAll {votes : List (LogAddr × Nat)} (h : Log nBytes w.flash w.segMap c)
    (hvotes : ∀ v ∈ votes, WrittenAt w.segMap c v.1 ∧
      logicalAddressToPhysical v.1 w = .ok v.2 w) :
    ∃ c', Log nBytes (w.flash.programAllObsolete (votes.map Prod.snd)) w.segMap c' ∧
      ∀ a, a.segment < w.segMap.nSegments → a ∉ votes.map Prod.fst →
        w.segMap.stored c' a = w.segMap.stored c a := by
  induction votes generalizing w c with
  | nil => exact ⟨c, h, fun _ _ _ => rfl⟩
  | cons v votes ih =>
    obtain ⟨hv, hvotes⟩ := List.forall_mem_cons.mp hvotes
    obtain ⟨c', hlog, hothers, hwritten⟩ := h.markOne hv.1 hv.2
    have hm := w.flash.programObsolete_marks v.2
    have hsame : SamePlaces w { w with flash := w.flash.programObsolete v.2 } :=
      ⟨rfl, hm.badEu, hm.copyBack, hm.place⟩
    obtain ⟨c'', hlog', hothers'⟩ := ih (w := { w with flash := w.flash.programObsolete v.2 }) hlog
      fun u hu => ⟨⟨(hvotes u hu).1.segment, (hvotes u hu).1.offset,
        hwritten _ (hvotes u hu).1.written⟩, hsame.logicalAddressToPhysical (hvotes u hu).2⟩
    refine ⟨c'', hlog', fun a ha hmem => ?_⟩
    rw [List.map_cons, List.mem_cons, not_or] at hmem
    rw [hothers' a ha hmem.2, hothers a ha hmem.1]

/-- The log after some of its pages were marked. -/
theorem Log.marked {votes : List (LogAddr × Nat)} (h : Log nBytes w.flash w.segMap c)
    (hvotes : ∀ v ∈ votes, WrittenAt w.segMap c v.1 ∧
      logicalAddressToPhysical v.1 w = .ok v.2 w)
    (hmarked : MarkedPages (votes.map Prod.snd) w t) :
    ∃ c', Log nBytes t.flash t.segMap c' ∧
      ∀ a, a.segment < w.segMap.nSegments → a ∉ votes.map Prod.fst →
        t.segMap.stored c' a = w.segMap.stored c a := by
  obtain ⟨c', hlog, hothers⟩ := h.markAll hvotes
  obtain ⟨hwrites, hbad⟩ := w.flash.programAllObsolete_frame (votes.map Prod.snd)
  refine ⟨c', ?_, by rw [hmarked.segMap]; exact hothers⟩
  rw [hmarked.segMap]
  refine hlog.agrees (funext fun p => ?_) ?_ ?_
  · rw [hmarked.page, Flash.programAllObsolete_page]
  · rw [hmarked.writes, hwrites]
  · rw [hmarked.badEu, hbad]

end Marks

end NandFs
