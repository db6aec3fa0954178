import NandFs.LogWear

/-! # The next segment

At the end of a segment `moveToNextSegment` frees its old slot, may move another one, and
chooses the segment that is written next.  The live pages stay in view as long as there is a
segment to choose and wear leveling does not pick the slot of a reserve segment (`CanMove`).
-/
namespace NandFs

open Program

variable [Config]

open Config

/-- The slot that is free once the current segment is finished. -/
def SegMap.freedSlot (m : SegMap) : Nat :=
  if m.isStateReclamation then m.reclaimedSegmentSlot else segmentsCount

/-- The toss of `moveToNextSegment` comes up for wear leveling. -/
def World.tossed (w : World) : Bool := w.lfsrState.toNat % 2 ^ powSlots == 0

/-- The slot that wear leveling picks once the current segment is finished. -/
def World.slotToMove (w : World) : Nat :=
  { w with
    lfsrState := tactLfsrTimes powSlots w.lfsrState
    segMap := { w.segMap with newSlotId := w.segMap.freedSlot } : World }.pickedSlot

/-- A slot that the next segment may be written to. -/
def World.NextSlot (w : World) (slot : Nat) : Prop :=
  if w.segMap.allSegmentsAllocated then
    slot = w.segMap.freedSlot ∨ w.tossed = true ∧ slot = w.slotToMove
  else slot = w.segMap.newSlotId + 1

/-- A segment header fits in the slot: it ends in the first erase unit or, as the erase units
of a header are not replaced one by one, they are all good. -/
def HeaderFits (nBytes : Nat) (f : Flash) (slot : Nat) : Prop :=
  ∀ eu, 0 < eu → eu * pagesPerEu < headerPages nBytes →
    f.good (euAt slot 0) = true ∧ f.good (euAt slot eu) = true

/-- `WearsAt w u`: once the segment of `w` is finished, `moveToNextSegment` calls
`performWearLeveling` in the state `u`. -/
inductive WearsAt (w : World) : World → Prop
  | intro {newSlot : Nat} {t : World} (finish : finishSegment w = .ok (0, newSlot) t)
      (all : t.segMap.allSegmentsAllocated = true) (toss : t.tossed = true) :
      WearsAt w { t with
        lfsrState := tactLfsrTimes powSlots t.lfsrState
        segMap := { t.segMap with
          previouslyWrittenSegment := t.segMap.reclaimed.segment, newSlotId := newSlot } }

/-- Wear leveling in the move to another segment spares the copy-back unit. -/
def World.MoveSpares (w : World) : Prop := ∀ u, WearsAt w u → u.WearSpares

/-- The log can go on in another segment: the header of the current one was written, there is
a segment to reclaim, the slot that wear leveling picks can be moved, and the header of the
next segment is written to its own place. -/
structure CanMove (nBytes : Nat) (w : World) : Prop where
  opened : w.segMap.headOffset ≠ 0
  reclaim : w.segMap.allSegmentsAllocated = true →
    segmentToReclaim w.obsCountersMap w.segMap.reclaimed.segment ≠ none
  wear : ∀ u, WearsAt w u → u.CanWear
  placed : w.segMap.isEuReserve = true → ∀ slot, w.NextSlot slot →
    w.flash.good (euAt slot 0) = false
  fits : ∀ slot, w.NextSlot slot → HeaderFits nBytes w.flash slot

/-! ## Finishing a segment -/

section Finish
variable {f : Flash} {m : SegMap} {c : Contents} {nBytes : Nat}

theorem Between.congr {m' : SegMap} (h : Between m c) (hm : m'.mapping = m.mapping) :
    Between m' c := by
  have h1 : m'.segToSlot = m.segToSlot := congrArg Mapping.segToSlot hm
  have h2 : m'.newSlotId = m.newSlotId := congrArg Mapping.newSlotId hm
  have h3 : m'.nSegments = m.nSegments := congrArg Mapping.nSegments hm
  refine ⟨?_, ?_, ?_⟩
  · rw [hm]
    exact h.reclaiming
  · rw [h1, h3]
    exact h.full
  · rw [h2]
    exact h.blank

/-- The map once the segment that was reclaimed has its new slot for good. -/
def SegMap.exchanged (m : SegMap) : SegMap :=
  { m.setSlotForSeg m.newSlotId m.reclaimed.segment with
    previouslyWrittenSegment := m.reclaimed.segment
    newSlotId := m.reclaimedSegmentSlot }

omit [Config] in
theorem SegMap.exchanged_slot_of_ne {seg : Nat} (h : seg ≠ m.reclaimed.segment) :
    m.exchanged.segToSlot seg = m.segToSlot seg := Function.update_of_ne h _ _

omit [Config] in
theorem SegMap.exchanged_slot : m.exchanged.segToSlot m.reclaimed.segment = m.newSlotId :=
  Function.update_self _ _ _

/-- At the end of a segment the new slot is full. -/
theorem Log.new_full (h : Log nBytes f m c) (hend : m.headOffset = pagesPerSlot) {o : Nat}
    (ho : o < pagesPerSlot) : c m.newSlotId o ≠ none :=
  (h.head.written o ho).mpr (by omega)

/-- The old slot of the segment that was reclaimed is erased: every segment holds what it
held. -/
theorem Log.between_reclaimed (h : Log nBytes f m c) (hrec : m.isStateReclamation = true)
    (hend : m.headOffset = pagesPerSlot) :
    Between m.exchanged (c.clear m.reclaimedSegmentSlot) ∧
      ∀ a, a.segment < m.nSegments → a.offset < pagesPerSlot →
        m.exchanged.plain (c.clear m.reclaimedSegmentSlot) a = m.stored c a := by
  have hreclaiming : m.mapping.Reclaiming := by
    rcases h.segments.phase with hg | hr
    · rw [hg.not_reclamation] at hrec
      exact absurd hrec Bool.false_ne_true
    · exact hr
  have hcur := h.segments.phase.current_lt
  have hne : m.newSlotId ≠ m.reclaimedSegmentSlot := hreclaiming.newSlot_ne
  -- the slots of the other segments are not touched
  have hother : ∀ seg < m.nSegments, seg ≠ m.reclaimed.segment →
      m.segToSlot seg ≠ m.reclaimedSegmentSlot := fun seg hs hseg he =>
    hseg (h.segments.phase.slot_inj (mem_existing_of_lt hs) (mem_existing_of_lt hcur) he)
  have hplain : ∀ a : LogAddr, a.segment < m.nSegments → a.offset < pagesPerSlot →
      m.exchanged.plain (c.clear m.reclaimedSegmentSlot) a = m.stored c a := by
    intro a ha ho
    unfold SegMap.plain SegMap.stored
    by_cases hs : a.segment = m.reclaimed.segment
    · rw [if_pos ⟨hrec, hs, by unfold SegMap.headOffset at hend; omega⟩, hs,
        SegMap.exchanged_slot, Contents.clear_of_ne hne]
    · rw [if_neg fun hc => hs hc.2.1, SegMap.exchanged_slot_of_ne hs,
        Contents.clear_of_ne (hother _ ha hs)]
  refine ⟨⟨hreclaiming.finish, fun seg hs o ho => ?_, fun o _ => Contents.clear_self o⟩, hplain⟩
  have hseg := hplain ⟨seg, o⟩ hs ho
  unfold SegMap.plain at hseg
  rw [hseg]
  unfold SegMap.stored
  by_cases hsc : seg = m.reclaimed.segment
  · rw [if_pos ⟨hrec, hsc, by unfold SegMap.headOffset at hend; exact hend ▸ ho⟩]
    exact h.new_full hend ho
  · rw [if_neg fun hc => hsc hc.2.1]
    exact h.segments.full seg hs hsc o ho

/-- While the log grows nothing is half reclaimed. -/
theorem Log.stored_growing (hgrow : m.isStateReclamation = false) (a : LogAddr) :
    m.stored c a = m.plain c a := by
  unfold SegMap.stored
  rw [if_neg fun hc => by rw [hgrow] at hc; exact absurd hc.1 Bool.false_ne_true]
  rfl

/-- The last segment is written: all segments are full, and the slot after theirs is free. -/
theorem Log.between_grown (h : Log nBytes f m c) (hgrow : m.isStateReclamation = false)
    (hall : m.nSegments = segmentsCount) (hend : m.headOffset = pagesPerSlot) :
    Between { m with
      previouslyWrittenSegment := m.reclaimed.segment, newSlotId := segmentsCount } c := by
  have hgrowing : m.mapping.Growing := by
    rcases h.segments.phase with hg | hr
    · exact hg
    · rw [hr.reclamation] at hgrow
      exact absurd hgrow.symm Bool.false_ne_true
  refine ⟨hgrowing.reclaiming hall, fun seg hs o ho => ?_, fun o ho => ?_⟩
  · show c (m.segToSlot seg) o ≠ none
    by_cases hsc : seg = m.reclaimed.segment
    · rw [hsc, h.segments.phase.newSlot_eq hgrow]
      exact h.new_full hend ho
    · exact h.segments.full seg hs hsc o ho
  · have hcur := h.segments.phase.current_lt
    exact h.segments.fresh hgrow _ (by omega) (Nat.le_refl _) o ho

end Finish

/-- The map in which the next segment is chosen, once all are allocated. -/
def SegMap.freeing (m : SegMap) (newSlot : Nat) : SegMap :=
  { m with previouslyWrittenSegment := m.reclaimed.segment, newSlotId := newSlot }

/-- The segment of `s` is finished: while the log grows nothing was to be done, and once all
segments are allocated, each of them is full and one slot is free. -/
structure Finished (s : World) (c : Contents) (newSlot : Nat) (t : World) : Prop where
  freed : newSlot = s.segMap.freedSlot
  nSegments : t.segMap.nSegments = s.segMap.nSegments
  isEuReserve : t.segMap.isEuReserve = s.segMap.isEuReserve
  reserveEuAddr : t.segMap.reserveEuAddr = s.segMap.reserveEuAddr
  reclaimed : t.segMap.reclaimed = s.segMap.reclaimed
  sequenceNum : t.segMap.sequenceNum = s.segMap.sequenceNum
  obsCountersMap : t.obsCountersMap = s.obsCountersMap
  lfsrState : t.lfsrState = s.lfsrState
  badEu : t.flash.badEu = s.flash.badEu
  growing : s.segMap.allSegmentsAllocated = false → t = s
  spared : CopyBackSpared s.flash s.segMap → CopyBackSpared t.flash (t.segMap.freeing newSlot)
  between : s.segMap.allSegmentsAllocated = true → ∃ c',
    Between (t.segMap.freeing newSlot) c' ∧ Layout t.flash (t.segMap.freeing newSlot) c' ∧
      t.flash.validEuAt (t.segMap.segToSlot firstReserveSegment) 2 ≠ phyAddressEmpty ∧
      ∀ a : LogAddr, a.segment < s.segMap.nSegments → a.offset < pagesPerSlot →
        (t.segMap.freeing newSlot).plain c' a = s.segMap.stored c a

section FinishSpec
variable {E : Halt → World → Prop} (hE : ∀ t, E .powerLoss t) {s : World} {c : Contents}
  {nBytes : Nat}
include hE

theorem wp_finishSegment (h : Log nBytes s.flash s.segMap c)
    (hend : s.segMap.headOffset = pagesPerSlot) :
    wp finishSegment (fun r t => r.1 = 0 ∧ Finished s c r.2 t) E s := by
  unfold finishSegment
  rw [wp_bind, wp_getSegMap]
  refine wp_ite (fun hrec => ?_) fun hgrow => ?_
  · -- the old slot of the segment is erased
    obtain ⟨hbetween, hplain⟩ := h.between_reclaimed hrec hend
    have hcur := h.segments.phase.current_lt
    rw [wp_bind]
    refine wp_truncateSlot hE h.head.layout (h.segments.phase.data_slot hcur) fun t hon ht _ => ?_
    have hm := hon.segMap
    have hres : ∀ seg ∈ reserveSegments, s.segMap.exchanged.segToSlot seg
        = s.segMap.segToSlot seg := by
      intro seg hseg
      have := mem_reserveSegments.mp hseg
      have := firstReserveSegment_eq
      have := h.segments.phase.le
      exact SegMap.exchanged_slot_of_ne (by omega)
    rw [hm] at ht
    rw [if_neg (not_not_intro rfl), wp_bind, wp_modifySegMap, wp_pure, hm]
    have hall : s.segMap.allSegmentsAllocated = true := (Bool.and_eq_true_iff.mp hrec).1
    refine ⟨rfl, (if_pos hrec).symm, rfl, rfl, rfl, rfl, rfl, hon.obsCountersMap, hon.lfsrState,
      hon.badEu, fun hno => ?_, fun hcb => ?_, fun _ => ⟨_, hbetween, ht.congr hres, ?_, hplain⟩⟩
    · rw [hall] at hno
      exact absurd hno Bool.true_eq_false.mp
    · have hspared := hon.spared hcb
      rw [hm] at hspared
      exact hspared.congr (hres _ firstReserveSegment_mem) rfl rfl
    · show t.flash.validEuAt (s.segMap.exchanged.segToSlot firstReserveSegment) 2 ≠ _
      rw [hres _ firstReserveSegment_mem, Flash.validEuAt_congr hon.badEu]
      exact h.head.copyBack
  · have hgrow : s.segMap.isStateReclamation = false := Bool.eq_false_of_not_eq_true hgrow
    rw [wp_pure]
    refine ⟨rfl, (if_neg (by rw [hgrow]; exact Bool.false_ne_true)).symm, rfl, rfl, rfl, rfl, rfl,
      rfl, rfl, rfl, fun _ => rfl, fun hcb => hcb.congr rfl rfl rfl,
      fun hall => ⟨c, h.between_grown hgrow (beq_iff_eq.mp hall) hend,
        h.head.layout.congr fun _ _ => rfl, h.head.copyBack, fun a _ _ => ?_⟩⟩
    exact (Log.stored_growing hgrow a).symm

/-- The state in which wear leveling begins. -/
theorem Finished.wearsAt {u : World} (h : Log nBytes s.flash s.segMap c)
    (hend : s.segMap.headOffset = pagesPerSlot) (hu : WearsAt s u) :
    ∃ c', Between u.segMap c' ∧ Layout u.flash u.segMap c' ∧
      u.flash.validEuAt (u.segMap.segToSlot firstReserveSegment) 2 ≠ phyAddressEmpty ∧
      ∀ a : LogAddr, a.segment < s.segMap.nSegments → a.offset < pagesPerSlot →
        u.segMap.plain c' a = s.segMap.stored c a := by
  obtain ⟨finish, all, toss⟩ := hu
  obtain ⟨-, ht⟩ := of_wp_ok (wp_finishSegment hE h hend) finish
  exact ht.between (by rw [← all, SegMap.allSegmentsAllocated, SegMap.allSegmentsAllocated,
    ht.nSegments])

end FinishSpec

/-! ## Choosing the next one -/

section Choose
variable {E : Halt → World → Prop} (hE : ∀ t, E .powerLoss t) {s : World} {c : Contents}
  {nBytes : Nat} {live : LogAddr → Option Block}

/-- A segment to be reclaimed is opened at its header. -/
theorem Between.log (h : Between s.segMap c) (hlay : Layout s.flash s.segMap c)
    (hcb : s.flash.validEuAt (s.segMap.segToSlot firstReserveSegment) 2 ≠ phyAddressEmpty)
    (hres : s.segMap.isEuReserve = false → s.segMap.reserveEuAddr = phyAddressEmpty)
    (hfits : headerPages nBytes ≤ pagesPerSlot) {seg : Nat} (hseg : seg < segmentsCount)
    {m : SegMap} (hm : m = { s.segMap with reclaimed := ⟨seg, 0⟩ }) :
    Log nBytes s.flash m c ∧ ∀ a, m.stored c a = s.segMap.plain c a := by
  have hrec : m.mapping.Reclaiming := by
    rw [hm]
    exact ⟨h.reclaiming.all, hseg, h.reclaiming.assigned, h.reclaiming.spare⟩
  have hstate := hrec.reclamation
  have hnew := (show m.mapping.Phase from .inr hrec).newSlot_data
  rw [hm] at hstate hrec hnew ⊢
  refine ⟨⟨⟨hlay.congr fun _ _ => rfl, hcb, hres, hnew, fun hgrow => ?_, Nat.zero_le _,
    fun o ho => ?_, fun h0 => absurd (Nat.zero_mod _) h0⟩,
    ⟨.inr hrec, fun i hi _ o ho => h.full i hi o ho, fun _ o ho => h.full seg ?_ o ho,
      fun hgrow => ?_⟩, hfits, .inl rfl⟩, fun a => ?_⟩
  · rw [hstate] at hgrow
    exact absurd hgrow.symm Bool.false_ne_true
  · exact iff_of_false (not_not_intro (h.blank o ho)) (Nat.not_lt_zero o)
  · have hall : s.segMap.nSegments = segmentsCount := h.reclaiming.all
    rw [hall]
    exact hseg
  · rw [hstate] at hgrow
    exact absurd hgrow.symm Bool.false_ne_true
  · unfold SegMap.stored
    rw [if_neg fun hc => absurd hc.2.2 (Nat.not_lt_zero _)]
    rfl

theorem segmentToReclaim_lt {counters : ObsCounters} {cur seg : Nat}
    (h : segmentToReclaim counters cur = some seg) : seg < segmentsCount := by
  obtain ⟨level, -, hfind⟩ := List.exists_of_findSome?_eq_some h
  exact List.mem_range.mp (List.mem_of_find?_eq_some hfind)

/-- The segment to reclaim is chosen. -/
theorem wp_chooseReclaimed {Q : Nat → World → Prop} (h : Between s.segMap c)
    (hlay : Layout s.flash s.segMap c)
    (hcb : s.flash.validEuAt (s.segMap.segToSlot firstReserveSegment) 2 ≠ phyAddressEmpty)
    (hres : s.segMap.isEuReserve = false → s.segMap.reserveEuAddr = phyAddressEmpty)
    (hfits : headerPages nBytes ≤ pagesPerSlot)
    (hreclaim : segmentToReclaim s.obsCountersMap s.segMap.reclaimed.segment ≠ none)
    (hq : ∀ seg t, t = { s with segMap := { s.segMap with reclaimed := ⟨seg, 0⟩ } } →
      Log nBytes t.flash t.segMap c → (∀ a, t.segMap.stored c a = s.segMap.plain c a) → Q 0 t) :
    wp (do if (← findSegmentToReclaim) ≠ 0 then pure errorFlashFull else pure 0) Q E s := by
  obtain ⟨seg, hseg⟩ := Option.ne_none_iff_exists'.mp hreclaim
  have hlt := segmentToReclaim_lt hseg
  have hmod : seg % 4096 = seg := by
    have := segmentsCount_add
    have := nSlots_le
    exact Nat.mod_eq_of_lt (by omega)
  have hrun : findSegmentToReclaim s = .ok 0
      { s with segMap := { s.segMap with reclaimed := ⟨seg, 0⟩ } } := by
    unfold findSegmentToReclaim
    rw [bind_ok (show (get : SeqM World) s = .ok s s from rfl), hseg]
    show EStateM.Result.ok 0 { s with segMap := { s.segMap with reclaimed := ⟨seg % 4096, 0⟩ } } = _
    rw [hmod]
  rw [wp_bind, wp_ok_iff hrun, if_neg (not_not_intro rfl), wp_pure]
  obtain ⟨hlog, hstored⟩ := h.log (m := { s.segMap with reclaimed := ⟨seg, 0⟩ }) hlay hcb hres
    hfits hlt rfl
  exact hq seg _ rfl hlog hstored

include hE in
/-- The choice of the next segment, all being allocated and the slot `newSlot` free. -/
theorem wp_nextSegment_all {Q : Nat → World → Prop} {newSlot : Nat} {m : SegMap}
    (hm : m = { s.segMap with
      previouslyWrittenSegment := s.segMap.reclaimed.segment, newSlotId := newSlot })
    (hall : s.segMap.allSegmentsAllocated = true) (h : Between m c) (hlay : Layout s.flash m c)
    (hcb : s.flash.validEuAt (m.segToSlot firstReserveSegment) 2 ≠ phyAddressEmpty)
    (hres : m.isEuReserve = false → m.reserveEuAddr = phyAddressEmpty)
    (hfits : headerPages nBytes ≤ pagesPerSlot)
    (hreclaim : segmentToReclaim s.obsCountersMap m.reclaimed.segment ≠ none)
    (slot : Nat) (hslot : slot = ({ s with
      lfsrState := tactLfsrTimes powSlots s.lfsrState, segMap := m } : World).pickedSlot)
    (hwear : s.tossed = true → ({ s with
      lfsrState := tactLfsrTimes powSlots s.lfsrState, segMap := m } : World).CanWear)
    (hlive : InView nBytes m.nSegments (m.plain c) live)
    (hq : ∀ t c', Log nBytes t.flash (t.segMap.setReclaimedOffset 0) c' →
      Live nBytes (t.segMap.setReclaimedOffset 0) c' live →
      t.flash.badEu = s.flash.badEu → t.segMap.isEuReserve = m.isEuReserve →
      t.segMap.sequenceNum = m.sequenceNum →
      (t.segMap.newSlotId = newSlot ∨ s.tossed = true ∧ t.segMap.newSlotId = slot) →
      t.segMap.nSegments = m.nSegments → t.obsCountersMap = s.obsCountersMap →
      (∀ a : LogAddr, a.segment < m.nSegments → a.offset < pagesPerSlot →
        (t.segMap.setReclaimedOffset 0).stored c' a = m.plain c a) →
      ((s.tossed = true → ({ s with
        lfsrState := tactLfsrTimes powSlots s.lfsrState, segMap := m } : World).WearSpares) →
        CopyBackSpared s.flash m → CopyBackFree t.flash t.segMap) → Q 0 t) :
    wp (nextSegment newSlot) Q E s := by
  have hnew : m.newSlotId = newSlot := by rw [hm]
  -- a segment to reclaim is chosen after the slots were moved
  have hchoose : ∀ (u : World) c', Between u.segMap c' → Layout u.flash u.segMap c' →
      u.flash.validEuAt (u.segMap.segToSlot firstReserveSegment) 2 ≠ phyAddressEmpty →
      u.segMap.reclaimed = m.reclaimed → u.segMap.nSegments = m.nSegments →
      u.segMap.isEuReserve = m.isEuReserve → u.segMap.reserveEuAddr = m.reserveEuAddr →
      u.segMap.sequenceNum = m.sequenceNum → u.obsCountersMap = s.obsCountersMap →
      u.flash.badEu = s.flash.badEu →
      (∀ a, a.segment < m.nSegments → a.offset < pagesPerSlot →
        u.segMap.plain c' a = m.plain c a) →
      (u.segMap.newSlotId = newSlot ∨ s.tossed = true ∧ u.segMap.newSlotId = slot) →
      ((s.tossed = true → ({ s with
        lfsrState := tactLfsrTimes powSlots s.lfsrState, segMap := m } : World).WearSpares) →
        CopyBackSpared s.flash m → CopyBackFree u.flash u.segMap) →
      wp (do if (← findSegmentToReclaim) ≠ 0 then pure errorFlashFull else pure 0) Q E u := by
    intro u c' hb hlayu hcbu hrecu hn hresu haddr hseq hcount hbad hplain hslotu hspares
    refine wp_chooseReclaimed hb hlayu hcbu (by rw [hresu, haddr]; exact hres) hfits
      (by rw [hcount, hrecu]; exact hreclaim) fun seg t ht hlog hstored => ?_
    subst ht
    have hview : ∀ a : LogAddr, a.segment < m.nSegments → a.offset < pagesPerSlot →
        SegMap.stored { u.segMap with reclaimed := ⟨seg, 0⟩ } c' a = m.plain c a :=
      fun a ha ho => (hstored a).trans (hplain a ha ho)
    refine hq _ c' hlog ?_ hbad hresu hseq hslotu hn hcount hview fun hwear hcb =>
      (hspares hwear hcb).of_flag rfl rfl rfl
    exact hlive.congr (by show m.nSegments ≤ u.segMap.nSegments; omega)
      fun a ha _ ho => hview a ha ho
  unfold nextSegment
  rw [wp_bind, wp_modifySegMap, wp_bind, wp_getSegMap]
  refine wp_ite (fun _ => ?_) fun hno => absurd hall hno
  rw [wp_bind, wp_modifySegMap, wp_bind]
  refine wp_of_ok (show genRandBit powSlots _ = .ok s.tossed { s with
    lfsrState := tactLfsrTimes powSlots s.lfsrState, segMap := m } by rw [hm]; rfl) ?_
  refine wp_ite (fun htoss => ?_) fun htoss => ?_
  · refine wp_seqVerify (wp_mono (performWearLeveling_spec hE h hlay hcb (hwear htoss))
      (fun r u hu => ?_) fun _ _ he => he)
    obtain ⟨rfl, hu⟩ := hu
    have hsame := hu.same
    obtain ⟨c', hb, hlayu, hplain⟩ := hu.kept
    rw [if_neg (not_not_intro rfl)]
    refine hchoose u c' hb hlayu hu.copyBack hsame.reclaimed hsame.nSegments hsame.isEuReserve
      hsame.reserveEuAddr hsame.sequenceNum hsame.obsCountersMap hsame.badEu hplain ?_
      fun hwear => hu.spared (hwear htoss)
    rw [← hnew, hslot]
    exact hu.newSlot.imp id fun he => ⟨htoss, he⟩
  · exact hchoose _ c h hlay hcb rfl rfl rfl rfl rfl rfl rfl (fun _ _ _ => rfl) (.inl hnew)
      fun _ hcb => hcb.toCopyBackFree

omit [Config] in
/-- The map with one more segment, opened at its header. -/
def SegMap.grown (m : SegMap) : SegMap :=
  { m with
    segToSlot := Function.update m.segToSlot (m.reclaimed.segment + 1) (m.reclaimed.segment + 1)
    reclaimed := ⟨m.reclaimed.segment + 1, 0⟩
    previouslyWrittenSegment := m.reclaimed.segment
    newSlotId := m.newSlotId + 1
    nSegments := m.nSegments + 1 }

omit [Config] in
theorem SegMap.grown_slot_of_ne {m : SegMap} {seg : Nat} (h : seg ≠ m.reclaimed.segment + 1) :
    m.grown.segToSlot seg = m.segToSlot seg := Function.update_of_ne h _ _

/-- The next segment is no reserve segment. -/
theorem Log.grown_reserve {f : Flash} {m : SegMap} (h : Log nBytes f m c)
    {seg : Nat} (hseg : seg ∈ reserveSegments) :
    m.grown.segToSlot seg = m.segToSlot seg := by
  have := mem_reserveSegments.mp hseg
  have := firstReserveSegment_eq
  have := h.segments.phase.le
  have := h.segments.phase.current_lt
  exact SegMap.grown_slot_of_ne (by omega)

/-- One more segment is allocated: it is blank, and those before keep what they hold. -/
theorem Log.grown {f : Flash} {m : SegMap} (h : Log nBytes f m c)
    (hall : m.nSegments ≠ segmentsCount) (hend : m.headOffset = pagesPerSlot) :
    Log nBytes f m.grown c ∧ ∀ a, a.segment < m.nSegments →
      m.grown.stored c a = m.stored c a := by
  have hgrowing : m.mapping.Growing := by
    rcases h.segments.phase with hg | hr
    · exact hg
    · exact absurd hr.all hall
  have hle := h.segments.phase.le
  have hcur : m.reclaimed.segment + 1 = m.nSegments := hgrowing.current
  have hnew : m.newSlotId = m.reclaimed.segment := hgrowing.newSlot
  have hnext : m.grown.mapping.Growing := hgrowing.next (by
    show m.nSegments < segmentsCount
    omega)
  have hgrow := hgrowing.not_reclamation
  have hgrow' := hnext.not_reclamation
  have hslot : ∀ seg, seg ≠ m.reclaimed.segment + 1 → m.grown.segToSlot seg = m.segToSlot seg :=
    fun seg => SegMap.grown_slot_of_ne
  have hres : ∀ seg ∈ reserveSegments, m.grown.segToSlot seg = m.segToSlot seg :=
    fun seg => h.grown_reserve
  have hblank : ∀ o < pagesPerSlot, c m.grown.newSlotId o = none := by
    intro o ho
    refine h.segments.fresh hgrow _ ?_ ?_ o ho
    · show m.reclaimed.segment < m.newSlotId + 1
      omega
    · show m.newSlotId + 1 ≤ segmentsCount
      omega
  refine ⟨⟨⟨h.head.layout.congr hres, ?_, h.head.notReserve,
    (show m.grown.mapping.Phase from .inl hnext).newSlot_data, fun _ => ?_, Nat.zero_le _,
    fun o ho => ?_, fun h0 => absurd (Nat.zero_mod _) h0⟩,
    ⟨.inl hnext, fun seg hs hne o ho => ?_, fun hrec => ?_, fun _ slot hlt hsl o ho => ?_⟩,
    h.fits, .inl rfl⟩, fun a ha => ?_⟩
  · rw [hres _ firstReserveSegment_mem]
    exact h.head.copyBack
  · exact (Function.update_self _ _ _).trans (congrArg (· + 1) hnew.symm)
  · exact iff_of_false (not_not_intro (hblank o ho)) (Nat.not_lt_zero o)
  · have hs : seg < m.nSegments + 1 := hs
    have hne : seg ≠ m.reclaimed.segment + 1 := hne
    rw [hslot seg hne]
    by_cases hsc : seg = m.reclaimed.segment
    · rw [hsc, h.segments.phase.newSlot_eq hgrow]
      exact h.new_full hend ho
    · exact h.segments.full seg (by omega) hsc o ho
  · rw [hgrow'] at hrec
    exact absurd hrec Bool.false_ne_true
  · have hlt : m.reclaimed.segment + 1 < slot := hlt
    exact h.segments.fresh hgrow slot (by omega) hsl o ho
  · rw [Log.stored_growing hgrow', Log.stored_growing hgrow]
    unfold SegMap.plain
    rw [hslot _ (by omega)]

/-- The next segment, while the log grows. -/
theorem wp_nextSegment_growing {Q : Nat → World → Prop} (h : Log nBytes s.flash s.segMap c)
    (hlive : Live nBytes s.segMap c live) (hall : s.segMap.allSegmentsAllocated = false)
    (hend : s.segMap.headOffset = pagesPerSlot)
    (hq : ∀ t, t.flash = s.flash → t.segMap.setReclaimedOffset 0 = s.segMap.grown →
      Log nBytes t.flash s.segMap.grown c → Live nBytes s.segMap.grown c live →
      t.obsCountersMap = s.obsCountersMap →
      (∀ a, a.segment < s.segMap.nSegments →
        s.segMap.grown.stored c a = s.segMap.stored c a) → Q 0 t)
    (newSlot : Nat) : wp (nextSegment newSlot) Q E s := by
  have hn : s.segMap.nSegments ≠ segmentsCount := by
    intro he
    rw [SegMap.allSegmentsAllocated, he, beq_self_eq_true] at hall
    exact absurd hall.symm Bool.false_ne_true
  obtain ⟨hlog, hstored⟩ := h.grown hn hend
  have hmod : (s.segMap.reclaimed.segment + 1) % 4096 = s.segMap.reclaimed.segment + 1 := by
    have := h.segments.phase.current_lt
    have := h.segments.phase.le
    have := segmentsCount_add
    have := nSlots_le
    exact Nat.mod_eq_of_lt (by omega)
  unfold nextSegment
  rw [wp_bind, wp_modifySegMap, wp_bind, wp_getSegMap]
  refine wp_ite (fun hyes => ?_) fun _ => ?_
  · exact absurd (hall.symm.trans hyes) Bool.false_ne_true
  · rw [wp_bind, wp_modifySegMap, wp_pure]
    refine hq _ rfl ?_ hlog (hlive.congr (Nat.le_succ _) fun a ha _ _ => hstored a ha) rfl hstored
    simp only [SegMap.setReclaimedOffset, SegMap.setSlotForSeg, SegMap.setReclaimedSegment,
      LogAddr.setSegment, LogAddr.setOffset, hmod, Nat.zero_mod, SegMap.grown]

end Choose

end NandFs
