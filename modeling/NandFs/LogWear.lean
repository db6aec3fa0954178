import NandFs.LogSearch
import NandFs.SlotMoves
import NandFs.ReserveLayout

/-! # Wear leveling keeps what the segments hold

Between two segments all slots of segments are full and one slot is free.  Moving a slot to
the free one exchanges the two, and every segment holds what it held: the pages of a data slot
are copied with it, and for a reserve slot the copies stand for the same erase units.
-/
namespace NandFs

open Program

variable [Config]

open Config

/-- All segments are written to their ends, and one slot is free and blank. -/
structure Between (m : SegMap) (c : Contents) : Prop where
  reclaiming : m.mapping.Reclaiming
  full : ∀ seg < m.nSegments, ∀ o < pagesPerSlot, c (m.segToSlot seg) o ≠ none
  blank : ∀ o < pagesPerSlot, c m.newSlotId o = none

/-- What the segments hold when none is half reclaimed. -/
def SegMap.plain (m : SegMap) (c : Contents) (a : LogAddr) : Option Stored :=
  c (m.segToSlot a.segment) a.offset

/-- The slot wear leveling picks. -/
def World.pickedSlot (w : World) : Nat :=
  let slot := if debug then segmentsCount / 2 - 2 else w.lfsrState.toNat % 2 ^ powSlots
  if slot = w.segMap.newSlotId then nSlots - 1 - slot else slot

/-- Wear leveling moves only slots: the fields of the map that it leaves alone. -/
structure SameHead (s t : World) : Prop where
  reclaimed : t.segMap.reclaimed = s.segMap.reclaimed
  nSegments : t.segMap.nSegments = s.segMap.nSegments
  isEuReserve : t.segMap.isEuReserve = s.segMap.isEuReserve
  reserveEuAddr : t.segMap.reserveEuAddr = s.segMap.reserveEuAddr
  sequenceNum : t.segMap.sequenceNum = s.segMap.sequenceNum
  obsCountersMap : t.obsCountersMap = s.obsCountersMap
  badEu : t.flash.badEu = s.flash.badEu

theorem chooseRandomSlot_run (s : World) : ∃ t, chooseRandomSlot s = .ok s.pickedSlot t ∧
    t.flash = s.flash ∧ t.segMap = s.segMap ∧ t.obsCountersMap = s.obsCountersMap := by
  unfold chooseRandomSlot World.pickedSlot
  rw [bind_ok (show getSegMap s = .ok s.segMap s from rfl)]
  cases debug with
  | true => exact ⟨s, rfl, rfl, rfl, rfl⟩
  | false => exact ⟨_, rfl, rfl, rfl, rfl⟩

/-! ## The exchange of two slots -/

/-- The map once the slot of `seg` was moved to the free slot. -/
def SegMap.moved (m : SegMap) (seg : Nat) : SegMap :=
  ({ m with newSlotId := m.segToSlot seg }.setSlotForSeg (m.segToSlot seg) newSegment).setSlotForSeg
    m.newSlotId seg

section Moved
variable {m : SegMap} {c c' : Contents} {seg : Nat}

theorem SegMap.moved_slot : (m.moved seg).segToSlot seg = m.newSlotId := Function.update_self _ _ _

theorem SegMap.moved_slot_of_ne {i : Nat} (h : i ≠ seg) (hnew : i ≠ newSegment) :
    (m.moved seg).segToSlot i = m.segToSlot i := by
  show Function.update (Function.update m.segToSlot newSegment (m.segToSlot seg)) seg
    m.newSlotId i = _
  rw [Function.update_of_ne h, Function.update_of_ne hnew]

/-- What the segments hold once the slot of one of them was copied to the free slot and
erased. -/
theorem Between.plain_moved (h : Between m c) (hseg : seg < m.nSegments)
    (hcopy : ∀ o < pagesPerSlot, c' m.newSlotId o = c (m.segToSlot seg) o)
    (hothers : ∀ slot, slot ≠ m.newSlotId → slot ≠ m.segToSlot seg → ∀ o < pagesPerSlot,
      c' slot o = c slot o) {a : LogAddr} (ha : a.segment < m.nSegments)
    (ho : a.offset < pagesPerSlot) : (m.moved seg).plain c' a = m.plain c a := by
  have hphase : m.mapping.Phase := .inr h.reclaiming
  have hall : m.nSegments = segmentsCount := h.reclaiming.all
  have := newSegment_eq
  unfold SegMap.plain
  by_cases hs : a.segment = seg
  · rw [hs, SegMap.moved_slot]
    exact hcopy _ ho
  · rw [SegMap.moved_slot_of_ne hs (by omega)]
    refine hothers _ ?_ ?_ _ ho
    · exact h.reclaiming.assigned.unused _ (mem_existing_of_lt ha)
    · intro he
      exact hs (hphase.slot_inj (mem_existing_of_lt ha) (mem_existing_of_lt hseg) he)

theorem Between.moved (h : Between m c) (hseg : seg < m.nSegments)
    (hcopy : ∀ o < pagesPerSlot, c' m.newSlotId o = c (m.segToSlot seg) o)
    (hclear : ∀ o < pagesPerSlot, c' (m.segToSlot seg) o = none)
    (hothers : ∀ slot, slot ≠ m.newSlotId → slot ≠ m.segToSlot seg → ∀ o < pagesPerSlot,
      c' slot o = c slot o) : Between (m.moved seg) c' where
  reclaiming := h.reclaiming.move (mem_existing_of_lt hseg)
  full := by
    intro i hi o ho
    have hsame := h.plain_moved hseg hcopy hothers (a := ⟨i, o⟩) hi ho
    unfold SegMap.plain at hsame
    rw [hsame]
    exact h.full i hi o ho
  blank := hclear

end Moved

/-! ## The valid erase units of a slot -/

/-- The number of valid erase units of a slot. -/
def Flash.validEus (f : Flash) (slot : Nat) : Nat := (slotEus slot).countP f.good

theorem countValidEus_run {s : World} {slot : Nat} (hs : slot < nSlots) :
    countValidEus slot s = .ok (s.flash.validEus slot) s := by
  unfold countValidEus
  rw [bind_ok (show (get : SeqM World) s = .ok s s from rfl), bind_ok (assert_run (decide_eq_true hs))]
  rfl

theorem Flash.validEuAt_ne_iff {f : Flash} {slot : Nat} (hs : slot < nSlots) :
    f.validEuAt slot 2 ≠ phyAddressEmpty ↔ 2 ≤ f.validEus slot := by
  unfold Flash.validEuAt Flash.validEus
  rw [List.countP_eq_length_filter]
  cases hget : ((slotEus slot).filter f.good)[2 - 1]? with
  | none =>
    have := List.getElem?_eq_none_iff.mp hget
    exact iff_of_false (not_not_intro rfl) (by omega)
  | some eu =>
    obtain ⟨hlt, -⟩ := List.getElem?_eq_some_iff.mp hget
    have heu := (List.mem_filter.mp (List.mem_of_getElem? hget)).1
    exact iff_of_true (isEu_of_mem_slotEus hs heu).ne_empty (by omega)

/-! ## The marks of the copies -/

/-- The bad erase units of a slot. -/
def Flash.badEus (f : Flash) (slot : Nat) : Finset Nat :=
  (Finset.range eusPerSlot).filter fun e => f.good (euAt slot e) = false

/-- The reserve erase units that can be allocated. -/
def World.freeReserves (w : World) : Finset Nat :=
  (w.segMap.reserveEus 0).toFinset.filter fun eu =>
    w.flash.freeEu (w.flash.validEuAt (w.segMap.segToSlot firstReserveSegment) 2) eu = true

/-- Where wear leveling picks the slot of a reserve segment, the free slot has fewer valid
erase units, so that nothing is moved, or all that is in use can be copied to it. -/
def World.CanWear (w : World) : Prop :=
  ∀ seg ∈ reserveSegments, w.segMap.segToSlot seg = w.pickedSlot →
    w.flash.validEus w.segMap.newSlotId < w.flash.validEus w.pickedSlot ∨
      MovesWhole w.flash w.pickedSlot w.segMap.newSlotId 0 0

/-- Where wear leveling picks the slot of the first reserve segment, nothing is moved, or no more
than one of its erase units is in use: the first valid one of the free slot gets it, and the second
stays free for a copy-back. -/
def World.WearSpares (w : World) : Prop :=
  w.segMap.segToSlot firstReserveSegment = w.pickedSlot →
    w.flash.validEus w.segMap.newSlotId < w.flash.validEus w.pickedSlot ∨
      ∀ e < eusPerSlot, ∀ e' < eusPerSlot, w.flash.EuUsed (euAt w.pickedSlot e) →
        w.flash.EuUsed (euAt w.pickedSlot e') → e = e'

/-- The marks of the pages that were copied from a data slot: in the valid erase units of the
free slot they name no place, and there were reserve erase units enough for its bad ones. -/
structure DataMarks (s t : World) : Prop where
  noPlace : ∀ i < pagesPerSlot, s.flash.good (euAt s.segMap.newSlotId (i / pagesPerEu)) = true →
    (t.flash.page (euAt s.segMap.newSlotId (i / pagesPerEu) + i % pagesPerEu)).flags.slotEuOffset
      = noSlotAndEuOffset
  enough : (s.flash.badEus s.segMap.newSlotId).card ≤ s.freeReserves.card

/-- The pages that were copied from a reserve slot: each erase unit in use has a copy in one of
the free slot, and what is in use there is such a copy. -/
structure ReserveMarks (s t : World) : Prop where
  copied : ∀ k < eusPerSlot, s.flash.EuUsed (euAt s.pickedSlot k) → ∃ e < eusPerSlot,
    s.flash.good (euAt s.segMap.newSlotId e) = true ∧ ∀ i < pagesPerEu,
      t.flash.page (euAt s.segMap.newSlotId e + i) = s.flash.page (euAt s.pickedSlot k + i)
  copies : ∀ e < eusPerSlot, t.flash.EuUsed (euAt s.segMap.newSlotId e) → ∃ k < eusPerSlot,
    ∀ i < pagesPerEu,
      t.flash.page (euAt s.segMap.newSlotId e + i) = s.flash.page (euAt s.pickedSlot k + i)

/-- What wear leveling comes to: the segments hold what they held.  If a slot was moved, it is
the free one now, and the copies carry their marks. -/
structure WearLeveled (s : World) (c : Contents) (t : World) : Prop where
  same : SameHead s t
  newSlot : t.segMap.newSlotId = s.segMap.newSlotId ∨ t.segMap.newSlotId = s.pickedSlot
  copyBack : t.flash.validEuAt (t.segMap.segToSlot firstReserveSegment) 2 ≠ phyAddressEmpty
  spared : s.WearSpares → CopyBackSpared s.flash s.segMap → CopyBackFree t.flash t.segMap
  kept : ∃ c', Between t.segMap c' ∧ Layout t.flash t.segMap c' ∧
    ∀ a, a.segment < s.segMap.nSegments → a.offset < pagesPerSlot →
      t.segMap.plain c' a = s.segMap.plain c a
  data : t.segMap.newSlotId ≠ s.segMap.newSlotId → s.segMap.IsDataSlot s.pickedSlot →
    DataMarks s t
  reserve : t.segMap.newSlotId ≠ s.segMap.newSlotId → ¬s.segMap.IsDataSlot s.pickedSlot →
    ReserveMarks s t

section Wear
variable {E : Halt → World → Prop} (hE : ∀ t, E .powerLoss t) {s u : World} {c c' : Contents}

theorem hasEnoughEus_run {slot newSlot : Nat} (hslot : slot < nSlots) (hnew : newSlot < nSlots) :
    hasEnoughEus true slot newSlot s
      = .ok (decide (s.flash.validEus slot ≤ s.flash.validEus newSlot)) s := by
  unfold hasEnoughEus
  rw [if_pos rfl, bind_ok (countValidEus_run hslot), bind_ok (countValidEus_run hnew)]
  rfl

/-- A data slot other than the free one is written. -/
theorem Between.full_slot {m : SegMap} (h : Between m c) {slot : Nat} (hslot : m.IsDataSlot slot)
    (hne : slot ≠ m.newSlotId) : ∀ o < pagesPerSlot, c slot o ≠ none := by
  obtain ⟨seg, hseg, rfl, -⟩ := segmentOfSlot_eq h.reclaiming hslot.lt hne
  rcases Mapping.mem_existing.mp hseg with hs | hs
  · exact h.full seg hs
  · exact absurd rfl (hslot.data seg (mem_reserveSegments.mpr hs))

/-- If all pages of a slot were copied, each bad erase unit of the free slot got a reserve
erase unit that was free. -/
theorem CopiedMarks.enough {slot : Nat} (hlay : Layout s.flash s.segMap c)
    (hnew : s.segMap.IsDataSlot s.segMap.newSlotId)
    (hblank : ∀ o < pagesPerSlot, c s.segMap.newSlotId o = none)
    (hfull : ∀ o < pagesPerSlot, c slot o ≠ none)
    (hm : u.segMap = s.segMap)
    (hc : Copied u c s.segMap.newSlotId slot pagesPerSlot c')
    (hmarks : CopiedMarks s.flash u.flash u.segMap
      (s.flash.validEuAt (s.segMap.segToSlot firstReserveSegment) 2) s.segMap.newSlotId
      pagesPerSlot) : (s.flash.badEus s.segMap.newSlotId).card ≤ s.freeReserves.card := by
  have hgood : ∀ a, u.flash.good a = s.flash.good a := Flash.good_congr hmarks.badEu
  have hhome : ∀ e ∈ s.flash.badEus s.segMap.newSlotId,
      ∃ home, IsHome u.flash s.segMap s.segMap.newSlotId e home := by
    intro e he
    obtain ⟨hlt, hbad⟩ := Finset.mem_filter.mp he
    have hlt := Finset.mem_range.mp hlt
    have hwritten : c' s.segMap.newSlotId (e * pagesPerEu + 0) ≠ none := by
      have ho := offset_lt hlt pagesPerEu_pos
      rw [hc.done _ ho]
      exact hfull _ ho
    have hrep := hc.layout.replaced (by rw [hm]; exact hnew) hlt (by rw [hgood]; exact hbad)
    rw [hm] at hrep
    exact hrep.mpr fun hb => hwritten (hb 0 pagesPerEu_pos)
  choose! home hhome using hhome
  refine Finset.card_le_card_of_injOn home (fun e he => ?_) fun e he e' he' heq => ?_
  · obtain ⟨hlt, hbad⟩ := Finset.mem_filter.mp he
    have hlt := Finset.mem_range.mp hlt
    have hh := hhome e he
    generalize home e = a at hh ⊢
    cases hh with
    | self good =>
      rw [hgood, hbad] at good
      exact absurd good Bool.false_ne_true
    | reserve _ mem stands =>
      refine Finset.mem_filter.mpr ⟨List.mem_toFinset.mpr (SegMap.mem_reserveEus.mpr mem), ?_⟩
      rcases hmarks.fresh (by rw [hm]; exact mem) with hsame | hfree
      · -- it did not stand for the erase unit before, as that was blank
        rw [Flash.standsFor, hgood, hsame, ← Flash.standsFor] at stands
        have hrep := (hlay.replaced hnew hlt hbad).mp ⟨_, .reserve hbad mem stands⟩
        exact absurd (fun i hi => hblank _ (offset_lt hlt hi)) hrep
      · exact hfree
  · have hlt := Finset.mem_range.mp (Finset.mem_filter.mp he).1
    have hlt' := Finset.mem_range.mp (Finset.mem_filter.mp he').1
    have hh := hhome e he
    rw [heq] at hh
    exact (hh.inj (hhome e' he') hnew hnew hlt hlt').2

/-- The valid erase units of the free slot are blank. -/
theorem Layout.blank_free (hlay : Layout s.flash s.segMap c)
    (hnew : s.segMap.IsDataSlot s.segMap.newSlotId)
    (hblank : ∀ o < pagesPerSlot, c s.segMap.newSlotId o = none) :
    ∀ e < eusPerSlot, s.flash.good (euAt s.segMap.newSlotId e) = true → ∀ i < pagesPerEu,
      PageHolds s.flash (euAt s.segMap.newSlotId e + i) none := by
  intro e he hgood i hi
  have hpage := hlay.holds hnew he (.self hgood) i hi
  rwa [hblank _ (offset_lt he hi)] at hpage

/-- Nothing was moved. -/
theorem WearLeveled.refl {t : World} (hb : Between s.segMap c) (hlay : Layout s.flash s.segMap c)
    (hcb : s.flash.validEuAt (s.segMap.segToSlot firstReserveSegment) 2 ≠ phyAddressEmpty)
    (hflash : t.flash = s.flash) (hmap : t.segMap = s.segMap)
    (hcount : t.obsCountersMap = s.obsCountersMap) : WearLeveled s c t where
  same := ⟨by rw [hmap], by rw [hmap], by rw [hmap], by rw [hmap], by rw [hmap], hcount,
    by rw [hflash]⟩
  newSlot := .inl (by rw [hmap])
  copyBack := by rw [hflash, hmap]; exact hcb
  spared := fun _ h => by rw [hflash, hmap]; exact h.toCopyBackFree
  kept := ⟨c, by rw [hmap]; exact hb, by rw [hflash, hmap]; exact hlay,
    fun a _ _ => by rw [hmap]⟩
  data := fun hne => absurd (by rw [hmap]) hne
  reserve := fun hne => absurd (by rw [hmap]) hne

/-- The reserve slot `seg` has was copied to the free slot and erased. -/
theorem WearLeveled.moveReserve {t v : World} {seg j : Nat} {src : Nat → Option Nat}
    (hb : Between s.segMap c) (hlay : Layout s.flash s.segMap c)
    (hcb : s.flash.validEuAt (s.segMap.segToSlot firstReserveSegment) 2 ≠ phyAddressEmpty)
    (hseg : seg ∈ reserveSegments) (hslot : s.segMap.segToSlot seg = s.pickedSlot)
    (henough : s.flash.validEus s.pickedSlot ≤ s.flash.validEus s.segMap.newSlotId)
    (hmoved : ReserveMoved s.flash v.flash s.pickedSlot s.segMap.newSlotId src)
    (hmap : CopyMap s.flash s.pickedSlot s.segMap.newSlotId src eusPerSlot j)
    (hcount : v.obsCountersMap = s.obsCountersMap)
    (hflash : t.flash = v.flash) (hobs : t.obsCountersMap = v.obsCountersMap)
    (hm : t.segMap = s.segMap.moved seg) : WearLeveled s c t := by
  have hphase : s.segMap.mapping.Phase := .inr hb.reclaiming
  have hnew := hphase.newSlot_data
  have hmem : seg ∈ s.segMap.mapping.existing := mem_existing_reserve hseg
  have hseg' := mem_reserveSegments.mp hseg
  have hnewSeg := newSegment_eq
  have hfirst := firstReserveSegment_eq
  have hall : s.segMap.nSegments = segmentsCount := hb.reclaiming.all
  have hother : ∀ i ∈ reserveSegments, i ≠ seg →
      (s.segMap.moved seg).segToSlot i = s.segMap.segToSlot i := by
    intro i hi hne
    have := mem_reserveSegments.mp hi
    exact SegMap.moved_slot_of_ne hne (by omega)
  have hinj : ∀ i ∈ reserveSegments, s.segMap.segToSlot i = s.segMap.segToSlot seg → i = seg :=
    fun i hi he => hphase.slot_inj (mem_existing_reserve hi) hmem he
  have hsegs : ∀ i < s.segMap.nSegments,
      (s.segMap.moved seg).segToSlot i = s.segMap.segToSlot i ∧
        s.segMap.segToSlot i ≠ s.segMap.segToSlot seg := by
    intro i hi
    refine ⟨SegMap.moved_slot_of_ne (by omega) (by omega), fun he => ?_⟩
    have := hphase.slot_inj (mem_existing_of_lt hi) hmem he
    omega
  have hbad : t.flash.badEu = s.flash.badEu := by rw [hflash, hmoved.badEu]
  have hgoods : ∀ a, t.flash.good a = s.flash.good a := Flash.good_congr hbad
  have hne : s.pickedSlot ≠ s.segMap.newSlotId := by
    rw [← hslot]
    exact hb.reclaiming.assigned.unused _ hmem
  have hplt : s.pickedSlot < nSlots := by
    rw [← hslot]
    exact hphase.slot_lt hmem
  have hblankN := hlay.blank_free hnew hb.blank
  refine ⟨⟨by rw [hm]; rfl, by rw [hm]; rfl, by rw [hm]; rfl, by rw [hm]; rfl, by rw [hm]; rfl,
    hobs.trans hcount, hbad⟩, .inr (by rw [hm]; exact hslot), ?_, fun hspares hcbs => ?_,
    ⟨c.clear s.pickedSlot, ?_, ?_, fun a ha ho => ?_⟩, fun _ hdata => ?_, fun _ _ => ⟨?_, ?_⟩⟩
  · -- the copy-back erase unit of the first reserve segment
    rw [hm, Flash.validEuAt_congr hbad]
    by_cases hf : firstReserveSegment = seg
    · rw [hf, SegMap.moved_slot]
      rw [hf, hslot, Flash.validEuAt_ne_iff hplt] at hcb
      rw [Flash.validEuAt_ne_iff hnew.lt]
      omega
    · rw [hother _ firstReserveSegment_mem hf]
      exact hcb
  · by_cases hf : firstReserveSegment = seg
    · have hused := (hspares (by rw [hf]; exact hslot)).resolve_left (by omega)
      rw [hflash, hm]
      subst hf
      refine hmoved.copyBackFree hnew.lt (hlay.blank_free hnew hb.blank) hmap hused ?_
        SegMap.moved_slot
      rw [hslot, Flash.validEuAt_ne_iff hplt] at hcb
      rw [Flash.validEuAt_ne_iff hnew.lt]
      omega
    · -- the slot of the first reserve segment is another one
      have hsame := hother _ firstReserveSegment_mem hf
      rw [hflash, hm]
      refine hcbs.of_flag (by rw [← hflash]; exact hbad) hsame ?_
      rw [hmoved.others]
      · rw [hcbs.getSlot]
        exact hnew.data _ firstReserveSegment_mem
      · rw [hcbs.getSlot, ← hslot]
        exact fun heq => hf (hinj _ firstReserveSegment_mem heq)
  · rw [hm]
    refine ⟨hb.reclaiming.move hmem, fun i hi o ho => ?_, fun o _ => ?_⟩
    · obtain ⟨hsame, hother⟩ := hsegs i hi
      rw [hsame, Contents.clear_of_ne (by rw [← hslot]; exact hother)]
      exact hb.full i hi o ho
    · show c.clear s.pickedSlot (s.segMap.segToSlot seg) o = none
      rw [hslot, Contents.clear_self]
  · rw [hflash, hm, ← hslot]
    rw [← hslot] at hmoved hmap
    exact Layout.moveReserve hseg hnew hinj SegMap.moved_slot hother hmoved hmap hlay hb.blank
      fun slot hdata hne => hb.full_slot hdata hne
  · obtain ⟨hsame, hother⟩ := hsegs a.segment ha
    unfold SegMap.plain
    rw [hm, hsame, Contents.clear_of_ne (by rw [← hslot]; exact hother)]
  · exact absurd hslot (hdata.data seg hseg)
  · intro k hk hused
    obtain ⟨e, he⟩ := hmap.all k hk hk hused
    have hlt := (hmap.lt_eus he).1
    refine ⟨e, hlt, hmap.good he, fun i hi => ?_⟩
    rw [hflash]
    exact hmoved.copied hlt he i hi
  · intro e he hused
    cases hsrc : src e with
    | some k =>
      refine ⟨k, (hmap.lt_eus hsrc).2, fun i hi => ?_⟩
      rw [hflash]
      exact hmoved.copied he hsrc i hi
    | none =>
      -- where nothing was copied the free slot is blank
      have hgood : s.flash.good (euAt s.segMap.newSlotId e) = true := by
        rw [← hgoods]
        exact hused.1
      have hkept := (hmoved.kept he hsrc 0 pagesPerEu_pos).1
      have hpage := (hblankN e he hgood 0 pagesPerEu_pos).1
      rw [Nat.add_zero] at hkept hpage
      have hno := hused.2
      rw [hflash, hkept, hpage] at hno
      exact absurd hno Bool.false_ne_true

include hE

/-- A reserve slot is moved, or nothing is. -/
theorem wp_wearReserve {Q : Nat → World → Prop} {t : World} {seg : Nat} (hb : Between s.segMap c)
    (hlay : Layout s.flash s.segMap c)
    (hcb : s.flash.validEuAt (s.segMap.segToSlot firstReserveSegment) 2 ≠ phyAddressEmpty)
    (hwear : s.CanWear) (hseg : seg ∈ reserveSegments)
    (hslot : s.segMap.segToSlot seg = s.pickedSlot) (hflash : t.flash = s.flash)
    (hmap : t.segMap = s.segMap) (hcount : t.obsCountersMap = s.obsCountersMap)
    (hq : ∀ u, WearLeveled s c u → Q 0 u) :
    wp (do
      if ← hasEnoughEus true s.pickedSlot s.segMap.newSlotId then do
        match ← copySlotLoop s.segMap.newSlotId s.pickedSlot true pagesPerSlot
          ⟨calcAddress s.pickedSlot 0 0, calcAddress s.segMap.newSlotId 0 0, 0, 0, false⟩ with
        | some res => pure res
        | none =>
          seqVerify (truncateSlot s.pickedSlot true) do
            modifySegMap fun m =>
              ({ m with newSlotId := s.pickedSlot }.setSlotForSeg s.pickedSlot
                newSegment).setSlotForSeg s.segMap.newSlotId seg
            pure 0
      else pure 0) Q E t := by
  have hphase : s.segMap.mapping.Phase := .inr hb.reclaiming
  have hmem : seg ∈ s.segMap.mapping.existing := mem_existing_reserve hseg
  have hnew := hphase.newSlot_data
  have hplt : s.pickedSlot < nSlots := by
    rw [← hslot]
    exact hphase.slot_lt hmem
  have hne : s.pickedSlot ≠ s.segMap.newSlotId := by
    rw [← hslot]
    exact hb.reclaiming.assigned.unused _ hmem
  rw [wp_bind, wp_ok_iff (hasEnoughEus_run hplt hnew.lt), hflash]
  refine wp_ite (fun henough => ?_) fun _ => ?_
  · have henough := of_decide_eq_true henough
    have hwhole : MovesWhole s.flash s.pickedSlot s.segMap.newSlotId 0 0 := by
      rcases hwear seg hseg hslot with hless | hwhole
      · omega
      · exact hwhole
    refine wp_seq (copyReserveLoop_spec hE hplt (by rw [hmap]; exact hnew) hne
      (hlay.blank_free hnew hb.blank) hwhole pagesPerSlot (by omega)
      (by rw [hflash]; exact ReserveCopy.refl _ _ _)
      (CopyMap.empty _ _ _) (Nat.zero_mul _).symm (Nat.zero_mul _).symm) ?_
    rintro r u ⟨rfl, hon, src, j, hcopy, hcmap⟩
    refine wp_seqVerify (wp_truncateReserveSlot hE hplt fun v hv herased => ?_)
    have hvm : v.segMap = s.segMap := hv.segMap.trans (hon.segMap.trans hmap)
    rw [if_neg (not_not_intro rfl), wp_bind, wp_modifySegMap, wp_pure]
    refine hq _ (WearLeveled.moveReserve hb hlay hcb hseg hslot henough (hcopy.erase hne herased)
      hcmap (hv.obsCountersMap.trans (hon.obsCountersMap.trans hcount)) rfl rfl ?_)
    show ({ v.segMap with newSlotId := s.pickedSlot }.setSlotForSeg s.pickedSlot
      newSegment).setSlotForSeg s.segMap.newSlotId seg = _
    rw [hvm, ← hslot]
    rfl
  · exact hq t (WearLeveled.refl hb hlay hcb hflash hmap hcount)

/-- A data slot is moved, or there are too few reserve erase units. -/
theorem wp_wearData {Q : Nat → World → Prop} {t : World} {seg : Nat} (hb : Between s.segMap c)
    (hlay : Layout s.flash s.segMap c)
    (hcb : s.flash.validEuAt (s.segMap.segToSlot firstReserveSegment) 2 ≠ phyAddressEmpty)
    (hseg : seg < s.segMap.nSegments) (hslot : s.segMap.segToSlot seg = s.pickedSlot)
    (hflash : t.flash = s.flash) (hmap : t.segMap = s.segMap)
    (hcount : t.obsCountersMap = s.obsCountersMap) (hq : ∀ u, WearLeveled s c u → Q 0 u) :
    wp (do
      match ← copySlotLoop s.segMap.newSlotId s.pickedSlot false pagesPerSlot
        ⟨calcAddress s.pickedSlot 0 0, calcAddress s.segMap.newSlotId 0 0, 0, 0, false⟩ with
      | some res => pure res
      | none =>
        seqVerify (truncateSlot s.pickedSlot false) do
          modifySegMap fun m =>
            ({ m with newSlotId := s.pickedSlot }.setSlotForSeg s.pickedSlot
              newSegment).setSlotForSeg s.segMap.newSlotId seg
          pure 0) Q E t := by
  have hrec := hb.reclaiming
  have hphase : s.segMap.mapping.Phase := .inr hrec
  have hdslot : s.segMap.IsDataSlot s.pickedSlot := by
    rw [← hslot]
    exact hphase.data_slot hseg
  have hnew := hphase.newSlot_data
  have hne : s.pickedSlot ≠ s.segMap.newSlotId := by
    rw [← hslot]
    exact hrec.assigned.unused _ (mem_existing_of_lt hseg)
  have hall : s.segMap.nSegments = segmentsCount := hrec.all
  have hfull : ∀ o < pagesPerSlot, c s.pickedSlot o ≠ none := by
    intro o ho
    rw [← hslot]
    exact hb.full seg hseg o ho
  have hcopied : Copied t c s.segMap.newSlotId s.pickedSlot 0 c := by
    refine ⟨?_, fun i hi => absurd hi (Nat.not_lt_zero i), fun i _ hi => hb.blank i hi,
      fun _ _ => rfl⟩
    rw [hflash, hmap]
    exact hlay
  have hmarks : CopiedMarks s.flash t.flash t.segMap
      (s.flash.validEuAt (s.segMap.segToSlot firstReserveSegment) 2) s.segMap.newSlotId 0 :=
    ⟨by rw [hflash], fun i hi => absurd hi (Nat.not_lt_zero i), fun _ => .inl (by rw [hflash])⟩
  have hmod0 : ¬(0 % pagesPerEu ≠ 0) := not_not_intro (Nat.zero_mod _)
  refine wp_seq (copySlotLoop_spec hE (by rw [hmap]; exact hdslot) hne (by rw [hmap]; exact hnew)
    hfull _ hcopied hmarks ⟨rfl, rfl, fun h0 => absurd h0 hmod0, fun h0 => absurd h0 hmod0⟩
    (by omega) (Nat.zero_le _) (by rw [hflash, hmap]) hcb) ?_
  rintro r u ⟨hon, ⟨rfl, ⟨c', hc⟩, hmarks'⟩ | ⟨rfl, c', hlayu, hblank, hothers⟩⟩
  · -- the slot was copied: it is erased and becomes the free one
    have hum : u.segMap = s.segMap := hon.segMap.trans hmap
    have henough := hmarks'.enough hlay hnew hb.blank hfull hum hc
    refine wp_seqVerify (wp_truncateSlot hE hc.layout (by rw [hum]; exact hdslot)
      fun v hv hlayv hsame => ?_)
    have hvm : v.segMap = s.segMap := hv.segMap.trans hum
    have hwm : ({ v.segMap with newSlotId := s.pickedSlot }.setSlotForSeg s.pickedSlot
        newSegment).setSlotForSeg s.segMap.newSlotId seg = s.segMap.moved seg := by
      rw [hvm, ← hslot]
      rfl
    have hkeep : ∀ i ∈ reserveSegments, (s.segMap.moved seg).segToSlot i = s.segMap.segToSlot i := by
      intro i hi
      have := mem_reserveSegments.mp hi
      have := firstReserveSegment_eq
      have := newSegment_eq
      exact SegMap.moved_slot_of_ne (by omega) (by omega)
    have hcopy : ∀ o < pagesPerSlot, c'.clear s.pickedSlot s.segMap.newSlotId o
        = c (s.segMap.segToSlot seg) o := by
      intro o ho
      rw [Contents.clear_of_ne hne.symm, hslot]
      exact hc.done o ho
    have hclear : ∀ o < pagesPerSlot, c'.clear s.pickedSlot (s.segMap.segToSlot seg) o = none := by
      intro o _
      rw [hslot]
      exact Contents.clear_self o
    have hrest : ∀ slot, slot ≠ s.segMap.newSlotId → slot ≠ s.segMap.segToSlot seg →
        ∀ o < pagesPerSlot, c'.clear s.pickedSlot slot o = c slot o := by
      intro slot h1 h2 o _
      rw [hslot] at h2
      rw [Contents.clear_of_ne h2, hc.others slot h1]
    have hcounts : v.obsCountersMap = s.obsCountersMap :=
      hv.obsCountersMap.trans (hon.obsCountersMap.trans hcount)
    have hbad : v.flash.badEu = s.flash.badEu :=
      hv.badEu.trans (hon.badEu.trans (by rw [hflash]))
    rw [if_neg (not_not_intro rfl), wp_bind, wp_modifySegMap, wp_pure, hwm]
    rw [hvm] at hlayv
    refine hq _ ⟨⟨rfl, rfl, rfl, rfl, rfl, hcounts, hbad⟩, .inr hslot, ?_, fun _ hcbs => ?_,
      ⟨c'.clear s.pickedSlot, hb.moved hseg hcopy hclear hrest, hlayv.congr hkeep,
      fun a ha ho => hb.plain_moved hseg hcopy hrest ha ho⟩, fun _ _ => ⟨fun i hi hgood => ?_, henough⟩,
      fun _ hno => absurd hdslot hno⟩
    · rw [hkeep _ firstReserveSegment_mem, Flash.validEuAt_congr hbad]
      exact hcb
    · have hspared := hv.spared (hon.spared (by rw [hflash, hmap]; exact hcbs))
      rw [hvm] at hspared
      exact hspared.of_flag rfl (hkeep _ firstReserveSegment_mem) rfl
    · have hslotn : getSlot (euAt s.segMap.newSlotId (i / pagesPerEu) + i % pagesPerEu)
          = s.segMap.newSlotId :=
        getSlot_euAt (div_lt_eusPerSlot hi) (Nat.mod_lt i pagesPerEu_pos)
      rw [hum] at hsame
      rw [hsame _ (by rw [hslotn]; exact hne.symm) fun seg' hseg' => by
        rw [hslotn]
        exact (hnew.data seg' hseg').symm]
      exact hmarks'.noPlace i hi hgood
  · -- there was no reserve erase unit left: the free slot is blank again
    have hum : u.segMap = s.segMap := hon.segMap.trans hmap
    have hcounts : u.obsCountersMap = s.obsCountersMap := hon.obsCountersMap.trans hcount
    have hbad : u.flash.badEu = s.flash.badEu := hon.badEu.trans (by rw [hflash])
    have hsame : ∀ i < s.segMap.nSegments, ∀ o, c' (s.segMap.segToSlot i) o
        = c (s.segMap.segToSlot i) o := by
      intro i hi o
      exact congrFun (hothers _ (hrec.assigned.unused _ (mem_existing_of_lt hi))) o
    rw [wp_pure]
    refine hq u ⟨⟨by rw [hum], by rw [hum], by rw [hum], by rw [hum], by rw [hum], hcounts, hbad⟩,
      .inl (by rw [hum]), ?_, fun _ hcbs => ?_, ⟨c', ?_, hlayu, fun a ha _ => ?_⟩,
      fun hno => absurd (by rw [hum]) hno,
      fun hno => absurd (by rw [hum]) hno⟩
    · rw [hum, Flash.validEuAt_congr hbad]
      exact hcb
    · exact (hon.spared (by rw [hflash, hmap]; exact hcbs)).toCopyBackFree
    · rw [hum]
      refine ⟨hrec, fun i hi o ho => ?_, fun o _ => hblank o⟩
      rw [hsame i hi]
      exact hb.full i hi o ho
    · rw [hum]
      exact hsame _ ha _

/-- `performWearLeveling`, for whatever slot it picks. -/
theorem performWearLeveling_spec (hb : Between s.segMap c) (hlay : Layout s.flash s.segMap c)
    (hcb : s.flash.validEuAt (s.segMap.segToSlot firstReserveSegment) 2 ≠ phyAddressEmpty)
    (hwear : s.CanWear) :
    wp performWearLeveling (fun r t => r = 0 ∧ WearLeveled s c t) E s := by
  have hrec := hb.reclaiming
  have hpick := of_wp_ok (chooseRandomSlot_spec s) (chooseRandomSlot_run s).choose_spec.1
  obtain ⟨-, hlt, hne⟩ := hpick
  obtain ⟨seg, hseg, hslot, hfound⟩ := segmentOfSlot_eq hrec hlt hne
  obtain ⟨t, hrun, hflash, hmap, hcount⟩ := chooseRandomSlot_run s
  have hfirst := firstReserveSegment_eq
  have hall : s.segMap.nSegments = segmentsCount := hrec.all
  unfold performWearLeveling
  rw [wp_bind, wp_ok_iff hrun, wp_bind, wp_getSegMap, hmap, hfound, Option.getD_some,
    Option.any_some]
  dsimp only
  rcases Mapping.mem_existing.mp hseg with hdata | hres
  · rw [decide_eq_false (show ¬firstReserveSegment ≤ seg by
      have : seg < s.segMap.nSegments := hdata
      omega)]
    unfold hasEnoughEus
    rw [if_neg Bool.false_ne_true, wp_bind, wp_pure, if_pos rfl]
    exact wp_wearData hE hb hlay hcb hdata hslot hflash hmap hcount fun u hu => ⟨rfl, hu⟩
  · rw [decide_eq_true hres.1]
    exact wp_wearReserve hE hb hlay hcb hwear (mem_reserveSegments.mpr hres) hslot hflash hmap
      hcount fun u hu => ⟨rfl, hu⟩

end Wear

end NandFs
