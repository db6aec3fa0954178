import NandFs.LogKept
import NandFs.MediaFaults

/-! # The search for the next free page

In a segment that is reclaimed, `findNextFreePage` copies the live pages from the old slot to
the new one until it comes to a page whose place is free.  The copies hold what the pages
held, so every live logical address keeps its contents.
-/
namespace NandFs

open Program

variable [Config]

/-- The chip and the map hold a log with the contents `c`. -/
structure Log (nBytes : Nat) (f : Flash) (m : SegMap) (c : Contents) : Prop where
  head : Head f m c
  segments : Segments m c
  fits : headerPages nBytes ≤ pagesPerSlot
  opened : m.headOffset = 0 ∨ headerPages nBytes ≤ m.headOffset

/-- The copy-back unit is free, and no page is written to it where one can be written. -/
structure SparesCopyBack (f : Flash) (m : SegMap) : Prop where
  free : CopyBackFree f m
  head : m.headOffset ≠ 0 → CopyBackSpared f m

theorem CopyBackSpared.spares {f : Flash} {m : SegMap} (h : CopyBackSpared f m) :
    SparesCopyBack f m :=
  ⟨h.toCopyBackFree, fun _ => h⟩

/-- From `s` to `t` a copy-back unit that is spared stays so. -/
def KeepsSpared (s t : World) : Prop :=
  SparesCopyBack s.flash s.segMap → SparesCopyBack t.flash t.segMap

theorem KeepsSpared.refl (s : World) : KeepsSpared s s := id

theorem KeepsSpared.trans {s t u : World} (h : KeepsSpared s t) (h' : KeepsSpared t u) :
    KeepsSpared s u :=
  fun hs => h' (h hs)

/-- A page is written at the head. -/
theorem OnChip.keepsSpared {s t u : World} (h : OnChip s t) (h0 : s.segMap.headOffset ≠ 0)
    (hflash : u.flash = t.flash) (hmap : u.segMap = t.segMap.incrementReclaimedOffset) :
    KeepsSpared s u := by
  intro hs
  have hspared := h.spared (hs.head h0)
  rw [hflash, hmap]
  exact CopyBackSpared.spares (hspared.congr rfl rfl rfl)

/-- A page whose place is free again when its segment is reclaimed. -/
def Stored.Reclaimable (st : Stored) : Prop := st.obsolete = true ∨ st.checkpoint ≠ .notPart

/-- The log is ready for a page to be written at the head. -/
structure HeadReady (f : Flash) (m : SegMap) (c : Contents) : Prop where
  opened : m.headOffset ≠ 0
  lt : m.headOffset < pagesPerSlot
  placed : HeadPlaced f m
  free : m.isStateReclamation = true →
    ∃ st, c m.reclaimedSegmentSlot m.headOffset = some st ∧ st.Reclaimable

/-- The current segment of `m` was written further, with pages that belong to no checkpoint. -/
structure Continued (m : SegMap) (c : Contents) (m' : SegMap) (c' : Contents) : Prop where
  newSlot : m'.newSlotId = m.newSlotId
  segment : m'.reclaimed.segment = m.reclaimed.segment
  sequenceNum : m'.sequenceNum = m.sequenceNum
  le : m.headOffset ≤ m'.headOffset
  kept : ∀ o < m.headOffset, c' m.newSlotId o = c m.newSlotId o
  plain : ∀ o, m.headOffset ≤ o → o < m'.headOffset →
    ∃ st, c' m.newSlotId o = some st ∧ st.checkpoint = .notPart

section Continued
variable {m m' m'' : SegMap} {c c' c'' : Contents}

theorem Continued.refl (m : SegMap) (c : Contents) : Continued m c m c :=
  ⟨rfl, rfl, rfl, Nat.le_refl _, fun _ _ => rfl, fun _ hge hlt => absurd hge (by omega)⟩

theorem Continued.placing (m : SegMap) (c : Contents) (x : Bool) (y : Nat) :
    Continued m c (m.placing x y) c :=
  ⟨rfl, rfl, rfl, Nat.le_refl _, fun _ _ => rfl, fun _ hge hlt => absurd hge (by
    have hlt : _ < m.headOffset := hlt
    omega)⟩

theorem Continued.trans (h : Continued m c m' c') (h' : Continued m' c' m'' c'') :
    Continued m c m'' c'' where
  newSlot := h'.newSlot.trans h.newSlot
  segment := h'.segment.trans h.segment
  sequenceNum := h'.sequenceNum.trans h.sequenceNum
  le := h.le.trans h'.le
  kept o ho := by
    rw [← h.newSlot, h'.kept o (Nat.lt_of_lt_of_le ho h.le), h.newSlot]
    exact h.kept o ho
  plain o hge hlt := by
    by_cases ho : o < m'.headOffset
    · obtain ⟨st, hst, hno⟩ := h.plain o hge ho
      exact ⟨st, by rw [← h.newSlot, h'.kept o ho, h.newSlot]; exact hst, hno⟩
    · rw [← h.newSlot]
      exact h'.plain o (Nat.le_of_not_lt ho) hlt

/-- A page that belongs to no checkpoint is written at the head. -/
theorem Continued.write {st : Stored} (ho : m.headOffset < pagesPerSlot)
    (hno : st.checkpoint = .notPart) :
    Continued m c m.incrementReclaimedOffset (c.set m.newSlotId m.headOffset st) := by
  rw [incrementReclaimedOffset_eq ho]
  refine ⟨rfl, rfl, rfl, Nat.le_succ _, fun o hlt => Contents.set_of_ne (by omega), fun o hge hlt => ?_⟩
  have hlt : o < m.headOffset + 1 := hlt
  obtain rfl : o = m.headOffset := by omega
  exact ⟨st, Contents.set_self, hno⟩

end Continued

section Congr
variable {nBytes : Nat} {f t : Flash} {m : SegMap} {c : Contents} {live : LogAddr → Option Block}

theorem Log.placing (h : Log nBytes f m c) {x : Bool} {y : Nat} (hh : Head f (m.placing x y) c) :
    Log nBytes f (m.placing x y) c where
  head := hh
  segments := h.segments.congr rfl
  fits := h.fits
  opened := h.opened

/-- A page written at the head keeps the others live, if its own place was free. -/
theorem Live.write {st : Stored} (h : Live nBytes m c live) (hseg : Segments m c)
    (ho : m.headOffset < pagesPerSlot)
    (hst : ∀ b, live m.reclaimed = some b → st.Valid b) :
    Live nBytes m.incrementReclaimedOffset (c.set m.newSlotId m.headOffset st) live := by
  have hn : m.incrementReclaimedOffset.nSegments = m.nSegments := by
    rw [incrementReclaimedOffset_eq ho]
  intro a b hab
  obtain ⟨hlt, hge, hoff, hpage⟩ := h a b hab
  refine ⟨by rw [hn]; exact hlt, hge, hoff, ?_⟩
  rw [hseg.stored_write ho hlt]
  by_cases ha : a = m.reclaimed
  · subst ha
    rw [if_pos rfl]
    exact ⟨st, rfl, hst b hab⟩
  · rw [if_neg ha]
    exact hpage

theorem Live.placing (h : Live nBytes m c live) (x : Bool) (y : Nat) :
    Live nBytes (m.placing x y) c live := h

/-- Under the head of a segment that grows nothing is live. -/
theorem Live.head_growing (h : Live nBytes m c live) (hlog : Log nBytes f m c)
    (ho : m.headOffset < pagesPerSlot) (hrec : m.isStateReclamation = false) :
    live m.reclaimed = none := by
  cases hb : live m.reclaimed with
  | none => rfl
  | some b =>
    obtain ⟨-, -, -, st, hpage, -⟩ := h _ b hb
    rw [SegMap.stored, if_neg fun hc => Nat.lt_irrefl _ hc.2.2,
      hlog.segments.phase.newSlot_eq hrec] at hpage
    have hblank := hlog.head.blank ho
    rw [SegMap.headOffset, hpage] at hblank
    exact absurd hblank (Option.some_ne_none _)

/-- Nothing is live under a head that is ready. -/
theorem Live.head_free (h : Live nBytes m c live) (hlog : Log nBytes f m c)
    (hr : HeadReady f m c) : live m.reclaimed = none := by
  cases hrec : m.isStateReclamation with
  | false => exact h.head_growing hlog hr.lt hrec
  | true =>
    cases hb : live m.reclaimed with
    | none => rfl
    | some b =>
      obtain ⟨-, -, -, st', hpage, hvalid⟩ := h _ b hb
      obtain ⟨st, hst, hfree⟩ := hr.free hrec
      rw [SegMap.stored, if_neg fun hc => Nat.lt_irrefl _ hc.2.2] at hpage
      obtain rfl : st = st' := Option.some.inj (hst.symm.trans hpage)
      rcases hfree with hobs | hcp
      · rw [hvalid.obsolete] at hobs
        exact absurd hobs Bool.false_ne_true
      · exact absurd hvalid.checkpoint hcp

end Congr

/-! ## Copying -/

section Search
variable {E : Halt → World → Prop} (hE : ∀ t, E .powerLoss t) {s : World} {c : Contents}
  {nBytes : Nat} {live : LogAddr → Option Block}

/-- The counts of pages are kept aside from the levels. -/
theorem wp_addObsCount {Q : Unit → World → Prop} (n : Nat) (hq : ∀ t : World,
    t.flash = s.flash → t.segMap = s.segMap →
    t.obsCountersMap.counters = s.obsCountersMap.counters → Q () t) :
    wp (addObsCount n) Q E s := hq _ rfl rfl rfl

theorem wp_addFreeCount {Q : Unit → World → Prop} (n : Nat) (hq : ∀ t : World,
    t.flash = s.flash → t.segMap = s.segMap →
    t.obsCountersMap.counters = s.obsCountersMap.counters → Q () t) :
    wp (addFreeCount n) Q E s := hq _ rfl rfl rfl

/-- `is_page_to_copy` changes the counts only. -/
theorem wp_isPageToCopy {Q : Bool → World → Prop} {a : Nat} (ha : a < pageCount)
    (hfree : (s.flash.page a).stored.Reclaimable → ∀ t : World, t.flash = s.flash →
      t.segMap = s.segMap → t.obsCountersMap.counters = s.obsCountersMap.counters → Q false t)
    (hcopy : ¬(s.flash.page a).stored.Reclaimable → Q true s) : wp (isPageToCopy a) Q E s := by
  unfold isPageToCopy
  rw [wp_bind, wp_ok_iff (nandReadPageFlags_run ha)]
  refine wp_ite (fun hobs => ?_) fun hobs => wp_ite (fun hcp => ?_) fun hcp => ?_
  · rw [wp_bind]
    exact wp_addObsCount _ fun t hflash hmap hcount => hfree (.inl hobs) t hflash hmap hcount
  · rw [wp_bind]
    exact wp_addFreeCount _ fun t hflash hmap hcount => hfree (.inr hcp) t hflash hmap hcount
  · exact hcopy fun hr => hr.elim hobs hcp

/-- The page under the head of a segment that is reclaimed, in its old slot. -/
theorem Log.old_page (h : Log nBytes s.flash s.segMap c)
    (ho : s.segMap.headOffset < pagesPerSlot) (hrec : s.segMap.isStateReclamation = true) :
    ∃ a st, logicalAddressToPhysical s.segMap.reclaimed s = .ok a s ∧ a < pageCount ∧
      c s.segMap.reclaimedSegmentSlot s.segMap.headOffset = some st ∧
      (s.flash.page a).stored = st ∧ (s.flash.page a).Written := by
  have hslot : s.segMap.IsDataSlot s.segMap.reclaimedSegmentSlot :=
    h.segments.phase.data_slot h.segments.phase.current_lt
  obtain ⟨st, hst⟩ := Option.ne_none_iff_exists'.mp (h.segments.old hrec _ ho)
  obtain ⟨home, hh⟩ := h.head.layout.exists_home hslot ho (by rw [hst]; exact Option.some_ne_none _)
  have hexp : s.segMap.expectedPage s.segMap.reclaimed =
      calcAddress s.segMap.reclaimedSegmentSlot 0 s.segMap.reclaimed.offset := by
    rw [SegMap.expectedPage, if_neg fun hc => Nat.lt_irrefl _ hc.2.2]
    rfl
  have hpage := h.head.layout.holds_at hslot ho hh
  rw [hst] at hpage
  refine ⟨_, st, h.head.layout.logicalAddressToPhysical_run hslot
    (h.segments.phase.slot_ne_noSlot h.segments.phase.current_lt) ho hexp hh, ?_, hst, hpage⟩
  exact (h.head.layout.isEu_home hslot (div_lt_eusPerSlot ho) hh).add_lt
    (Nat.mod_lt _ pagesPerEu_pos)

include hE

/-- `copyValidBlock` at the head: the copy holds what the page held. -/
theorem wp_copyValidBlock {Q : Nat → World → Prop} (h : Log nBytes s.flash s.segMap c)
    (hp : HeadPlaced s.flash s.segMap) (ho : s.segMap.headOffset < pagesPerSlot)
    (hrec : s.segMap.isStateReclamation = true) (org : Nat) {st : Stored}
    (hst : c s.segMap.reclaimedSegmentSlot s.segMap.headOffset = some st)
    (hq : ∀ t, OnChip s t → Head t.flash t.segMap.incrementReclaimedOffset
      (c.set s.segMap.newSlotId s.segMap.headOffset st) → Q 0 t) :
    wp (copyValidBlock s.segMap.target org) Q E s := by
  obtain ⟨a, st', hrun, ha, hst', hpage, hw⟩ := h.old_page ho hrec
  obtain rfl : st = st' := Option.some.inj (hst.symm.trans hst')
  unfold copyValidBlock
  rw [wp_bind, wp_getSegMap, wp_bind, wp_ok_iff hrun, wp_bind,
    wp_ok_iff (nandReadPageTotal_run ha)]
  refine wp_seq (wp_writeBlock hE (Q := fun r t => r = s.segMap.reclaimed ∧ OnChip s t ∧
    Head t.flash t.segMap.incrementReclaimedOffset
      (c.set s.segMap.newSlotId s.segMap.headOffset st)) h.head hp ho hw.copyBack fun t hon ht => ?_) ?_
  · refine ⟨rfl, hon, ?_⟩
    rw [← hpage]
    exact ht
  · rintro r t ⟨rfl, hon, ht⟩
    have hne : s.segMap.reclaimed.segment ≠ noSegmentNum := by
      have := h.segments.phase.current_lt
      have := h.segments.phase.le
      have := segmentsCount_add
      have := nSlots_le
      unfold noSegmentNum
      omega
    rw [wp_pure, if_neg hne]
    exact hq t hon ht

omit hE in
/-- Once a page is written at the head, the log goes on. -/
theorem Log.advance {t : World} {st : Stored} (h : Log nBytes s.flash s.segMap c)
    (h0 : s.segMap.headOffset ≠ 0) (ho : s.segMap.headOffset < pagesPerSlot) (hon : OnChip s t)
    (ht : Head t.flash t.segMap.incrementReclaimedOffset
      (c.set s.segMap.newSlotId s.segMap.headOffset st)) :
    Log nBytes t.flash t.segMap.incrementReclaimedOffset
      (c.set s.segMap.newSlotId s.segMap.headOffset st) where
  head := ht
  segments := by
    rw [hon.segMap]
    exact (h.segments.write _).congr (increment_mapping ho)
  fits := h.fits
  opened := by
    have hge := h.opened.resolve_left h0
    rw [hon.segMap, incrementReclaimedOffset_eq ho]
    exact .inr (Nat.le_succ_of_le hge)

/-- `findNextFreePage` within a segment: the live pages stay, and if it returns 0 the log is
ready.  No page of a checkpoint is copied.  A copy that fails ends the search and changes
nothing. -/
theorem Media.nextFreeInSegment_spec (d : Media) (n : Nat) (h : Log nBytes s.flash s.segMap c)
    (hlive : Live nBytes s.segMap c live) :
    wp (d.nextFreeInSegment 0 n) (fun r t => ∃ c', Log nBytes t.flash t.segMap c' ∧
      Live nBytes t.segMap c' live ∧ (r = some 0 → HeadReady t.flash t.segMap c') ∧
      Continued s.segMap c t.segMap c' ∧ LogKept live s c t c' ∧ KeepsSpared s t) E s := by
  induction n generalizing s c with
  | zero =>
    exact ⟨c, h, hlive, fun hr => absurd hr (Option.some_ne_none _).symm, .refl _ _, .refl _ _,
      .refl s⟩
  | succ n ih =>
    unfold Media.nextFreeInSegment
    rw [wp_bind, wp_getSegMap]
    refine wp_ite (fun _ => ⟨c, h, hlive, fun hr => absurd hr (Option.some_ne_none _).symm,
      .refl _ _, .refl _ _, .refl s⟩) fun hover => ?_
    have ho : s.segMap.headOffset < pagesPerSlot := by
      by_contra hge
      refine hover ?_
      unfold SegMap.isPageOffsetOverflowing
      rw [decide_eq_true (show pagesPerSlot ≤ s.segMap.reclaimed.offset by
        unfold SegMap.headOffset at hge; omega), Bool.true_or]
    have h0 : s.segMap.headOffset ≠ 0 := by
      intro hz
      refine hover ?_
      unfold SegMap.isPageOffsetOverflowing
      rw [show (s.segMap.reclaimed.offset == 0) = true from beq_iff_eq.mpr hz, Bool.or_true]
    obtain ⟨res, a, x, y, hrun, hhead, hres, hspared⟩ := placePage_spec h.head ho
    have hlog := h.placing hhead
    have hplacing : Continued s.segMap c (s.segMap.placing x y) c := .placing _ _ x y
    have hplaced' : LogKept live s c { s with segMap := s.segMap.placing x y } c :=
      .of_eq rfl rfl rfl
    have hspared' : KeepsSpared s { s with segMap := s.segMap.placing x y } := fun hs =>
      (hspared (hs.head h0)).spares
    rw [wp_bind, wp_ok_iff hrun]
    refine wp_ite (fun hne => ?_) fun heq => ?_
    · exact ⟨c, hlog, hlive, fun hr => absurd (Option.some.inj hr) hne, hplacing, hplaced',
        hspared'⟩
    obtain ⟨-, rfl, hplaced⟩ := hres.resolve_right fun herr => by
      rw [herr] at heq
      exact heq (by decide)
    rw [wp_bind, wp_getSegMap]
    refine wp_ite (fun hgrow => ?_) fun hrec => ?_
    · refine ⟨c, hlog, hlive, fun _ => ⟨h0, ho, hplaced, fun hrec => ?_⟩, hplacing, hplaced',
        hspared'⟩
      rw [hrec] at hgrow
      exact absurd hgrow Bool.false_ne_true
    have hrec : (s.segMap.placing x y).isStateReclamation = true := by
      simpa using hrec
    obtain ⟨phy, st, hphy, hlt, hst, hpage, -⟩ := Log.old_page
      (s := { s with segMap := s.segMap.placing x y }) hlog ho hrec
    rw [wp_bind, wp_ok_iff hphy, wp_bind]
    refine wp_isPageToCopy hlt (fun hfree t hflash hmap hcount => ?_) fun hcopy => ?_
    · rw [if_neg Bool.false_ne_true]
      have hflash : t.flash = s.flash := hflash
      have hmap : t.segMap = s.segMap.placing x y := hmap
      refine ⟨c, ?_, ?_, fun _ => ?_, ?_, .of_eq ?_ ?_ hcount, fun hs => ?_⟩
      · rw [hflash, hmap]
        exact hlog
      · rw [hmap]
        exact hlive
      · rw [hflash, hmap]
        exact ⟨h0, ho, hplaced, fun _ => ⟨st, hst, by rw [← hpage]; exact hfree⟩⟩
      · rw [hmap]
        exact hplacing
      · rw [hmap]
        rfl
      · rw [hmap]
        rfl
      · rw [hflash, hmap]
        exact hspared' hs
    · rw [if_pos rfl, wp_bind]
      rcases d.copyValidBlock_cases hphy hlt with hfail | hcopied
      · rw [wp_ok_iff hfail, if_pos (Nat.succ_ne_zero 0)]
        exact ⟨c, hlog, hlive, fun hr => absurd (Option.some.inj hr) (Nat.succ_ne_zero 0), hplacing,
          hplaced', hspared'⟩
      have hplain : st.checkpoint = .notPart := by
        by_contra hcp
        refine hcopy (.inr ?_)
        rw [hpage]
        exact hcp
      refine wp_run_congr hcopied ?_
      refine wp_copyValidBlock hE (s := { s with segMap := s.segMap.placing x y }) hlog hplaced ho
        hrec _ hst fun t hon ht => ?_
      have hm : t.segMap = s.segMap.placing x y := hon.segMap
      rw [if_neg (not_not_intro rfl), wp_bind, wp_modifySegMap]
      have hwritten : Continued s.segMap c t.segMap.incrementReclaimedOffset
          (c.set s.segMap.newSlotId s.segMap.headOffset st) := by
        rw [hm]
        exact hplacing.trans (.write ho hplain)
      -- the copy holds what the page held, which is not marked
      have hold : s.segMap.stored c s.segMap.reclaimed = some st := by
        rw [SegMap.stored, if_neg fun hc => Nat.lt_irrefl _ hc.2.2]
        exact hst
      have hkept : LogKept live s c { t with segMap := t.segMap.incrementReclaimedOffset }
          (c.set s.segMap.newSlotId s.segMap.headOffset st) := by
        refine hplaced'.trans (.write hlog.segments hlive ho ?_ (fun _ _ => hold)
          (congrArg SegMap.incrementReclaimedOffset hm) (by rw [hon.obsCountersMap]))
        refine Bool.eq_false_of_not_eq_true fun hobs => hcopy (.inl ?_)
        rw [hpage]
        exact hobs
      refine wp_mono (ih (Log.advance (s := { s with segMap := s.segMap.placing x y }) hlog h0 ho
        hon ht) ?_) (fun r u hu => ?_) fun _ _ he => he
      · show Live nBytes t.segMap.incrementReclaimedOffset _ live
        rw [hm]
        refine Live.write hlive hlog.segments ho fun b hb => ?_
        obtain ⟨-, -, -, st', hst', hvalid⟩ := hlive _ b hb
        obtain rfl : st = st' := Option.some.inj (hold.symm.trans hst')
        exact hvalid
      · obtain ⟨c', hlog', hlive', hready, hcont, hkept', hspared⟩ := hu
        have hwrite : KeepsSpared { s with segMap := s.segMap.placing x y }
            { t with segMap := t.segMap.incrementReclaimedOffset } := hon.keepsSpared h0 rfl rfl
        exact ⟨c', hlog', hlive', hready, hwritten.trans hcont, hkept.trans hkept',
          hspared'.trans (hwrite.trans hspared)⟩

theorem nextFreeInSegment_spec (n : Nat) (h : Log nBytes s.flash s.segMap c)
    (hlive : Live nBytes s.segMap c live) :
    wp (nextFreeInSegment 0 n) (fun r t => ∃ c', Log nBytes t.flash t.segMap c' ∧
      Live nBytes t.segMap c' live ∧ (r = some 0 → HeadReady t.flash t.segMap c') ∧
      Continued s.segMap c t.segMap c' ∧ LogKept live s c t c' ∧ KeepsSpared s t) E s := by
  rw [← Media.sound_reliable.nextFreeInSegment_eq]
  exact Media.reliable.nextFreeInSegment_spec hE n h hlive

end Search

end NandFs
