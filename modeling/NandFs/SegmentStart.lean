import NandFs.MediaRuns

/-! # Where a segment starts

`is_eu_reserve` and `reserve_eu_addr` of the segment map are carried over from one segment to the
next.  Where the erase unit written last is not a reserve one, or the first one of the next slot is
bad, the header of the next segment is written to a blank page: the first page of the slot or, where
its erase unit is bad, of a reserve erase unit that was free.  The segment map then says which.
-/
namespace NandFs

open Program

section Runs
variable [Config]

/-- The header of the current segment, as it is written to its slot or a reserve erase unit. -/
def SegMap.headerPage (m : SegMap) : Page where
  main := headerBlock m.sequenceNum m.reclaimed.segment
  flags :=
    if m.isEuReserve then
      { initFlags with segType := .used }.setSlotEuOffset
        (calculateSlotIdAndEuOffset (euAt m.newSlotId 0))
    else { initFlags with segType := .used }

/-- What opening a segment comes to: the result, and the state after it.  The header is at the
first page of the slot, or at that of a free reserve erase unit, or there is none. -/
inductive StartsClean (s : World) : Nat → World → Prop
  | home {t : World} (good : s.flash.good (euAt s.segMap.newSlotId 0) = true)
      (blank : PageHolds s.flash (euAt s.segMap.newSlotId 0) none)
      (slot : t.segMap.newSlotId = s.segMap.newSlotId)
      (isEuReserve : t.segMap.isEuReserve = false)
      (reserveEuAddr : t.segMap.reserveEuAddr = phyAddressEmpty)
      (header : t.flash.page (euAt s.segMap.newSlotId 0) = t.segMap.headerPage) :
      StartsClean s 0 t
  | reserve {t : World} {eu : Nat} (bad : s.flash.good (euAt s.segMap.newSlotId 0) = false)
      (alloc : allocReserveEU (euAt s.segMap.newSlotId 0) s = .ok eu s)
      (mem : s.segMap.IsReserveEu eu) (valid : s.flash.good eu = true)
      (blank : ∀ i < pagesPerEu, PageHolds s.flash (eu + i) none)
      (slot : t.segMap.newSlotId = s.segMap.newSlotId)
      (isEuReserve : t.segMap.isEuReserve = true) (reserveEuAddr : t.segMap.reserveEuAddr = eu)
      (header : t.flash.page eu = t.segMap.headerPage) : StartsClean s 0 t
  | full {t : World} (bad : s.flash.good (euAt s.segMap.newSlotId 0) = false)
      (alloc : allocReserveEU (euAt s.segMap.newSlotId 0) s = .ok phyAddressEmpty s) :
      StartsClean s errorNoReserveEu t

/-- `moveToNextSegment` from `w` opens the segment it chooses on a clean page, and stops only where
the power is lost. -/
def World.MovesClean (w : World) (data : Nat → UInt8) (nBytes : Nat) : Prop :=
  wp (moveToNextSegment (checkpointWriter data nBytes))
    (fun r t => ∃ u, chooseSegment w = .ok 0 u ∧ StartsClean u r t) (fun e _ => e = .powerLoss) w

/-! ## The header stays as it is written -/

/-- The page at `a` was written, and the map is `m` but for the offset. -/
structure HeaderKept (m : SegMap) (a : Nat) (page : Page) (w : World) : Prop where
  segMap : w.segMap.setReclaimedOffset 0 = m
  written : w.flash.mainAreaWrites a = true
  page : w.flash.page a = page

section Kept
variable {m : SegMap} {a : Nat} {page : Page}

/-- A page that was written is not programmed: the driver refuses. -/
theorem HeaderKept.nandProgramTotalPage (data : Page) (b : Nat) :
    Preserves (HeaderKept m a page) (nandProgramTotalPage data b) := by
  have hpower : Preserves (HeaderKept m a page) spendPower :=
    preserves_spendPower fun _ _ hw => ⟨hw.segMap, hw.written, hw.page⟩
  have hprog : ∀ total, Preserves (HeaderKept m a page) (nandProgramPageA data b total) := by
    intro total w hw
    unfold nandProgramPageA
    refine ((frame_getFp b : Frame id (getFp b)).preserves (HeaderKept m a page)).wp_bind hw
      (fun _ t ht => ?_) fun _ _ ht => ht
    refine wp_ite (fun _ => ht) fun _ => ?_
    rw [wp_bind, wp_get, wp_bind]
    refine wp_assert (fun hfresh => ?_) ht
    have hne : a ≠ b := by
      rintro rfl
      have hwritten : t.flash.mainAreaWrites a = true := ht.written
      rw [hwritten] at hfresh
      exact absurd hfresh Bool.false_ne_true
    refine hpower.wp_bind ht (fun _ u hu => ?_) fun _ _ hu => hu
    refine ⟨hu.segMap, ?_, ?_⟩
    · show Function.update u.flash.mainAreaWrites b true a = true
      rw [Function.update_of_ne hne]
      exact hu.written
    · show Function.update u.flash.page b _ a = page
      rw [Function.update_of_ne hne]
      exact hu.page
  have hverify : ∀ total, Preserves (HeaderKept m a page)
      (seqVerify (nandProgramPageA data b total) (pure 0)) := fun total =>
    preserves_bind (hprog total) fun _ =>
      preserves_ite (fun _ => preserves_pure _) fun _ => preserves_pure _
  exact preserves_ite (fun _ => hverify true) fun _ => hverify false

theorem HeaderKept.writeBlock (data : Page) (b : Nat) :
    Preserves (HeaderKept m a page) (writeBlock data b) :=
  preserves_bind ((frame_getSegMap : Frame id getSegMap).preserves _) fun _ =>
    preserves_bind (HeaderKept.nandProgramTotalPage _ _) fun _ =>
      preserves_ite (fun _ => preserves_pure _) fun _ => preserves_pure _

theorem HeaderKept.incrementReclaimedOffset :
    Preserves (HeaderKept m a page) (modifySegMap SegMap.incrementReclaimedOffset) :=
  preserves_modify fun _ hw => ⟨hw.segMap, hw.written, hw.page⟩

/-- The checkpoint behind the header leaves it alone. -/
theorem HeaderKept.checkpointWriter (data : Nat → UInt8) (nBytes : Nat) :
    Preserves (HeaderKept m a page) (checkpointWriter data nBytes true) :=
  preserves_commit_header HeaderKept.writeBlock HeaderKept.incrementReclaimedOffset _ data nBytes

end Kept

section Open
variable {s : World} {c : Contents} {nBytes : Nat} {data : Nat → UInt8}

/-- Where the segment map says that the header goes, there it is written. -/
theorem writeSegmentHeader_page (h0 : s.segMap.headOffset = 0)
    (hlt : s.segMap.target < pageCount) (hblank : PageHolds s.flash s.segMap.target none) :
    wp (writeSegmentHeader (NandFs.checkpointWriter data nBytes))
      (fun _ t => HeaderKept (s.segMap.incrementSequenceNum.setReclaimedOffset 0) s.segMap.target
        s.segMap.incrementSequenceNum.headerPage t) (fun _ _ => True) s := by
  have htarget : (if s.segMap.incrementSequenceNum.isEuReserve then
      s.segMap.incrementSequenceNum.reserveEuAddr
      else calcAddress s.segMap.incrementSequenceNum.newSlotId 0 0) = s.segMap.target := by
    unfold SegMap.target
    rw [h0, Nat.zero_mod, Nat.add_zero]
    rfl
  unfold writeSegmentHeader
  rw [wp_bind, wp_modifySegMap, wp_bind, wp_getSegMap]
  dsimp only
  rw [htarget]
  refine wp_seqVerify (wp_nandProgramTotalPage hlt hblank.2 hblank.1 (fun t ht _ => ?_)
    fun _ => trivial)
  rw [if_neg (not_not_intro rfl), wp_bind, wp_modifySegMap]
  have hkept : HeaderKept (s.segMap.incrementSequenceNum.setReclaimedOffset 0) s.segMap.target
      s.segMap.incrementSequenceNum.headerPage { s with
        flash := t
        segMap := s.segMap.incrementSequenceNum.incrementReclaimedOffset } := by
    refine ⟨rfl, ?_, ?_⟩
    · show t.mainAreaWrites s.segMap.target = true
      rw [ht.writes, Function.update_self]
    · show t.page s.segMap.target = _
      rw [ht.page_eq, Function.update_self]
      rfl
  refine wp_seqVerify (wp_mono (HeaderKept.checkpointWriter data nBytes _ hkept)
    (fun r u hu => ?_) fun _ _ _ => trivial)
  by_cases hr : r ≠ 0
  · rw [if_pos hr]
    exact hu
  · rw [if_neg hr]
    exact hu

/-- The segment chosen is opened on a clean page. -/
theorem openSegment_clean (hlog : Log nBytes s.flash (s.segMap.setReclaimedOffset 0) c)
    (hbad : s.segMap.isEuReserve = true → s.flash.good (euAt s.segMap.newSlotId 0) = false)
    (hfits : HeaderFits nBytes s.flash s.segMap.newSlotId) :
    wp (openSegment (checkpointWriter data nBytes)) (fun r t => StartsClean s r t)
      (fun e _ => e = .powerLoss) s := by
  have hhead := hlog.head
  have hslot := hhead.newSlot
  have hiseu := isEu_euAt hslot.lt eusPerSlot_pos
  have hzero : (s.segMap.setReclaimedOffset 0).headOffset = 0 := Nat.zero_mod _
  have hblank : c.EuBlank s.segMap.newSlotId 0 := by
    have hblank := hhead.euBlank (by rw [hzero]; exact pagesPerSlot_pos) (by rw [hzero, Nat.zero_mod])
    rw [hzero, Nat.zero_div] at hblank
    exact hblank
  -- the header is written where the map says, and the map stays
  have hwrite : ∀ x y a, Opening nBytes s.flash ((s.segMap.setReclaimedOffset 0).placing x y) c →
      HeadPlaced s.flash ((s.segMap.setReclaimedOffset 0).placing x y) →
      a = ((s.segMap.setReclaimedOffset 0).placing x y).target → a < pageCount →
      PageHolds s.flash a none →
      (∀ t : World, t.segMap.newSlotId = s.segMap.newSlotId → t.segMap.isEuReserve = x →
        t.segMap.reserveEuAddr = y → t.flash.page a = t.segMap.headerPage → StartsClean s 0 t) →
      wp (seqVerify (writeSegmentHeader (checkpointWriter data nBytes)) (do
        let m ← getSegMap
        if m.isStateReclamation then changeCounterLevel obsCountNoObsoletes m.reclaimed.segment
        pure 0)) (fun r t => StartsClean s r t) (fun e _ => e = .powerLoss)
        { s with segMap := (s.segMap.setReclaimedOffset 0).placing x y } := by
    intro x y a hopening hplaced ha hlt hnone hq
    subst ha
    have hpage : wp (writeSegmentHeader (checkpointWriter data nBytes)) _ _ _ :=
      writeSegmentHeader_page (s := { s with
        segMap := (s.segMap.setReclaimedOffset 0).placing x y }) hzero hlt hnone
    have hreturn : wp (writeSegmentHeader (checkpointWriter data nBytes)) _ _ _ :=
      wp_writeSegmentHeader (E := fun e _ => e = .powerLoss) (fun _ => rfl)
        (s := { s with segMap := (s.segMap.setReclaimedOffset 0).placing x y })
        (Q := fun r _ => r = 0) hopening hzero hplaced fun _ _ _ _ _ _ => rfl
    refine wp_seqVerify (wp_mono (wp_and hreturn hpage) (fun r t ht => ?_) fun _ _ he => he.1)
    obtain ⟨rfl, hmap, -, hheader⟩ := ht
    have hdone : StartsClean s 0 t := by
      refine hq t (congrArg SegMap.newSlotId hmap :) (congrArg SegMap.isEuReserve hmap :)
        (congrArg SegMap.reserveEuAddr hmap :) (hheader.trans ?_)
      exact (congrArg SegMap.headerPage hmap.symm :)
    rw [if_neg (not_not_intro rfl), wp_bind, wp_getSegMap]
    refine wp_ite (fun _ => ?_) fun _ => hdone
    cases hdone with
    | home good blank slot isEuReserve reserveEuAddr header =>
      exact .home good blank slot isEuReserve reserveEuAddr header
    | reserve bad alloc mem valid blank slot isEuReserve reserveEuAddr header =>
      exact .reserve bad alloc mem valid blank slot isEuReserve reserveEuAddr header
  unfold openSegment
  rw [wp_bind, wp_modifySegMap, wp_bind]
  cases hgood : s.flash.good (euAt s.segMap.newSlotId 0) with
  | true =>
    have hres : s.segMap.isEuReserve = false := by
      cases hr : s.segMap.isEuReserve with
      | false => rfl
      | true =>
        rw [hbad hr] at hgood
        exact absurd hgood Bool.false_ne_true
    have haddr : s.segMap.reserveEuAddr = phyAddressEmpty := hhead.notReserve hres
    have hfirst : PageHolds s.flash (euAt s.segMap.newSlotId 0) none := by
      have hpage := hhead.layout.holds hslot eusPerSlot_pos (.self hgood) 0 pagesPerEu_pos
      rw [show c (s.segMap.setReclaimedOffset 0).newSlotId (0 * pagesPerEu + 0) = none from
        hblank 0 pagesPerEu_pos] at hpage
      exact hpage
    rw [wp_ok_iff (placeHeader_good (s := { s with segMap := s.segMap.setReclaimedOffset 0 }) hiseu
      hgood), if_neg (not_not_intro rfl)]
    refine hwrite s.segMap.isEuReserve s.segMap.reserveEuAddr (euAt s.segMap.newSlotId 0)
      ⟨hhead, hlog.fits, hlog.segment_ne, hbad, hfits⟩ (.home hres ?_) ?_ hiseu.lt hfirst
      fun t ht hr ha hheader => .home hgood hfirst ht (hr.trans hres) (ha.trans haddr) hheader
    · show s.flash.good (euAt s.segMap.newSlotId
        ((s.segMap.setReclaimedOffset 0).headOffset / pagesPerEu)) = true
      rw [hzero, Nat.zero_div]
      exact hgood
    · show _ = if s.segMap.isEuReserve then _ else
        calcAddress s.segMap.newSlotId 0 (s.segMap.setReclaimedOffset 0).headOffset
      rw [hres, if_neg Bool.false_ne_true, hzero]
      rfl
  | false =>
    obtain ⟨r, halloc, hr⟩ := placeHeader_bad (s := { s with
      segMap := s.segMap.setReclaimedOffset 0 }) hhead hgood
    -- the search for a reserve erase unit does not look at the offset
    have halloc' : allocReserveEU (euAt s.segMap.newSlotId 0) s = .ok r s :=
      allocReserveEU_congr (s := { s with segMap := s.segMap.setReclaimedOffset 0 }) (t := s)
        hhead.layout.reserves hiseu hhead.copyBack rfl rfl halloc
    rcases hr with ⟨rfl, hrun⟩ | ⟨⟨mem, hfree⟩, hrun⟩
    · rw [wp_ok_iff hrun, if_pos (by decide)]
      exact .full hgood halloc'
    · have free := Flash.isFree_of_freeEu hfree
      have hblank' := hhead.layout.free mem free
      have hisr := hhead.layout.reserves.isEu_reserve mem
      have hplaced : HeadPlaced s.flash ((s.segMap.setReclaimedOffset 0).placing true r) := by
        refine hhead.placed_reserve (by rw [hzero]; exact pagesPerSlot_pos)
          (by rw [hzero, Nat.zero_mod]) ?_ mem free
        rw [hzero, Nat.zero_div]
        exact hgood
      have hhead' : Head s.flash ((s.segMap.setReclaimedOffset 0).placing true r) c :=
        hhead.placing (fun hno => absurd hno.symm Bool.false_ne_true) fun _ => hplaced
      rw [wp_ok_iff hrun, if_neg (not_not_intro rfl)]
      refine hwrite true r r ⟨hhead', hlog.fits, hlog.segment_ne, fun _ => hgood, hfits⟩ hplaced ?_
        hisr.lt (hblank' 0 pagesPerEu_pos) fun t ht hr ha hheader =>
          .reserve hgood halloc' mem free.1 hblank' ht hr ha hheader
      show r = r + (s.segMap.setReclaimedOffset 0).headOffset % pagesPerEu
      rw [hzero, Nat.zero_mod]
      rfl

/-- Where the next segment can be chosen and its header written, `moveToNextSegment` opens it on a
clean page. -/
theorem CanMove.movesClean (hlog : Log nBytes s.flash s.segMap c) (hmove : CanMove nBytes s)
    (hend : s.segMap.headOffset = pagesPerSlot) (data : Nat → UInt8) : s.MovesClean data nBytes := by
  have hlive : Live nBytes s.segMap c fun _ => none := fun _ b hb =>
    absurd hb (Option.some_ne_none b).symm
  have hchoose := wp_chooseSegment (E := fun e _ => e = .powerLoss) (fun _ => rfl) hlog hlive hmove
    hend
  unfold World.MovesClean
  rw [moveToNextSegment_eq, wp_bind]
  cases hrun : chooseSegment s with
  | error e t =>
    have he := of_wp_error hchoose hrun
    exact (wp_error_iff hrun).mpr he
  | ok r t =>
    obtain ⟨rfl, c', ht⟩ := of_wp_ok hchoose hrun
    rw [wp_ok_iff hrun, if_neg (not_not_intro rfl)]
    exact wp_mono (openSegment_clean ht.log (ht.placed hmove) (ht.fits hmove))
      (fun r u hu => ⟨t, rfl, hu⟩) fun _ _ he => he

/-- In every run of safe calls, each segment that a call moves to starts on a clean page. -/
theorem startsClean_of_run {r : LogState} {v : World} {call : LogCall} (h : HeadRun nBytes r)
    (hsafe : call.SafeHead nBytes data r) (hmoves : call.MovesAt nBytes data r.world v) :
    v.MovesClean data nBytes := by
  obtain ⟨⟨c, hlog, -⟩, hover, hmove⟩ := LogCall.MovesAt.keepsLive
    (s := { r with live := fun _ => none }) h.keepsLog hsafe hmoves
  exact hmove.movesClean hlog (hmove.segmentEnd hlog hover) data

end Open

end Runs

section TinyPage
attribute [local instance] tinyPage

/-- The block is written to the last page of a segment: what `allocAndWriteBlock` comes to before
it looks for the next page. -/
def fillsSegment (nBytes n : Nat) (test : World → Bool) (s : LogState) : Bool :=
  match allocAndWriteBlock LogAddr.empty (allocatedPage (tinyBlock n) .not) false LogAddr.empty
    (checkpointWriter (fun _ => 0) nBytes) .last s.world with
  | .ok r t => r.err == 0 && t.segMap.isPageOffsetOverflowing && test t
  | .error _ _ => false

theorem fillsSegment_spec {nBytes n : Nat} {test : World → Bool} {s : LogState}
    (h : fillsSegment nBytes n test s = true) :
    ∃ v, (writeTiny n).MovesAt nBytes (fun _ => 0) s.world v ∧ test v = true := by
  unfold fillsSegment at h
  split at h
  · rename_i r t halloc
    simp only [Bool.and_eq_true, beq_iff_eq] at h
    obtain ⟨⟨herr, hover⟩, htest⟩ := h
    exact ⟨t, ⟨r, t, halloc, herr, .now (n := 4) hover⟩, htest⟩
  · exact absurd h Bool.false_ne_true

/-- Nine blocks are written to a tiny chip and one of them is marked.  The next one fills the last
segment, and the header of a segment that is reclaimed is written to a clean page. -/
theorem startsClean_of_run_tinyPage : ∃ (s : LogState) (v : World),
    (writeTiny 9).MovesAt 48 (fun _ => 0) s.world v ∧ v.MovesClean (fun _ => 0) 48 := by
  have hcheck : ((LogState.booted 48 (fun _ => 0) (erasedWorld fun _ => false)).bind
      (LogState.afterOn (fun _ call s => call.safeTest 48 (fun _ => 0)
          { s with live := fun _ => none }) 48 (fun _ => 0)
        (((List.range 9).map writeTiny ++ [LogCall.markAsObsolete ⟨1, 7⟩ false]).map
          (Prod.mk .reliable)))).any (fun s =>
            (writeTiny 9).safeTest 48 (fun _ => 0) { s with live := fun _ => none } &&
              fillsSegment 48 9 (fun _ => true) s) = true := by
    decide +kernel
  obtain ⟨s, hs, hcheck⟩ := (Option.any_eq_true _ _).mp hcheck
  obtain ⟨hsafe, hfills⟩ := (Bool.and_eq_true _ _).mp hcheck
  obtain ⟨r, hr, hs⟩ := Option.bind_eq_some_iff.mp hs
  obtain ⟨v, hv, -⟩ := fillsSegment_spec hfills
  have hrun : HeadRun 48 s := by
    refine .afterOn (fun p hp u htest => ?_)
      (.booted (fun _ => ⟨rfl, rfl⟩) ⟨by decide, fun _ _ _ => ⟨rfl, rfl⟩⟩ hr) hs
    obtain ⟨call, -, rfl⟩ := List.mem_map.mp hp
    exact ⟨CopyMedia.sound_reliable, LogCall.safe_of_test htest⟩
  exact ⟨s, v, hv, startsClean_of_run hrun (LogCall.safe_of_test hsafe) hv⟩

/-- The last erase unit of the first slot is bad.  The fifth block fills the segment, in the reserve
erase unit that replaces it, and the header of the next segment goes to that erase unit again,
although the first one of the next slot is good: the driver refuses. -/
theorem startsClean_of_run_fails : ¬∀ s : LogState,
    MediaRun 0 (StartFits 0) (fun _ _ _ _ => True) s →
      ∀ data (call : LogCall) v, call.MovesAt 0 data s.world v → v.MovesClean data 0 := by
  intro h
  have hcheck : ((LogState.booted 0 (fun _ => 0) (erasedWorld (· == 1))).bind
      (LogState.afterOn (fun _ _ _ => true) 0 (fun _ => 0)
        (((List.range 4).map writeTiny).map (Prod.mk .reliable)))).any (fillsSegment 0 4 fun v =>
          errorAnd (moveToNextSegment (checkpointWriter (fun _ => 0) 0)) v fun e _ =>
            decide (e = .abort)) = true := by decide +kernel
  obtain ⟨s, hs, hfills⟩ := (Option.any_eq_true _ _).mp hcheck
  obtain ⟨r, hr, hs⟩ := Option.bind_eq_some_iff.mp hs
  obtain ⟨v, hv, hmove⟩ := fillsSegment_spec hfills
  have hrun : MediaRun 0 (StartFits 0) (fun _ _ _ _ => True) s := by
    refine .afterOn (fun _ _ _ _ => trivial) (.booted (fun _ => ⟨rfl, rfl⟩) ⟨by decide, ?_⟩ hr) hs
    intro e hpos hlt
    have hlt : e * 4 < 3 := hlt
    omega
  have hclean := h s hrun (fun _ => 0) (writeTiny 4) v hv
  obtain ⟨e, t, hexec, habort⟩ := exists_of_errorAnd hmove
  obtain rfl : e = .abort := of_decide_eq_true habort
  exact absurd (of_wp_error hclean hexec) (by decide)

end TinyPage

end NandFs
