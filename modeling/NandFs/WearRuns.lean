import NandFs.LogRuns

/-! # Wear leveling in the runs of the log

In a run of safe calls `performWearLeveling` is called with all segments full and one slot
free.  Whatever slot it picks, each logical address reads the same block afterwards, and the
pages that it copied carry the marks by which they are found.
-/
namespace NandFs

open Program

section Runs
variable [Config]

open Config

/-! ## The states on the way -/

/-- A call moves to another segment in the state `v`. -/
def LogCall.MovesAt (nBytes : Nat) (data : Nat → UInt8) : LogCall → World → World → Prop
  | .allocAndWriteBlock logAddr page onlyVOTs prev, w, v =>
    AllocMovesAt logAddr (allocatedPage page .not) onlyVOTs prev (checkpointWriter data nBytes) w v
  | .commit upper, w, v =>
    pageSize ≤ seqCheckpointSize + nBytes ∧
      CommitMovesAt (checkpointWriter data nBytes) upper nBytes
        (calculateInPages (seqCheckpointSize + nBytes)) 0 w v
  | .findNextFreePage, w, v =>
    NandFs.MovesAt (checkpointWriter data nBytes) 0 segmentsCount false w v
  | .markAsObsolete _ _, _, _ => False
  | .readBlock _, _, _ => False

/-- In a run, `performWearLeveling` is called in the state `u`. -/
inductive WearCalled (nBytes : Nat) (start : Flash → Prop)
    (cond : (Nat → UInt8) → LogCall → LogState → Prop) (u : World) : Prop
  | intro {s : LogState} {data : Nat → UInt8} {call : LogCall} {v : World}
      (run : LogRun nBytes start cond s) (ok : cond data call s)
      (moves : call.MovesAt nBytes data s.world v) (wears : WearsAt v u)

section Moves
variable {nBytes : Nat} {data : Nat → UInt8} {live : LogAddr → Option Block} {w v : World}

/-- On the way to a segment change the log holds every live page. -/
theorem MovesAt.keepsLive {n : Nat} {moved : Bool} (h : KeepsLive nBytes live w)
    (hv : MovesAt (checkpointWriter data nBytes) 0 n moved w v)
    (hmove : ∀ v, MovesAt (checkpointWriter data nBytes) 0 n moved w v → CanMove nBytes v) :
    KeepsLive nBytes live v ∧ v.segMap.isPageOffsetOverflowing = true := by
  induction hv with
  | now hover => exact ⟨h, hover⟩
  | @later n moved isNew w t u u' v move search full _ ih =>
    obtain ⟨c, hlog, hlive⟩ := h
    have hfirst := moveAtSegmentEnd_spec (E := fun _ _ => True) (fun _ => trivial) data
      hlog hlive fun hover => hmove w (.now hover)
    obtain ⟨c, hlog, hlive, -⟩ := of_wp_ok hfirst move
    have hsearch := nextFreeInSegment_spec (E := fun _ _ => True) (fun _ => trivial) pagesPerSlot
      hlog hlive
    obtain ⟨c', hlog', hlive', -⟩ := of_wp_ok hsearch search
    have hu : u'.flash = u.flash ∧ u'.segMap = u.segMap := by
      by_cases hm : (moved || isNew) = true
      · rw [if_pos hm] at full
        rw [← (EStateM.Result.ok.inj full).2]
        exact ⟨rfl, rfl⟩
      · rw [if_neg hm] at full
        rw [← (EStateM.Result.ok.inj full).2]
        exact ⟨rfl, rfl⟩
    refine ih ⟨c', ?_, ?_⟩ fun v hv => hmove v (.later move search full hv)
    · rw [hu.1, hu.2]
      exact hlog'
    · rw [hu.2]
      exact hlive'

theorem AllocMovesAt.keepsLive {logAddr prev : LogAddr} {page : Page} {onlyVOTs : Bool}
    (h : KeepsLive nBytes live w) (hcan : ¬w.Refuses → CanWrite live w)
    (hcb : page.flags.copyBack = false) (hobs : page.flags.obsolete = false)
    (hv : AllocMovesAt logAddr page onlyVOTs prev (checkpointWriter data nBytes) w v)
    (hmove : ∀ v, AllocMovesAt logAddr page onlyVOTs prev (checkpointWriter data nBytes) w v →
      CanMove nBytes v) :
    KeepsLive nBytes live v ∧ v.segMap.isPageOffsetOverflowing = true := by
  obtain ⟨c, hlog, hlive⟩ := h
  obtain ⟨r, t, halloc, herr, hv⟩ := hv
  have hwrite : wp (allocAndWriteBlock logAddr page onlyVOTs prev (checkpointWriter data nBytes)
      .last) (fun r t => r.err ≠ 0 ∨ KeepsLive nBytes live t) (fun _ _ => True) w :=
    wp_allocLast (fun _ => trivial) hlog hlive hcan hcb hobs (fun _ hr => .inl hr)
      fun _ t c' _ _ hlog' hlive' _ _ => .inr ⟨c', hlog', hlive'⟩
  rcases of_wp_ok hwrite halloc with hr | ht
  · exact absurd herr hr
  · exact hv.keepsLive ht fun v hv => hmove v ⟨r, t, halloc, herr, hv⟩

theorem CommitMovesAt.keepsLive {upper : Nat → UInt8} {n idx : Nat} (h : KeepsLive nBytes live w)
    (hcan : ¬w.counted.Refuses → CanWrite live w)
    (hv : CommitMovesAt (checkpointWriter data nBytes) upper nBytes n idx w v)
    (hmove : ∀ v, CommitMovesAt (checkpointWriter data nBytes) upper nBytes n idx w v →
      CanMove nBytes v) :
    KeepsLive nBytes live v ∧ v.segMap.isPageOffsetOverflowing = true := by
  have hcan' : ∀ {w : World}, (¬w.counted.Refuses → CanWrite live w) →
      ¬w.counted.Refuses → CanWrite live w.counted := fun hcan hno => by
    obtain ⟨h1, h2, h3, h4⟩ := hcan hno
    exact ⟨h1, h2, h3, h4⟩
  induction hv with
  | @now n idx w v hv =>
    exact AllocMovesAt.keepsLive (w := w.counted) h (hcan' hcan) rfl rfl hv fun v hv => hmove v (.now hv)
  | @later n idx w t v r alloc ok goesOn _ ih =>
    obtain ⟨c, hlog, hlive⟩ := h
    have hone : wp (CopyMedia.reliable.allocAndWriteBlock LogAddr.empty
        (checkpointPage w.counted upper nBytes idx) false LogAddr.empty
        (checkpointWriter data nBytes) .regular) (Allocated data nBytes live live w.counted c
          ((checkpointPage w.counted upper nBytes idx).linked false LogAddr.empty).stored)
        (fun _ _ => True) w.counted :=
      wp_mono (CopyMedia.wp_alloc (fun _ => trivial) live Media.sound_reliable (by decide) hlog hlive
        (hcan' hcan) rfl rfl (fun _ _ hab => hab) (fun _ _ hab => .inl hab)
        fun v hv => hmove v (.now (hv.of_sound CopyMedia.sound_reliable))) (fun _ _ ht => ht.1)
        fun _ _ he => he
    rw [CopyMedia.sound_reliable.allocAndWriteBlock_eq] at hone
    obtain ⟨c', hlog', hlive', -, hok⟩ := of_wp_ok hone alloc
    obtain ⟨-, -, -, hwrite, -⟩ := hok ok
    exact ih ⟨c', hlog', hlive'⟩ (fun _ => hwrite) fun v hv => hmove v (.later alloc ok goesOn hv)

/-- In a run of safe calls the log holds every live page where a call moves to another
segment, and can be moved there. -/
theorem LogCall.MovesAt.keepsLive {s : LogState} {call : LogCall}
    (h : KeepsLive nBytes s.live s.world) (hsafe : call.Safe nBytes data s)
    (hv : call.MovesAt nBytes data s.world v) :
    KeepsLive nBytes s.live v ∧ v.segMap.isPageOffsetOverflowing = true ∧ CanMove nBytes v := by
  cases call with
  | allocAndWriteBlock logAddr page onlyVOTs prev =>
    obtain ⟨hcan, hmove⟩ := hsafe
    obtain ⟨hkeep, hover⟩ := AllocMovesAt.keepsLive h hcan rfl rfl hv hmove
    exact ⟨hkeep, hover, hmove v hv⟩
  | commit upper =>
    obtain ⟨hcan, hmove⟩ := hsafe
    obtain ⟨hkeep, hover⟩ := CommitMovesAt.keepsLive h hcan hv.2 (hmove hv.1)
    exact ⟨hkeep, hover, hmove hv.1 v hv.2⟩
  | findNextFreePage =>
    obtain ⟨hkeep, hover⟩ := NandFs.MovesAt.keepsLive h hv hsafe
    exact ⟨hkeep, hover, hsafe v hv⟩
  | markAsObsolete b isAfterReboot => exact absurd hv not_false
  | readBlock b => exact absurd hv not_false

end Moves

/-! ## What wear leveling keeps -/

/-- The store as it is read once the next segment is opened: `openSegment` resets the offset,
which is at the end of the finished segment as long as the next one is chosen. -/
def World.reopened (w : World) : World := { w with segMap := w.segMap.setReclaimedOffset 0 }

/-- Each logical address reads the same block.  If the slot of a data segment was moved, every
page of it names the place of its erase unit where that is replaced, and none elsewhere; if the
slot of a reserve segment was, the erase units in use were copied with their marks. -/
structure WearKept (s t : World) : Prop where
  reads : ∀ a : LogAddr, a.segment < s.segMap.nSegments → a.offset < pagesPerSlot →
    ∃ block, readBlock a s.reopened = .ok (some block) s.reopened ∧
      readBlock a t.reopened = .ok (some block) t.reopened
  data : t.segMap.newSlotId ≠ s.segMap.newSlotId → s.segMap.IsDataSlot s.pickedSlot →
    ∀ e < eusPerSlot, ∀ home, IsHome t.flash t.segMap s.segMap.newSlotId e home →
      ∀ i < pagesPerEu, (t.flash.page (home + i)).flags.slotEuOffset =
        if home = euAt s.segMap.newSlotId e then noSlotAndEuOffset
        else calculateSlotIdAndEuOffset (euAt s.segMap.newSlotId e)
  reserve : t.segMap.newSlotId ≠ s.segMap.newSlotId → ¬s.segMap.IsDataSlot s.pickedSlot →
    ReserveMarks s t

/-- No page of a data slot is copied to a reserve erase unit for good: the free slot has no bad
erase unit, or more than there are reserve erase units to replace them. -/
def World.KeepsMarks (w : World) : Prop :=
  w.segMap.IsDataSlot w.pickedSlot → w.flash.badEus w.segMap.newSlotId = ∅ ∨
    w.freeReserves.card < (w.flash.badEus w.segMap.newSlotId).card

section Kept
variable {nBytes : Nat} {w s t : World} {c : Contents} {a : LogAddr}

theorem SegMap.reopened_expectedPage (m : SegMap) (a : LogAddr) :
    (m.setReclaimedOffset 0).expectedPage a = calcAddress (m.segToSlot a.segment) 0 a.offset := by
  have hzero : (m.setReclaimedOffset 0).reclaimed.offset = 0 := Nat.zero_mod _
  rw [SegMap.expectedPage, if_neg fun hc => by rw [hzero] at hc; exact Nat.not_lt_zero _ hc.2.2]
  rfl

/-- Between two segments each logical address is read. -/
theorem Between.readBlock_run (h : Between w.segMap c) (hlay : Layout w.flash w.segMap c)
    (ha : a.segment < w.segMap.nSegments) (ho : a.offset < pagesPerSlot) :
    ∃ st, w.segMap.plain c a = some st ∧
      readBlock a w.reopened = .ok (some st.main) w.reopened := by
  have hphase : w.segMap.mapping.Phase := .inr h.reclaiming
  have hslot := hphase.data_slot ha
  obtain ⟨st, hst⟩ := Option.ne_none_iff_exists'.mp (h.full _ ha _ ho)
  obtain ⟨home, hh⟩ := hlay.exists_home hslot ho (by rw [hst]; exact Option.some_ne_none _)
  have hrun := Layout.logicalAddressToPhysical_run (w := w.reopened)
    (hlay.congr fun _ _ => rfl) ⟨hslot.lt, hslot.data⟩ (hphase.slot_ne_noSlot ha) ho
    (w.segMap.reopened_expectedPage a) (hh.congr fun _ _ => rfl)
  have hlt := (hlay.isEu_home hslot (div_lt_eusPerSlot ho) hh).add_lt (Nat.mod_lt a.offset pagesPerEu_pos)
  have hne := ne_empty_of_lt hlt
  have hpage := hlay.holds_at hslot ho hh
  rw [hst] at hpage
  have hmain : (w.flash.page (home + a.offset % pagesPerEu)).main = st.main :=
    congrArg Stored.main hpage.1
  refine ⟨st, hst, ?_⟩
  unfold readBlock
  rw [bind_ok hrun, bind_ok (assert_run (decide_eq_true hne)), bind_ok (nandReadPageTotal_run hlt)]
  show EStateM.Result.ok (some (w.flash.page _).main) w.reopened = _
  rw [hmain]

/-- What wear leveling comes to, for the reader of the log. -/
theorem WearLeveled.kept_marks (hb : Between s.segMap c) (hlay : Layout s.flash s.segMap c)
    (h : WearLeveled s c t) (hmarks : s.KeepsMarks) : WearKept s t where
  reads := by
    intro a ha ho
    obtain ⟨c', hb', hlay', hplain⟩ := h.kept
    obtain ⟨st, hst, hread⟩ := hb.readBlock_run hlay ha ho
    obtain ⟨st', hst', hread'⟩ := hb'.readBlock_run hlay' (by rw [h.same.nSegments]; exact ha) ho
    rw [hplain a ha ho, hst] at hst'
    rw [← Option.some.inj hst'] at hread'
    exact ⟨st.main, hread, hread'⟩
  data := by
    intro hmoved hdata e he home hh i hi
    obtain ⟨hplace, henough⟩ := h.data hmoved hdata
    have hnone : s.flash.badEus s.segMap.newSlotId = ∅ := by
      rcases hmarks hdata with hnone | hfew
      · exact hnone
      · omega
    have hgood : s.flash.good (euAt s.segMap.newSlotId e) = true := by
      cases hg : s.flash.good (euAt s.segMap.newSlotId e) with
      | true => rfl
      | false =>
        have hmem : e ∈ s.flash.badEus s.segMap.newSlotId :=
          Finset.mem_filter.mpr ⟨Finset.mem_range.mpr he, hg⟩
        rw [hnone] at hmem
        exact absurd hmem (Finset.notMem_empty e)
    have hsame : t.flash.good (euAt s.segMap.newSlotId e) = true := by
      rw [Flash.good, h.same.badEu]
      exact hgood
    cases hh with
    | reserve bad =>
      rw [hsame] at bad
      exact absurd bad Bool.true_eq_false.mp
    | self =>
      have hpage := hplace (e * pagesPerEu + i) (offset_lt he hi)
      rw [div_of_eq hi rfl, mod_of_eq hi rfl] at hpage
      rw [if_pos rfl]
      exact hpage hgood
  reserve := h.reserve

/-- In every run of safe calls, wear leveling keeps what each logical address reads and the
marks of what it copies. -/
theorem performWearLeveling_keeps
    (h : WearCalled nBytes (StartFits nBytes) (LogCall.Safe nBytes) w) (hmarks : w.KeepsMarks) :
    wp performWearLeveling (fun r t => r = 0 ∧ WearKept w t) (fun e _ => e = .powerLoss) w := by
  obtain ⟨run, ok, moves, wears⟩ := h
  obtain ⟨⟨c, hlog, hlive⟩, hover, hmove⟩ := moves.keepsLive run.keepsLive ok
  have hend := hmove.segmentEnd hlog hover
  obtain ⟨c', hb, hlay, hcb, -⟩ :=
    Finished.wearsAt (E := fun _ _ => True) (fun _ => trivial) hlog hend wears
  refine wp_mono (performWearLeveling_spec (fun _ => rfl) hb hlay hcb (hmove.wear _ wears))
    (fun r t ht => ⟨ht.1, ht.2.kept_marks hb hlay hmarks⟩) fun _ _ he => he

end Kept

/-! ## A test for safe calls -/

/-- The state in which wear leveling is called at the end of the segment, if it is. -/
def World.wearStart (w : World) : Option World :=
  match finishSegment w with
  | .ok (res, newSlot) t =>
    if res = 0 ∧ t.segMap.allSegmentsAllocated = true ∧ t.tossed = true then
      some { t with
        lfsrState := tactLfsrTimes powSlots t.lfsrState
        segMap := { t.segMap with
          previouslyWrittenSegment := t.segMap.reclaimed.segment, newSlotId := newSlot } }
    else none
  | .error _ _ => none

def fitsTest (nBytes : Nat) (f : Flash) (slot : Nat) : Bool :=
  (List.range (headerPages nBytes)).all fun eu => f.good (euAt slot eu)

/-- `CanMove`, where the head is in no reserve erase unit and wear leveling picks no slot of a
reserve segment. -/
def World.moveTest (nBytes : Nat) (w : World) : Bool :=
  w.segMap.headOffset != 0 &&
    (!w.segMap.allSegmentsAllocated ||
      (segmentToReclaim w.obsCountersMap w.segMap.reclaimed.segment).isSome) &&
    w.wearStart.all (fun u => reserveSegments.all fun seg =>
      u.segMap.segToSlot seg != u.pickedSlot) &&
    !w.segMap.isEuReserve &&
    [w.segMap.freedSlot, w.slotToMove, w.segMap.newSlotId + 1].all (fitsTest nBytes w.flash)

/-- `LogCall.Safe`, where a segment change is followed by a free page. -/
def LogCall.safeTest (nBytes : Nat) (data : Nat → UInt8) : LogCall → LogState → Bool
  | .allocAndWriteBlock logAddr page onlyVOTs prev, s =>
    let m := s.world.segMap
    let cpWriter := checkpointWriter data nBytes
    m.headOffset != 0 && decide (m.headOffset < pagesPerSlot) && !m.isEuReserve &&
      s.world.flash.good (euAt m.newSlotId (m.headOffset / pagesPerEu)) &&
      (s.live m.reclaimed).isNone &&
      match NandFs.allocAndWriteBlock logAddr (allocatedPage page .not) onlyVOTs prev cpWriter .last
        s.world with
      | .ok _ t => (!t.segMap.isPageOffsetOverflowing || t.moveTest nBytes) &&
        match moveAtSegmentEnd cpWriter t with
        | .ok _ u =>
          match nextFreeInSegment 0 pagesPerSlot u with
          | .ok r _ => r.isSome
          | .error _ _ => true
        | .error _ _ => true
      | .error _ _ => true
  | .markAsObsolete b _, s =>
    decide (b.segment < s.world.segMap.nSegments) &&
      match logicalAddressToPhysical b s.world with
      | .ok phy _ => s.world.flash.mainAreaWrites phy
      | .error _ _ => true
  | _, _ => false

section Test
variable {nBytes : Nat} {data : Nat → UInt8} {w u : World} {s t : LogState}

theorem WearsAt.wearStart_eq (h : WearsAt w u) : w.wearStart = some u := by
  obtain ⟨finish, all, toss⟩ := h
  unfold World.wearStart
  rw [finish]
  exact if_pos ⟨rfl, all, toss⟩

theorem WearsAt.of_wearStart (h : w.wearStart = some u) : WearsAt w u := by
  unfold World.wearStart at h
  split at h
  · rename_i res newSlot t finish
    split at h
    · rename_i hc
      obtain ⟨rfl, all, toss⟩ := hc
      obtain rfl := Option.some.inj h
      exact .intro finish all toss
    · cases h
  · cases h

theorem CanMove.of_test (h : w.moveTest nBytes = true) : CanMove nBytes w := by
  unfold World.moveTest at h
  simp only [Bool.and_eq_true, bne_iff_ne, ne_eq, Bool.not_eq_true', List.all_eq_true] at h
  obtain ⟨⟨⟨⟨hopen, hrec⟩, hwear⟩, hno⟩, hfits⟩ := h
  refine ⟨hopen, fun hall hnone => ?_, fun u hu seg hseg hpick => ?_, fun hres => ?_,
    fun slot hslot eu hpos hlt => ?_⟩
  · rw [hall, hnone] at hrec
    exact absurd hrec Bool.false_ne_true
  · rw [hu.wearStart_eq, Option.all_some, List.all_eq_true] at hwear
    exact absurd hpick (bne_iff_ne.mp (hwear seg hseg))
  · rw [hno] at hres
    exact absurd hres Bool.false_ne_true
  · have hmem : slot ∈ [w.segMap.freedSlot, w.slotToMove, w.segMap.newSlotId + 1] := by
      unfold World.NextSlot at hslot
      split at hslot
      · rcases hslot with rfl | ⟨-, rfl⟩ <;> simp
      · simp [hslot]
    have hgood := fun eu hlt => List.all_eq_true.mp (hfits slot hmem) eu (List.mem_range.mpr hlt)
    have hle : eu ≤ eu * pagesPerEu := Nat.le_mul_of_pos_right _ pagesPerEu_pos
    exact ⟨hgood 0 (by omega), hgood eu (by omega)⟩

/-- Such a segment change spares the copy-back unit. -/
theorem World.moveSpares_of_test (h : w.moveTest nBytes = true) : w.MoveSpares := by
  unfold World.moveTest at h
  simp only [Bool.and_eq_true] at h
  obtain ⟨⟨⟨-, hwear⟩, -⟩, -⟩ := h
  intro u hu hpick
  rw [hu.wearStart_eq, Option.all_some, List.all_eq_true] at hwear
  exact absurd hpick (bne_iff_ne.mp (hwear _ firstReserveSegment_mem))

/-- Where a segment change is followed by a free page, there is one change at most. -/
theorem MovesAt.eq_of_found {cpWriter : CheckpointWriter} {n : Nat} {moved : Bool} {v : World}
    (h : MovesAt cpWriter 0 n moved w v)
    (hfound : ∀ r t u, moveAtSegmentEnd cpWriter w = .ok r t →
      nextFreeInSegment 0 pagesPerSlot t ≠ .ok none u) :
    v = w ∧ w.segMap.isPageOffsetOverflowing = true := by
  cases h with
  | now hover => exact ⟨rfl, hover⟩
  | later move search => exact absurd search (hfound _ _ _ move)

/-- Where the test is passed each segment change passes the one for it. -/
theorem LogCall.moveTest_of_test {call : LogCall} {v : World} (h : call.safeTest nBytes data s = true)
    (hv : call.MovesAt nBytes data s.world v) : v.moveTest nBytes = true := by
  cases call with
  | allocAndWriteBlock logAddr page onlyVOTs prev =>
    unfold LogCall.safeTest at h
    simp only [Bool.and_eq_true] at h
    obtain ⟨-, hnext⟩ := h
    obtain ⟨r, t, halloc, -, hv⟩ := hv
    rw [halloc] at hnext
    simp only [Bool.and_eq_true] at hnext
    obtain ⟨hmove, hsearch⟩ := hnext
    obtain ⟨rfl, hover⟩ := hv.eq_of_found fun r t' u hmoved hnone => by
      rw [hmoved] at hsearch
      simp only [hnone, Option.isSome_none, Bool.false_eq_true] at hsearch
    rwa [hover, Bool.not_true, Bool.false_or] at hmove
  | markAsObsolete b isAfterReboot => exact hv.elim
  | commit upper => exact absurd h Bool.false_ne_true
  | findNextFreePage => exact absurd h Bool.false_ne_true
  | readBlock b => exact absurd h Bool.false_ne_true

theorem LogCall.safe_of_test {call : LogCall} (h : call.safeTest nBytes data s = true) :
    call.Safe nBytes data s := by
  cases call with
  | allocAndWriteBlock logAddr page onlyVOTs prev =>
    have hmove := fun v hv => CanMove.of_test (LogCall.moveTest_of_test h (v := v) hv)
    unfold LogCall.safeTest at h
    simp only [Bool.and_eq_true, bne_iff_ne, ne_eq, Bool.not_eq_true', decide_eq_true_eq,
      Option.isNone_iff_eq_none] at h
    obtain ⟨⟨⟨⟨⟨hopen, hlt⟩, hno⟩, hgood⟩, hfree⟩, -⟩ := h
    exact ⟨fun _ => ⟨hopen, hlt, .home hno hgood, hfree⟩, hmove⟩
  | markAsObsolete b isAfterReboot =>
    unfold LogCall.safeTest at h
    simp only [Bool.and_eq_true, decide_eq_true_eq] at h
    refine ⟨h.1, fun phy hrun _ => ?_⟩
    have hwritten := h.2
    rw [hrun] at hwritten
    exact hwritten
  | commit upper => exact absurd h Bool.false_ne_true
  | findNextFreePage => exact absurd h Bool.false_ne_true
  | readBlock b => exact absurd h Bool.false_ne_true

/-- The store after the calls of a list, if they all pass the test and return. -/
def LogState.safeAfter (nBytes : Nat) (data : Nat → UInt8) :
    List LogCall → LogState → Option LogState
  | [], s => some s
  | call :: calls, s =>
    if call.safeTest nBytes data s then
      match call.exec nBytes data s.world with
      | .ok change t => safeAfter nBytes data calls ⟨t, change.apply s.live⟩
      | .error _ _ => none
    else none

theorem LogRun.safeAfter {start : Flash → Prop} {calls : List LogCall}
    (h : LogRun nBytes start (LogCall.Safe nBytes) s)
    (ht : s.safeAfter nBytes data calls = some t) :
    LogRun nBytes start (LogCall.Safe nBytes) t := by
  induction calls generalizing s with
  | nil =>
    cases ht
    exact h
  | cons call calls ih =>
    unfold LogState.safeAfter at ht
    split at ht
    · rename_i hsafe
      split at ht
      · rename_i change u run
        exact ih (.call h (LogCall.safe_of_test hsafe) run) ht
      · cases ht
    · cases ht

end Test

/-- The store once the chip of `w` is formatted, if that succeeds. -/
def LogState.booted (nBytes : Nat) (data : Nat → UInt8) (w : World) : Option LogState :=
  match sequencingBooting data nBytes (checkpointWriter data nBytes) w with
  | .ok (res, _, _) t => if res = 0 then some ⟨t, fun _ => none⟩ else none
  | .error _ _ => none

theorem LogRun.booted {nBytes : Nat} {data : Nat → UInt8} {start : Flash → Prop}
    {cond : (Nat → UInt8) → LogCall → LogState → Prop} {w : World} {t : LogState}
    (herased : ∀ a, w.flash.page a = initBuf ∧ w.flash.mainAreaWrites a = false)
    (hstart : start w.flash) (ht : LogState.booted nBytes data w = some t) :
    LogRun nBytes start cond t := by
  unfold LogState.booted at ht
  split at ht
  · rename_i res data' pending u run
    split at ht
    · rename_i hres
      subst hres
      cases ht
      exact .format herased hstart run
    · cases ht
  · cases ht

/-- The store after the calls of a list, if they all pass the test and return. -/
def World.afterCalls (test : LogCall → World → Bool) (nBytes : Nat) (data : Nat → UInt8) :
    List LogCall → World → Option World
  | [], w => some w
  | call :: calls, w =>
    if test call w then
      match call.exec nBytes data w with
      | .ok _ t => afterCalls test nBytes data calls t
      | .error _ _ => none
    else none

section After
variable {nBytes : Nat} {data : Nat → UInt8} {start : Flash → Prop} {recovers : World → Prop}
  {w t : World} {cond : (Nat → UInt8) → LogCall → World → Prop} {test : LogCall → World → Bool}

theorem StoreRun.afterCalls (hcond : ∀ call w, test call w = true → cond data call w)
    {calls : List LogCall} (h : StoreRun nBytes start recovers cond w)
    (ht : w.afterCalls test nBytes data calls = some t) : StoreRun nBytes start recovers cond t := by
  induction calls generalizing w with
  | nil =>
    cases ht
    exact h
  | cons call calls ih =>
    unfold World.afterCalls at ht
    split at ht
    · rename_i htest
      split at ht
      · rename_i change u run
        exact ih (.call h (hcond _ _ htest) run) ht
      · cases ht
    · cases ht

theorem StoreRun.booted {r : LogState}
    (herased : ∀ a, w.flash.page a = initBuf ∧ w.flash.mainAreaWrites a = false)
    (hstart : start w.flash) (hr : LogState.booted nBytes data w = some r) :
    StoreRun nBytes start recovers cond r.world := by
  unfold LogState.booted at hr
  split at hr
  · rename_i res data' pending u run
    split at hr
    · rename_i hres
      subst hres
      cases hr
      exact .format herased hstart run
    · cases hr
  · cases hr

end After

/-- The state in which wear leveling is called by a call that writes, if it is. -/
def LogState.wearStart (nBytes : Nat) (data : Nat → UInt8) (page : Page) (s : LogState) :
    Option World :=
  match allocAndWriteBlock LogAddr.empty (allocatedPage page .not) false LogAddr.empty
    (checkpointWriter data nBytes) .last s.world with
  | .ok r t => if r.err = 0 ∧ t.segMap.isPageOffsetOverflowing = true then t.wearStart else none
  | .error _ _ => none

theorem WearCalled.of_wearStart {nBytes : Nat} {data : Nat → UInt8} {start : Flash → Prop}
    {cond : (Nat → UInt8) → LogCall → LogState → Prop} {page : Page} {s : LogState} {u : World}
    (h : LogRun nBytes start cond s)
    (ok : cond data (.allocAndWriteBlock LogAddr.empty page false LogAddr.empty) s)
    (hu : s.wearStart nBytes data page = some u) : WearCalled nBytes start cond u := by
  unfold LogState.wearStart at hu
  split at hu
  · rename_i r t halloc
    split at hu
    · rename_i hc
      have hsome : 0 < segmentsCount := by
        have := segmentsCount_add
        have := nSlots_ge
        omega
      obtain ⟨n, hn⟩ := Nat.exists_eq_succ_of_ne_zero hsome.ne'
      refine .intro h ok ⟨r, t, halloc, hc.1, ?_⟩ (.of_wearStart hu)
      rw [hn]
      exact .now hc.2
    · cases hu
  · cases hu

end Runs

section TinyPage
attribute [local instance] tinyPage

/-- Twenty-five blocks are written to a tiny chip whose third erase unit is bad, and one of them
is marked: the next block fills the segment that is reclaimed then, and wear leveling is
called. -/
def wornTiny : Option World :=
  ((LogState.booted 0 (fun _ => 0) (seededWorld (· == 2))).bind
    (LogState.after 0 (fun _ => 0) ((List.range 24).map writeTiny ++
      [.markAsObsolete ⟨1, 7⟩ false, writeTiny 24]))).bind
        (LogState.wearStart 0 (fun _ => 0) (tinyBlock 25))

/-- The second page of the reserve erase unit that stands for the bad one names another place. -/
theorem performWearLeveling_keeps_fails : ¬∀ (w : World),
    WearCalled 0 (fun _ => True) (fun _ _ _ => True) w →
    wp performWearLeveling (fun r t => r = 0 ∧ WearKept w t) (fun e _ => e = .powerLoss) w := by
  intro h
  have hcheck : wornTiny.any (fun u => u.segMap.newSlotId == 1 &&
      (reserveSegments.all fun seg => u.segMap.segToSlot seg != u.pickedSlot) &&
      match performWearLeveling u with
      | .ok _ t => t.segMap.newSlotId != 1 && !t.flash.good (euAt 1 0) &&
          t.segMap.segToSlot 7 == 7 && t.flash.standsFor (calculateSlotIdAndEuOffset (euAt 1 0)) 60 &&
          (t.flash.page 61).flags.slotEuOffset != calculateSlotIdAndEuOffset (euAt 1 0)
      | .error _ _ => false) = true := by
    decide +kernel
  obtain ⟨u, hu, hcheck⟩ := (Option.any_eq_true _ _).mp hcheck
  simp only [Bool.and_eq_true, beq_iff_eq, List.all_eq_true, bne_iff_ne] at hcheck
  obtain ⟨⟨hnew, hdata⟩, hcheck⟩ := hcheck
  obtain ⟨s, hs, hu⟩ := Option.bind_eq_some_iff.mp hu
  obtain ⟨r, hr, hs⟩ := Option.bind_eq_some_iff.mp hs
  have hrun : LogRun 0 (fun _ => True) (fun _ _ _ => True) s :=
    LogRun.after (fun _ _ _ => trivial) (.booted (fun _ => ⟨rfl, rfl⟩) trivial hr) hs
  have hkept := h u (.of_wearStart hrun trivial hu)
  split at hcheck
  · rename_i res t run
    simp only [Bool.and_eq_true, bne_iff_ne, ne_eq, Bool.not_eq_true', beq_iff_eq] at hcheck
    obtain ⟨⟨⟨⟨hmoved, hbad⟩, hseven⟩, hstands⟩, hmark⟩ := hcheck
    obtain ⟨-, hkept⟩ := of_wp_ok hkept run
    have hslot : u.segMap.IsDataSlot u.pickedSlot :=
      ⟨(of_wp_ok (chooseRandomSlot_spec u) (chooseRandomSlot_run u).choose_spec.1).2.1, hdata⟩
    have hhome : IsHome t.flash t.segMap u.segMap.newSlotId 0 60 := by
      rw [hnew]
      exact .reserve hbad ⟨7, by decide, 1, by decide, by rw [hseven]; rfl⟩ hstands
    have hplace := hkept.data (by rw [hnew]; exact hmoved) hslot 0 (by decide) 60 hhome 1 (by decide)
    rw [hnew, if_neg (by decide)] at hplace
    exact hmark hplace
  · exact absurd hcheck Bool.false_ne_true

/-- Eleven blocks are written to a tiny chip without bad erase units, and two of them are marked:
the last fills the segment that is reclaimed then, and wear leveling moves the first slot. -/
theorem performWearLeveling_keeps_tinyPage : ∃ (w : World),
    wp performWearLeveling (fun r t => r = 0 ∧ WearKept w t) (fun e _ => e = .powerLoss) w := by
  have hcheck : (((LogState.booted 48 (fun _ => 0) (seededWorld fun _ => false)).bind
      (LogState.safeAfter 48 (fun _ => 0) ((List.range 9).map writeTiny ++
        [.markAsObsolete ⟨1, 7⟩ false, .markAsObsolete ⟨2, 7⟩ false, writeTiny 9]))).any fun s =>
      (writeTiny 10).safeTest 48 (fun _ => 0) s &&
        (s.wearStart 48 (fun _ => 0) (tinyBlock 10)).any fun u =>
          (List.range eusPerSlot).all fun e => u.flash.good (euAt u.segMap.newSlotId e)) = true := by
    decide +kernel
  obtain ⟨s, hs, hcheck⟩ := (Option.any_eq_true _ _).mp hcheck
  obtain ⟨hsafe, hcheck⟩ := (Bool.and_eq_true _ _).mp hcheck
  obtain ⟨u, hu, hgood⟩ := (Option.any_eq_true _ _).mp hcheck
  obtain ⟨r, hr, hs⟩ := Option.bind_eq_some_iff.mp hs
  have hrun : LogRun 48 (StartFits 48) (LogCall.Safe 48) s :=
    .safeAfter (.booted (fun _ => ⟨rfl, rfl⟩) ⟨by decide, fun _ _ _ => ⟨rfl, rfl⟩⟩ hr) hs
  refine ⟨u, performWearLeveling_keeps
    (.of_wearStart hrun (LogCall.safe_of_test hsafe) hu) fun _ => .inl ?_⟩
  refine Finset.filter_eq_empty_iff.mpr fun e he hbad => ?_
  rw [List.all_eq_true.mp hgood e (List.mem_range.mpr (Finset.mem_range.mp he))] at hbad
  exact absurd hbad Bool.true_eq_false.mp

end TinyPage

end NandFs
