import NandFs.SegMapPhase

/-! # Every operation keeps the phase of the segment map

One lemma for each routine that writes the map: wear leveling, the end of a segment and the
choice of the next one.  The loops of `findNextFreePage` and `commit` follow by induction on
their rounds, and with them the operations of the sequencing layer.
-/
namespace NandFs

open Program

variable [Config]

open Config

/-! ## Wear leveling -/

theorem chooseRandomSlot_spec (s : World) :
    wp chooseRandomSlot
      (fun slot t => t.segMap = s.segMap ∧ slot < nSlots ∧ slot ≠ s.segMap.newSlotId)
      (fun _ t => t.segMap = s.segMap) s := by
  -- the number of slots is even, so a slot and its mirror image differ
  have hchoice : ∀ slot < nSlots,
      (if slot = s.segMap.newSlotId then nSlots - 1 - slot else slot) < nSlots ∧
        (if slot = s.segMap.newSlotId then nSlots - 1 - slot else slot) ≠ s.segMap.newSlotId := by
    intro slot hlt
    have := nSlots_even
    by_cases h : slot = s.segMap.newSlotId
    · rw [if_pos h]
      omega
    · rw [if_neg h]
      exact ⟨hlt, h⟩
  unfold chooseRandomSlot
  rw [wp_bind, wp_getSegMap]
  refine wp_ite (fun _ => ?_) fun _ => ?_
  · have hlt : segmentsCount / 2 - 2 < nSlots := by
      have := segmentsCount_add
      omega
    exact ⟨rfl, hchoice _ hlt⟩
  · exact ⟨rfl, hchoice _ (Nat.mod_lt _ (Nat.two_pow_pos _))⟩

/-- The search by slot finds the segment that has it. -/
theorem segmentOfSlot_eq {m : SegMap} (h : m.mapping.Reclaiming) {slot : Nat}
    (hlt : slot < nSlots) (hne : slot ≠ m.newSlotId) :
    ∃ seg ∈ m.mapping.existing, m.segToSlot seg = slot ∧ m.segmentOfSlot slot = some seg := by
  obtain ⟨seg, hseg, hslot⟩ := h.assigned.exists_holder (Mapping.card_existing h.all)
    (Finset.mem_range.mpr hlt) hne
  have hslot : m.segToSlot seg = slot := hslot
  refine ⟨seg, hseg, hslot, List.find?_range_eq_some.mpr ⟨?_, ?_, fun j hj => ?_⟩⟩
  · rw [hslot, beq_self_eq_true]
  · exact List.mem_range.mpr (Mapping.lt_of_mem_existing h.all.le hseg)
  · rw [Bool.not_eq_true', beq_eq_false_iff_ne]
    intro hjs
    have hseglt := Mapping.lt_of_mem_existing h.all.le hseg
    have hjlt : j < nSlots := by omega
    by_cases hje : j ∈ m.mapping.existing
    · have heq := h.assigned.injOn hje hseg (hjs.trans hslot.symm)
      omega
    · -- `SEQ_NEW_SEGMENT` comes before the reserve segments, whose slots it never shows
      have hjn : j = newSegment := by
        by_contra hne'
        exact hje ((Mapping.mem_existing_iff_ne h.all hjlt).mpr hne')
      have := newSegment_eq
      have := firstReserveSegment_eq
      have hspare := h.spare seg (by omega) hseglt
      rw [← hjn] at hspare
      exact hspare (hjs.trans hslot.symm)

theorem preserves_performWearLeveling :
    Preserves (fun w => w.mapping.Reclaiming) performWearLeveling := by
  intro s hs
  have hframe : ∀ t : World, t.segMap = s.segMap → t.mapping.Reclaiming := by
    intro t ht
    rw [World.mapping, ht]
    exact hs
  unfold performWearLeveling
  refine wp_seq (wp_mono (chooseRandomSlot_spec s) (fun _ _ h => h) fun _ t ht => hframe t ht) ?_
  rintro slot t ⟨ht, hlt, hne⟩
  obtain ⟨seg, hseg, hslot, hfound⟩ := segmentOfSlot_eq hs hlt hne
  rw [wp_bind, wp_getSegMap, ht]
  refine (frame_hasEnoughEus _ _ _).wp_bind (fun _ u hu => ?_) fun _ u hu => hframe u (hu.trans ht)
  refine wp_ite (fun _ => ?_) fun _ => hframe u (hu.trans ht)
  refine (frame_copySlotLoop _ _ _ _ _).wp_bind (fun res v hv => ?_)
    fun _ v hv => hframe v (hv.trans (hu.trans ht))
  have hvs : v.segMap = s.segMap := hv.trans (hu.trans ht)
  cases res with
  | some res => exact hframe v hvs
  | none =>
    refine wp_seqVerify ((frame_truncateSlot _ _).wp (fun res w hw => ?_)
      fun _ w hw => hframe w (hw.trans hvs))
    have hws : w.segMap = s.segMap := hw.trans hvs
    by_cases hres : res ≠ 0
    · rw [if_pos hres]
      exact hframe w hws
    · rw [if_neg hres, wp_bind, wp_modifySegMap]
      have hmove := hs.move hseg
      rw [wp_pure, World.mapping, hws, hfound]
      subst hslot
      exact hmove

/-! ## Moving to the next segment -/

/-- Between the end of a segment and the choice of the next one: `newSlot` will be free. -/
def Mapping.Between (m : Mapping) (newSlot : Nat) : Prop :=
  m.Growing ∧ newSlot = segmentsCount ∨ ({ m with newSlotId := newSlot } : Mapping).Reclaiming

theorem finishSegment_spec {s : World} (hs : s.mapping.Phase) :
    wp finishSegment
      (fun r t => if r.1 ≠ 0 then t.mapping.Phase else t.mapping.Between r.2)
      (fun _ t => t.mapping.Phase) s := by
  have hframe : ∀ t : World, t.segMap = s.segMap → t.mapping.Phase := by
    intro t ht
    rw [World.mapping, ht]
    exact hs
  unfold finishSegment
  rw [wp_bind, wp_getSegMap]
  rcases hs with hgrow | hrec
  · rw [if_neg (by rw [hgrow.not_reclamation]; decide)]
    exact .inl ⟨hgrow, rfl⟩
  · rw [if_pos hrec.reclamation]
    refine (frame_truncateSlot _ _).wp_bind (fun res t ht => ?_) fun _ t ht => hframe t ht
    refine wp_ite (fun _ => ?_) fun _ => ?_
    · rw [wp_pure, if_pos Nat.one_ne_zero]
      exact hframe t ht
    · rw [wp_bind, wp_modifySegMap, wp_pure, if_neg (not_not_intro rfl)]
      refine .inr ?_
      rw [World.mapping, ht]
      exact hrec.finish

theorem preserves_findSegmentToReclaim :
    Preserves (fun w => w.mapping.Reclaiming) findSegmentToReclaim := by
  intro s hs
  unfold findSegmentToReclaim
  rw [wp_bind, wp_get]
  cases hfound : segmentToReclaim s.obsCountersMap s.segMap.reclaimed.segment with
  | none => exact hs
  | some seg =>
    obtain ⟨level, -, hfind⟩ := List.exists_of_findSome?_eq_some hfound
    have hlt : seg < segmentsCount := List.mem_range.mp (List.mem_of_find?_eq_some hfind)
    have := segmentsCount_add
    have := nSlots_le
    rw [wp_bind, wp_modifySegMap, wp_pure]
    have hseg : seg % 4096 = seg := Nat.mod_eq_of_lt (by omega)
    exact ⟨hs.all, by show seg % 4096 < _; rw [hseg]; exact hlt, hs.assigned, hs.spare⟩

/-- Wear leveling, tossed for, and the search for a segment to reclaim. -/
theorem preserves_chooseReclaimed (toss : Bool) :
    Preserves (fun w => w.mapping.Reclaiming)
      (if toss then seqVerify performWearLeveling
          (do if (← findSegmentToReclaim) ≠ 0 then pure errorFlashFull else pure 0)
        else do if (← findSegmentToReclaim) ≠ 0 then pure errorFlashFull else pure 0) := by
  have hfind : Preserves (fun w : World => w.mapping.Reclaiming)
      (do if (← findSegmentToReclaim) ≠ 0 then pure errorFlashFull else pure 0) :=
    preserves_bind preserves_findSegmentToReclaim fun _ =>
      preserves_ite (fun _ => preserves_pure _) fun _ => preserves_pure _
  exact preserves_ite
    (fun _ => preserves_bind preserves_performWearLeveling fun _ =>
      preserves_ite (fun _ => preserves_pure _) fun _ => hfind)
    fun _ => hfind

theorem nextSegment_spec {s : World} {newSlot : Nat} (hs : s.mapping.Between newSlot) :
    wp (nextSegment newSlot) (fun _ t => t.mapping.Phase) (fun _ t => t.mapping.Phase) s := by
  unfold nextSegment
  rw [wp_bind, wp_modifySegMap, wp_bind, wp_getSegMap]
  refine wp_ite (fun hall => ?_) fun hall => ?_
  · have hall : s.mapping.nSegments = segmentsCount := beq_iff_eq.mp hall
    have hrec : ({ s.mapping with newSlotId := newSlot } : Mapping).Reclaiming := by
      rcases hs with ⟨hgrow, rfl⟩ | hrec
      · exact hgrow.reclaiming hall
      · exact hrec
    rw [wp_bind, wp_modifySegMap]
    refine ((frame_mapping (frame_genRandBit _)).preserves Mapping.Reclaiming).wp_bind hrec
      (fun toss t ht => ?_) fun _ t ht => .inr ht
    exact wp_mono (preserves_chooseReclaimed toss t ht) (fun _ _ h => .inr h) fun _ _ h => .inr h
  · have hall : ¬ s.mapping.nSegments = segmentsCount := fun h => hall (beq_iff_eq.mpr h)
    rcases hs with ⟨hgrow, rfl⟩ | hrec
    · rw [wp_bind, wp_modifySegMap, wp_pure]
      have hlt : s.mapping.nSegments < segmentsCount := by
        have := hgrow.le
        omega
      have hmod : (s.segMap.reclaimed.segment + 1) % 4096 = s.segMap.reclaimed.segment + 1 := by
        have hcur : s.segMap.reclaimed.segment + 1 = s.mapping.nSegments := hgrow.current
        have := segmentsCount_add
        have := nSlots_le
        exact Nat.mod_eq_of_lt (by omega)
      refine .inl ?_
      have hnext := hgrow.next hlt
      simp only [World.mapping, SegMap.mapping, SegMap.setSlotForSeg, SegMap.setReclaimedSegment,
        LogAddr.setSegment, hmod]
      exact hnext
    · exact absurd hrec.all hall

section Header
variable {cpWriter : CheckpointWriter} (hcp : Frame World.mapping (cpWriter true))
include hcp

theorem preserves_moveToNextSegment :
    Preserves (fun w => w.mapping.Phase) (moveToNextSegment cpWriter) := by
  intro s hs
  unfold moveToNextSegment
  refine wp_seq (finishSegment_spec hs) ?_
  rintro ⟨res, newSlot⟩ t ht
  refine wp_ite (fun hres => ?_) fun hres => ?_
  · rw [if_pos hres] at ht
    exact ht
  · rw [if_neg hres] at ht
    refine wp_seq (nextSegment_spec ht) fun res u hu => wp_ite (fun _ => hu) fun _ => ?_
    exact (frame_openSegment hcp).preserves Mapping.Phase u hu

/-! ## Allocation -/

omit hcp in
theorem frame_nextFreeInSegment (okErrorCode n : Nat) :
    Frame World.mapping (nextFreeInSegment okErrorCode n) := by
  induction n with
  | zero => exact frame_pure _
  | succ n ih =>
    refine frame_bind frame_getSegMap fun m => frame_ite (frame_pure _) ?_
    refine frame_bind frame_placePage fun placed => frame_ite (frame_pure _) ?_
    refine frame_bind frame_getSegMap fun m => frame_ite (frame_pure _) ?_
    refine frame_bind (frame_logicalAddressToPhysical _) fun _ =>
      frame_bind (frame_mapping (frame_isPageToCopy _)) fun _ => frame_ite ?_ (frame_pure _)
    refine frame_bind (frame_mapping (frame_copyValidBlock _ _)) fun _ =>
      frame_ite (frame_pure _) ?_
    exact frame_bind frame_incrementReclaimedOffset fun _ => ih

theorem preserves_findNextFreePage (okErrorCode : Nat) :
    Preserves (fun w => w.mapping.Phase) (findNextFreePage cpWriter okErrorCode) := by
  have hloop : ∀ n moved,
      Preserves (fun w => w.mapping.Phase) (findNextFreePageLoop cpWriter okErrorCode n moved) := by
    intro n
    induction n with
    | zero => exact fun _ => preserves_pure _
    | succ n ih =>
      intro moved
      have hmove : Preserves (fun w => w.mapping.Phase) (moveAtSegmentEnd cpWriter) :=
        preserves_bind (frame_getSegMap.preserves Mapping.Phase) fun _ => preserves_ite
          (fun _ => preserves_bind (preserves_moveToNextSegment hcp) fun _ => preserves_pure _)
          fun _ => preserves_pure _
      refine preserves_bind hmove fun moved' =>
        preserves_ite (fun _ => preserves_pure _) fun _ => ?_
      refine preserves_bind ((frame_nextFreeInSegment _ _).preserves Mapping.Phase) fun res => ?_
      cases res with
      | some res => exact preserves_pure _
      | none =>
        refine preserves_ite (fun _ => ?_) fun _ => ih _
        refine preserves_bind (frame_getSegMap.preserves Mapping.Phase) fun _ => ?_
        exact preserves_bind ((frame_mapping (frame_changeCounterLevel _ _)).preserves _) fun _ =>
          ih _
  exact hloop _ _

theorem preserves_allocAndWriteBlock (logAddr : LogAddr) (data : Page) (onlyVOTs : Bool)
    (prev : LogAddr) (isCommit : IsCommit) :
    Preserves (fun w => w.mapping.Phase)
      (allocAndWriteBlock logAddr data onlyVOTs prev cpWriter isCommit) := by
  refine preserves_bind preserves_get fun w => preserves_ite (fun _ => preserves_pure _) fun _ =>
    preserves_ite (fun _ => preserves_pure _) fun _ => ?_
  refine preserves_bind (frame_calcTargetPhyAddr.preserves Mapping.Phase) fun target =>
    preserves_bind ((frame_mapping (frame_writeBlock _ _)).preserves _) fun written =>
    preserves_bind (frame_getSegMap.preserves Mapping.Phase) fun m => ?_
  have hrest : Preserves (fun w => w.mapping.Phase) (do
      modifySegMap SegMap.incrementReclaimedOffset
      if isCommit = .last then pure ⟨0, written, false⟩
      else do
        let writeRes := if written.segment = noSegmentNum then 1 else 0
        let moved ← findNextFreePage cpWriter writeRes
        pure (⟨moved.1, written, moved.2⟩ : AllocResult)) := by
    refine preserves_bind (frame_incrementReclaimedOffset.preserves _) fun _ =>
      preserves_ite (fun _ => preserves_pure _) fun _ => ?_
    exact preserves_bind (preserves_findNextFreePage hcp _) fun _ => preserves_pure _
  exact preserves_ite (fun _ => preserves_bind ((frame_mapping frame_decrementFreeCount).preserves _)
    fun _ => hrest) fun _ => hrest

theorem preserves_commit (data : Nat → UInt8) (nBytes : Nat) (isPartOfHeader : Bool) :
    Preserves (fun w => w.mapping.Phase) (commit cpWriter data nBytes isPartOfHeader) := by
  cases isPartOfHeader with
  | true => exact (frame_commit_header _ _ _).preserves Mapping.Phase
  | false =>
    have hcount : Preserves (fun w => w.mapping.Phase) incrementFreeCount :=
      (frame_mapping frame_incrementFreeCount).preserves _
    have hpages : ∀ n idx,
        Preserves (fun w => w.mapping.Phase) (commitPages cpWriter data nBytes false n idx) := by
      intro n
      induction n with
      | zero => exact fun _ => preserves_pure _
      | succ n ih =>
        intro idx
        refine preserves_bind hcount fun _ => preserves_bind preserves_get fun w => ?_
        refine preserves_bind (preserves_allocAndWriteBlock hcp _ _ _ _ _) fun res => ?_
        refine preserves_ite (fun _ => preserves_pure _) fun _ => ?_
        exact preserves_ite (fun _ => preserves_pure _) fun _ => ih _
    refine preserves_ite (fun _ => hpages _ _) fun _ => ?_
    refine preserves_bind hcount fun _ => preserves_bind preserves_get fun w => ?_
    exact preserves_bind (preserves_allocAndWriteBlock hcp _ _ _ _ _) fun _ => preserves_pure _

end Header

end NandFs
