import NandFs.NandRules

/-! # What is done to the chip

Whatever is asked of the sequencing layer, it acts on the chip by programming pages, obsolete
bytes and bad-block bytes, and by erasing erase units that are not bad.  An invariant of the chip
that each of these operations keeps is therefore kept by every call, also by one that halts and
by the boot that follows.
-/
namespace NandFs

open Program Config

section Steps
variable [Config]

/-- One operation of the chip, or some power is spent. -/
inductive ChipStep (f : Flash) : Flash → Prop
  | spend (power : Option Nat) : ChipStep f { f with power := power }
  | program (page : Page) (a : Nat) (fresh : f.mainAreaWrites a = false) :
      ChipStep f (f.program page a page.flags.obsolete)
  | obsolete (a : Nat) (fresh : f.spareWrites a = false) : ChipStep f (f.programObsolete a)
  | erase (a : Nat) (good : f.good (calcEuStart a) = true) : ChipStep f (f.erase (calcEuStart a))
  | bad (a : Nat) (fresh : f.spareWrites (calcEuStart a) = false) :
      ChipStep f (f.programBadByte (calcEuStart a))

/-- `I` is kept by every operation of the chip. -/
def ChipInvariant (I : Flash → Prop) : Prop := ∀ f g, ChipStep f g → I f → I g

/-- Every outcome of `m` keeps `I`. -/
abbrev KeepsChip {α : Type} (I : Flash → Prop) (m : SeqM α) : Prop :=
  Preserves (fun w => I w.flash) m

section Walk
variable {I : Flash → Prop}

/-! ## What leaves the chip alone -/

/-- What reads only. -/
theorem keeps_reads {α : Type} {m : SeqM α} (h : Frame id m) : KeepsChip I m :=
  h.preserves fun w : World => I w.flash

theorem keeps_modify {f : World → World} (h : ∀ w, (f w).flash = w.flash) :
    KeepsChip I (modify f) :=
  preserves_modify fun w hw => by rwa [h w]

theorem keeps_modifySegMap (f : SegMap → SegMap) : KeepsChip I (modifySegMap f) :=
  keeps_modify fun _ => rfl

theorem keeps_modifyObsCounters (f : ObsCounters → ObsCounters) :
    KeepsChip I (modifyObsCounters f) :=
  keeps_modify fun _ => rfl

theorem keeps_seqVerify {test next : SeqM Nat} (ht : KeepsChip I test) (hn : KeepsChip I next) :
    KeepsChip I (seqVerify test next) :=
  preserves_bind ht fun _ => preserves_ite (fun _ => preserves_pure _) fun _ => hn

theorem keeps_changeCounterLevel (level : UInt8) (segId : Nat) :
    KeepsChip I (changeCounterLevel level segId) :=
  keeps_modifyObsCounters _

theorem keeps_genRandBit (neededProb : Nat) : KeepsChip I (genRandBit neededProb) :=
  preserves_bind preserves_get fun _ =>
    preserves_bind (keeps_modify fun _ => rfl) fun _ => preserves_pure _

theorem keeps_incrementCounter (segId : Nat) : KeepsChip I (incrementCounter segId) :=
  preserves_bind preserves_get fun _ =>
    preserves_ite (fun _ => preserves_pure _) fun _ => keeps_changeCounterLevel _ _

theorem keeps_findSegmentToReclaim : KeepsChip I findSegmentToReclaim := by
  refine preserves_bind preserves_get fun w => ?_
  cases segmentToReclaim w.obsCountersMap w.segMap.reclaimed.segment with
  | none => exact preserves_pure _
  | some seg => exact preserves_bind (keeps_modifySegMap _) fun _ => preserves_pure _

theorem keeps_isPageToCopy (a : Nat) : KeepsChip I (isPageToCopy a) := by
  refine preserves_bind (keeps_reads (frame_nandReadPageFlags a)) fun _ =>
    preserves_ite (fun _ => ?_) fun _ => preserves_ite (fun _ => ?_) fun _ => preserves_pure _
  · exact preserves_bind (keeps_modify fun _ => rfl) fun _ => preserves_pure _
  · exact preserves_bind (keeps_modify fun _ => rfl) fun _ => preserves_pure _

theorem keeps_chooseRandomSlot : KeepsChip I chooseRandomSlot := by
  have hrandom : KeepsChip I (getRandomNum powSlots) :=
    preserves_bind preserves_get fun _ => preserves_bind (keeps_genRandBit _) fun _ =>
      preserves_pure _
  exact preserves_bind (keeps_reads frame_getSegMap) fun _ => preserves_ite
    (fun _ => preserves_bind (preserves_pure _) fun _ => preserves_pure _)
    fun _ => preserves_bind hrandom fun _ => preserves_pure _

theorem keeps_placeHeader : KeepsChip I placeHeader := by
  refine preserves_bind (keeps_reads frame_getSegMap) fun m =>
    preserves_bind (keeps_reads (frame_nandCheckEuStatus _)) fun _ =>
      preserves_ite (fun _ => preserves_pure _) fun _ => ?_
  refine preserves_bind (keeps_modifySegMap _) fun _ =>
    preserves_bind (keeps_reads (frame_allocReserveEU _)) fun _ =>
      preserves_ite (fun _ => preserves_pure _) fun _ => ?_
  exact preserves_bind (keeps_modifySegMap _) fun _ => preserves_pure _

theorem keeps_placeEu : KeepsChip I placeEu := by
  refine preserves_bind (keeps_modifySegMap _) fun _ =>
    preserves_bind (keeps_reads frame_calcTargetPhyAddr) fun _ =>
    preserves_bind (keeps_reads (frame_nandCheckEuStatus _)) fun _ =>
      preserves_ite (fun _ => preserves_pure _) fun _ => ?_
  refine preserves_bind (keeps_reads (frame_allocReserveEU _)) fun _ =>
    preserves_bind (keeps_modifySegMap _) fun _ =>
      preserves_ite (fun _ => preserves_pure _) fun _ => ?_
  exact preserves_bind (keeps_modifySegMap _) fun _ => preserves_pure _

theorem keeps_placePage : KeepsChip I placePage :=
  preserves_bind (keeps_reads frame_getSegMap) fun _ =>
    preserves_ite (fun _ => keeps_placeEu) fun _ =>
      preserves_bind (keeps_reads frame_calcTargetPhyAddr) fun _ => preserves_pure _

theorem keeps_readCheckpointToMemory (data : Nat → UInt8) (nBytes : Nat) (a : LogAddr) :
    KeepsChip I (readCheckpointToMemory data nBytes a) := by
  have hloop : ∀ n i data b, KeepsChip I (readCheckpointLoop nBytes n i data b) := by
    intro n
    induction n with
    | zero => exact fun _ _ _ => preserves_throw _
    | succ n ih =>
      intro i data b
      refine preserves_bind (keeps_reads (frame_logicalAddressToPhysical b)) fun _ =>
        preserves_bind (keeps_reads (frame_nandReadPageTotal _)) fun page => ?_
      cases page with
      | none => exact preserves_pure _
      | some page =>
        refine preserves_ite (fun _ => ih _ _ _) fun _ =>
          preserves_bind (keeps_modifyObsCounters _) fun _ => ?_
        exact preserves_ite (fun _ => ih _ _ _) fun _ => preserves_pure _
  have hstart : ∀ n, KeepsChip I (findCheckpointStart a.segment n) := by
    intro n
    induction n with
    | zero => exact preserves_pure _
    | succ n ih =>
      exact preserves_bind (keeps_reads (frame_logicalAddressToPhysical _)) fun _ =>
        preserves_bind (keeps_reads (frame_nandReadPageFlags _)) fun _ =>
          preserves_ite (fun _ => preserves_pure _) fun _ => ih
  have hrest : ∀ offset, KeepsChip I (do
      let data := fun k => if k < nBytes then 0xff else data k
      let r ← readCheckpointLoop nBytes (pagesPerSlot + 1) 0 data { a with offset := offset }
      if r.1 ≠ 0 then pure (1, r.2.1)
      else do
        assert (r.2.2.checkpoint == .last || !isCheckpointMoreThanOnePage nBytes)
        pure (0, r.2.1)) := by
    intro offset
    refine preserves_bind (hloop _ _ _ _) fun _ => preserves_ite (fun _ => preserves_pure _)
      fun _ => ?_
    exact preserves_bind (keeps_reads (frame_assert _)) fun _ => preserves_pure _
  exact preserves_ite (fun _ => preserves_bind (hstart _) fun _ => hrest _)
    fun _ => preserves_bind (preserves_pure _) fun _ => hrest _

theorem keeps_findCheckpointInSegment (segment : Nat) (more : Bool) (n : Nat) :
    KeepsChip I (findCheckpointInSegment segment more n) := by
  induction n with
  | zero => exact preserves_pure _
  | succ n ih =>
    refine preserves_bind (keeps_reads (frame_logicalAddressToPhysical _)) fun _ =>
      preserves_bind (keeps_reads (frame_assert _)) fun _ =>
      preserves_bind (keeps_reads (frame_nandReadPageFlags _)) fun _ =>
        preserves_ite (fun _ => ?_) fun _ => ih
    refine preserves_bind (keeps_reads frame_getSegMap) fun _ => ?_
    exact preserves_ite (fun _ => preserves_bind (keeps_modifySegMap _) fun _ => preserves_pure _)
      fun _ => preserves_pure _

/-! ## The operations -/

section Operations
variable (hI : ChipInvariant I)
include hI

theorem keeps_spendPower : KeepsChip I spendPower :=
  preserves_spendPower fun _ power hw => hI _ _ (.spend power) hw

/-- An operation made where `fresh` holds of the chip, at the price of some power. -/
theorem keeps_operation {α : Type} (f : Flash → Flash) (fresh : Flash → Bool) {next : SeqM α}
    (hstep : ∀ g, fresh g = true → ChipStep g (f g))
    (hpower : ∀ g power, fresh { g with power := power } = fresh g)
    (hnext : KeepsChip I next) :
    KeepsChip I (do
      assert (fresh (← get).flash)
      spendPower
      modifyFlash f
      next) := by
  intro w hw
  rw [wp_bind, wp_get, wp_bind]
  refine wp_assert (fun hfresh => ?_) hw
  rw [wp_bind]
  refine wp_spendPower (fun _ => ?_) fun _ => hw
  rw [wp_bind]
  have hfresh' := (hpower w.flash (w.flash.power.map (· - 1))).trans hfresh
  exact hnext _ (hI _ _ (hstep _ hfresh') (hI _ _ (.spend _) hw))

theorem keeps_nandProgramTotalPage (page : Page) (a : Nat) :
    KeepsChip I (nandProgramTotalPage page a) := by
  have hpage : ∀ total, page.flags.obsolete = total → KeepsChip I
      (seqVerify (nandProgramPageA page a total) (pure 0)) := by
    intro total htotal
    refine keeps_seqVerify (preserves_bind (keeps_reads (frame_getFp a)) fun _ =>
      preserves_ite (fun _ => preserves_pure _) fun _ => ?_) (preserves_pure _)
    refine keeps_operation hI (fun g => g.program page a total) (fun g => !g.mainAreaWrites a)
      (fun g hg => ?_) (fun _ _ => rfl) (preserves_pure _)
    rw [← htotal]
    exact .program page a (by simpa using hg)
  exact preserves_ite (fun h => hpage true h) fun h => hpage false (Bool.eq_false_of_not_eq_true h)

theorem keeps_nandProgramObsoleteByte (a : Nat) : KeepsChip I (nandProgramObsoleteByte a) := by
  refine preserves_bind (keeps_reads (frame_getFp a)) fun _ =>
    preserves_ite (fun _ => preserves_pure _) fun _ => ?_
  exact keeps_operation hI (fun g => g.programObsolete a) (fun g => !g.spareWrites a)
    (fun _ hg => .obsolete a (by simpa using hg)) (fun _ _ => rfl) (preserves_pure _)

theorem keeps_nandErase (a : Nat) : KeepsChip I (nandErase a) := by
  refine preserves_bind (keeps_reads (frame_getFp a)) fun _ =>
    preserves_ite (fun _ => preserves_pure _) fun _ => ?_
  intro w hw
  rw [wp_bind]
  refine wp_nandCheckEuStatus (fun _ => ?_) hw
  refine wp_ite (fun hgood => ?_) fun _ => hw
  rw [wp_bind]
  refine wp_spendPower (fun _ => ?_) fun _ => hw
  exact hI _ _ (.erase a hgood) (hI _ _ (.spend _) hw)

theorem keeps_markEuAsBad (a : Nat) : KeepsChip I (markEuAsBad a) := by
  refine preserves_bind (keeps_reads (frame_nandCheckEuStatus a)) fun _ =>
    preserves_ite (fun _ => ?_) fun _ => preserves_pure _
  have h := keeps_operation hI (fun g => g.programBadByte (calcEuStart a))
    (fun g => !g.spareWrites (calcEuStart a)) (fun _ hg => .bad a (by simpa using hg))
    (fun _ _ => rfl) (preserves_pure ())
  exact h

/-! ## Pages and erase units -/

theorem keeps_writeBlock (data : Page) (a : Nat) : KeepsChip I (writeBlock data a) :=
  preserves_bind (keeps_reads frame_getSegMap) fun _ =>
    preserves_bind (keeps_nandProgramTotalPage hI _ _) fun _ =>
      preserves_ite (fun _ => preserves_pure _) fun _ => preserves_pure _

theorem keeps_copyPage (toAddr fromAddr : Nat) (isToReserve : Bool) (originalToAddress : Nat)
    (isSlotReserve : Bool) :
    KeepsChip I (copyPage toAddr fromAddr isToReserve originalToAddress isSlotReserve) := by
  refine preserves_bind (keeps_reads (frame_nandReadPageTotal _)) fun page => ?_
  cases page with
  | none => exact preserves_pure _
  | some page => exact keeps_seqVerify (keeps_nandProgramTotalPage hI _ _) (preserves_pure _)

theorem keeps_copyValidBlock (phyAddr orgPhyAddr : Nat) :
    KeepsChip I (copyValidBlock phyAddr orgPhyAddr) := by
  refine preserves_bind (keeps_reads frame_getSegMap) fun m =>
    preserves_bind (keeps_reads (frame_logicalAddressToPhysical _)) fun _ =>
    preserves_bind (keeps_reads (frame_nandReadPageTotal _)) fun page => ?_
  cases page with
  | none => exact preserves_pure _
  | some page => exact preserves_bind (keeps_writeBlock hI _ _) fun _ => preserves_pure _

theorem keeps_truncateSlot (slotId : Nat) (isSlotReserve : Bool) :
    KeepsChip I (truncateSlot slotId isSlotReserve) := by
  have heus : ∀ eus, KeepsChip I (truncateEus isSlotReserve eus) := by
    intro eus
    induction eus with
    | nil => exact preserves_pure _
    | cons i is ih =>
      refine preserves_bind (keeps_reads (frame_nandCheckEuStatus i)) fun _ => preserves_ite
        (fun _ => keeps_seqVerify (keeps_nandErase hI i) ih) fun _ =>
        preserves_ite (fun _ => ih) fun _ => ?_
      exact preserves_bind (keeps_reads (frame_logicalAddressToReservePhysical i)) fun _ =>
        preserves_ite (fun _ => keeps_seqVerify (keeps_nandErase hI _) ih) fun _ => ih
  exact preserves_ite (fun _ => heus _) fun _ => preserves_pure _

theorem keeps_markAsObsolete (b : LogAddr) (isAfterReboot : Bool) :
    KeepsChip I (markAsObsolete b isAfterReboot) := by
  have hcount : KeepsChip I increaseObsCount := keeps_modify fun _ => rfl
  refine preserves_bind (keeps_reads (frame_logicalAddressToPhysical b)) fun phyAddr =>
    preserves_ite (fun _ => preserves_pure _) fun _ =>
    preserves_bind (keeps_reads (frame_isPageMarkedObsolete _)) fun _ =>
      preserves_ite (fun _ => ?_) fun _ => ?_
  · exact preserves_ite (fun _ => preserves_bind hcount fun _ => preserves_pure _)
      fun _ => preserves_pure _
  · refine keeps_seqVerify (keeps_nandProgramObsoleteByte hI _)
      (preserves_bind hcount fun _ => preserves_bind preserves_get fun _ =>
        preserves_ite (fun _ => ?_) fun _ => ?_)
    · exact preserves_bind (keeps_changeCounterLevel _ _) fun _ => preserves_pure _
    · exact preserves_bind (keeps_genRandBit _) fun _ => preserves_ite
        (fun _ => preserves_bind (keeps_incrementCounter _) fun _ => preserves_pure _)
        fun _ => preserves_pure _

/-! ## Wear leveling -/

theorem keeps_chooseEus (newSlot randomSlot : Nat) (isSlotReserve : Bool) (s : WearState) :
    KeepsChip I (chooseEus newSlot randomSlot isSlotReserve s) := by
  have hsource : ∀ fromValid fromEu, KeepsChip I (sourceEu fromValid fromEu) := fun _ _ =>
    preserves_ite (fun _ => preserves_pure _) fun _ =>
      preserves_bind (keeps_reads (frame_logicalAddressToReservePhysical _)) fun _ =>
        preserves_bind (keeps_reads (frame_assert _)) fun _ => preserves_pure _
  have htarget : ∀ toPhyAddr s, KeepsChip I (chooseTarget newSlot toPhyAddr isSlotReserve s) := by
    intro toPhyAddr s
    refine preserves_bind (keeps_reads (frame_nandCheckEuStatus _)) fun _ =>
      preserves_ite (fun _ => preserves_pure _) fun _ => preserves_ite (fun _ => ?_) fun _ => ?_
    · exact preserves_bind (keeps_reads (frame_skipBadEus _ _ _ _)) fun _ => preserves_pure _
    · exact preserves_bind (keeps_reads (frame_allocReserveEU _)) fun _ => preserves_ite
        (fun _ => preserves_bind (keeps_truncateSlot hI _ _) fun _ => preserves_pure _)
        fun _ => preserves_pure _
  refine preserves_bind (keeps_reads (frame_nandCheckEuStatus _)) fun _ =>
    preserves_ite (fun _ => preserves_pure _) fun _ => preserves_bind (hsource _ _) fun _ =>
    preserves_bind (keeps_reads (frame_isSourceUnused _ _)) fun _ =>
      preserves_ite (fun _ => ?_) fun _ => htarget _ _
  exact preserves_bind (keeps_reads (frame_skipBadEus _ _ _ _)) fun _ => preserves_pure _

theorem keeps_copySlotLoop (newSlot randomSlot : Nat) (isSlotReserve : Bool) (n : Nat)
    (s : WearState) : KeepsChip I (copySlotLoop newSlot randomSlot isSlotReserve n s) := by
  induction n generalizing s with
  | zero => exact preserves_pure _
  | succ n ih =>
    refine preserves_ite (fun _ => preserves_ite (fun _ => ?_) fun _ => ?_)
      fun _ => preserves_pure _
    · exact preserves_bind (keeps_copyPage hI _ _ _ _ _) fun _ => ih _
    · refine preserves_bind (keeps_chooseEus hI _ _ _ _) fun choice => ?_
      cases choice with
      | copy t => exact preserves_bind (keeps_copyPage hI _ _ _ _ _) fun _ => ih _
      | again t => exact ih _
      | stop res => exact preserves_pure _

theorem keeps_performWearLeveling : KeepsChip I performWearLeveling := by
  have henough : ∀ isSlotReserve randomSlot newSlot,
      KeepsChip I (hasEnoughEus isSlotReserve randomSlot newSlot) := fun _ _ _ => preserves_ite
    (fun _ => preserves_bind (keeps_reads (frame_countValidEus _)) fun _ =>
      preserves_bind (keeps_reads (frame_countValidEus _)) fun _ => preserves_pure _)
    fun _ => preserves_pure _
  refine preserves_bind keeps_chooseRandomSlot fun _ =>
    preserves_bind (keeps_reads frame_getSegMap) fun _ => preserves_bind (henough _ _ _) fun _ =>
      preserves_ite (fun _ => ?_) fun _ => preserves_pure _
  refine preserves_bind (keeps_copySlotLoop hI _ _ _ _ _) fun res => ?_
  cases res with
  | some res => exact preserves_pure _
  | none =>
    exact keeps_seqVerify (keeps_truncateSlot hI _ _)
      (preserves_bind (keeps_modifySegMap _) fun _ => preserves_pure _)

/-! ## The head of the log -/

theorem keeps_nextSegment (newSlot : Nat) : KeepsChip I (nextSegment newSlot) := by
  have hfind : KeepsChip I
      (do if (← findSegmentToReclaim) ≠ 0 then pure errorFlashFull else pure 0) :=
    preserves_bind keeps_findSegmentToReclaim fun _ =>
      preserves_ite (fun _ => preserves_pure _) fun _ => preserves_pure _
  refine preserves_bind (keeps_modifySegMap _) fun _ =>
    preserves_bind (keeps_reads frame_getSegMap) fun _ => preserves_ite (fun _ => ?_) fun _ => ?_
  · exact preserves_bind (keeps_modifySegMap _) fun _ =>
      preserves_bind (keeps_genRandBit _) fun _ => preserves_ite
        (fun _ => keeps_seqVerify (keeps_performWearLeveling hI) hfind) fun _ => hfind
  · exact preserves_bind (keeps_modifySegMap _) fun _ => preserves_pure _

theorem keeps_finishSegment : KeepsChip I finishSegment := by
  refine preserves_bind (keeps_reads frame_getSegMap) fun _ =>
    preserves_ite (fun _ => ?_) fun _ => preserves_pure _
  exact preserves_bind (keeps_truncateSlot hI _ _) fun _ =>
    preserves_ite (fun _ => preserves_pure _) fun _ =>
      preserves_bind (keeps_modifySegMap _) fun _ => preserves_pure _

theorem keeps_nextFreeInSegment (okErrorCode n : Nat) :
    KeepsChip I (nextFreeInSegment okErrorCode n) := by
  induction n with
  | zero => exact preserves_pure _
  | succ n ih =>
    refine preserves_bind (keeps_reads frame_getSegMap) fun _ =>
      preserves_ite (fun _ => preserves_pure _) fun _ => preserves_bind keeps_placePage fun _ =>
      preserves_ite (fun _ => preserves_pure _) fun _ =>
      preserves_bind (keeps_reads frame_getSegMap) fun _ =>
      preserves_ite (fun _ => preserves_pure _) fun _ =>
      preserves_bind (keeps_reads (frame_logicalAddressToPhysical _)) fun _ =>
      preserves_bind (keeps_isPageToCopy _) fun _ =>
        preserves_ite (fun _ => ?_) fun _ => preserves_pure _
    exact preserves_bind (keeps_copyValidBlock hI _ _) fun _ =>
      preserves_ite (fun _ => preserves_pure _) fun _ =>
        preserves_bind (keeps_modifySegMap _) fun _ => ih

section Writer
variable {cpWriter : CheckpointWriter} (hcp : KeepsChip I (cpWriter true))
include hcp

theorem keeps_writeSegmentHeader : KeepsChip I (writeSegmentHeader cpWriter) :=
  preserves_bind (keeps_modifySegMap _) fun _ =>
    preserves_bind (keeps_reads frame_getSegMap) fun _ =>
      keeps_seqVerify (keeps_nandProgramTotalPage hI _ _)
        (preserves_bind (keeps_modifySegMap _) fun _ => keeps_seqVerify hcp (preserves_pure _))

theorem keeps_moveToNextSegment : KeepsChip I (moveToNextSegment cpWriter) := by
  have hopen : KeepsChip I (openSegment cpWriter) := by
    refine preserves_bind (keeps_modifySegMap _) fun _ => preserves_bind keeps_placeHeader fun _ =>
      preserves_ite (fun _ => preserves_pure _) fun _ =>
        keeps_seqVerify (keeps_writeSegmentHeader hI hcp) ?_
    exact preserves_bind (keeps_reads frame_getSegMap) fun _ => preserves_ite
      (fun _ => preserves_bind (keeps_changeCounterLevel _ _) fun _ => preserves_pure _)
      fun _ => preserves_pure _
  exact preserves_bind (keeps_finishSegment hI) fun _ =>
    preserves_ite (fun _ => preserves_pure _) fun _ =>
      preserves_bind (keeps_nextSegment hI _) fun _ =>
        preserves_ite (fun _ => preserves_pure _) fun _ => hopen

theorem keeps_findNextFreePage (okErrorCode : Nat) :
    KeepsChip I (findNextFreePage cpWriter okErrorCode) := by
  have hmove : KeepsChip I (moveAtSegmentEnd cpWriter) :=
    preserves_bind (keeps_reads frame_getSegMap) fun _ => preserves_ite
      (fun _ => preserves_bind (keeps_moveToNextSegment hI hcp) fun _ => preserves_pure _)
      fun _ => preserves_pure _
  have hloop : ∀ n moved, KeepsChip I (findNextFreePageLoop cpWriter okErrorCode n moved) := by
    intro n
    induction n with
    | zero => exact fun _ => preserves_pure _
    | succ n ih =>
      intro moved
      refine preserves_bind hmove fun _ => preserves_ite (fun _ => preserves_pure _) fun _ =>
        preserves_bind (keeps_nextFreeInSegment hI _ _) fun res => ?_
      cases res with
      | some res => exact preserves_pure _
      | none =>
        refine preserves_ite (fun _ => ?_) fun _ => ih _
        exact preserves_bind (keeps_reads frame_getSegMap) fun _ =>
          preserves_bind (keeps_changeCounterLevel _ _) fun _ => ih _
  exact hloop _ _

theorem keeps_allocAndWriteBlock (logAddr : LogAddr) (data : Page) (onlyVOTs : Bool)
    (prev : LogAddr) (isCommit : IsCommit) :
    KeepsChip I (allocAndWriteBlock logAddr data onlyVOTs prev cpWriter isCommit) := by
  refine preserves_bind preserves_get fun w => preserves_ite (fun _ => preserves_pure _) fun _ =>
    preserves_ite (fun _ => preserves_pure _) fun _ =>
    preserves_bind (keeps_reads frame_calcTargetPhyAddr) fun _ =>
    preserves_bind (keeps_writeBlock hI _ _) fun written =>
    preserves_bind (keeps_reads frame_getSegMap) fun m => ?_
  have hrest : KeepsChip I (do
      modifySegMap SegMap.incrementReclaimedOffset
      if isCommit = .last then pure ⟨0, written, false⟩
      else do
        let writeRes := if written.segment = noSegmentNum then 1 else 0
        let moved ← findNextFreePage cpWriter writeRes
        pure (⟨moved.1, written, moved.2⟩ : AllocResult)) :=
    preserves_bind (keeps_modifySegMap _) fun _ => preserves_ite (fun _ => preserves_pure _)
      fun _ => preserves_bind (keeps_findNextFreePage hI hcp _) fun _ => preserves_pure _
  exact preserves_ite (fun _ => preserves_bind (keeps_modify fun _ => rfl) fun _ => hrest)
    fun _ => hrest

theorem keeps_commit (data : Nat → UInt8) (nBytes : Nat) (isPartOfHeader : Bool) :
    KeepsChip I (commit cpWriter data nBytes isPartOfHeader) := by
  cases isPartOfHeader with
  | true =>
    exact preserves_commit_header (keeps_writeBlock hI) (keeps_modifySegMap _) _ _ _
  | false =>
    have hcount : KeepsChip I incrementFreeCount := keeps_modify fun _ => rfl
    have hpages : ∀ n idx, KeepsChip I (commitPages cpWriter data nBytes false n idx) := by
      intro n
      induction n with
      | zero => exact fun _ => preserves_pure _
      | succ n ih =>
        intro idx
        exact preserves_bind hcount fun _ => preserves_bind preserves_get fun _ =>
          preserves_bind (keeps_allocAndWriteBlock hI hcp _ _ _ _ _) fun _ =>
          preserves_ite (fun _ => preserves_pure _) fun _ =>
            preserves_ite (fun _ => preserves_pure _) fun _ => ih _
    refine preserves_ite (fun _ => hpages _ _) fun _ => ?_
    exact preserves_bind hcount fun _ => preserves_bind preserves_get fun _ =>
      preserves_bind (keeps_allocAndWriteBlock hI hcp _ _ _ _ _) fun _ => preserves_pure _

end Writer

/-! ## Copy-back -/

theorem keeps_copyBackSimple (cbEu orgEu : Nat) (isOrgErased : Bool) (realOrgEu : Nat) :
    KeepsChip I (copyBackSimple cbEu orgEu isOrgErased realOrgEu) := by
  have hpage : ∀ toAddr fromAddr withFlags orgFrom,
      KeepsChip I (copyBackPage toAddr fromAddr withFlags orgFrom) := by
    intro toAddr fromAddr withFlags orgFrom
    refine preserves_bind (keeps_reads (frame_nandReadPageTotal _)) fun page => ?_
    cases page with
    | none => exact preserves_pure _
    | some page =>
      exact preserves_ite
        (fun _ => keeps_seqVerify (keeps_nandProgramTotalPage hI _ _) (preserves_pure _))
        fun _ => preserves_pure _
  have hpages : ∀ toEu fromEu withFlags orgFrom n i,
      KeepsChip I (copyBackPages toEu fromEu withFlags orgFrom n i) := by
    intro toEu fromEu withFlags orgFrom n
    induction n with
    | zero => exact fun _ => preserves_pure _
    | succ n ih => exact fun _ => keeps_seqVerify (hpage _ _ _ _) (ih _)
  refine keeps_seqVerify (preserves_ite (fun _ => preserves_pure _) fun _ => hpages _ _ _ _ _ _)
    (keeps_seqVerify (keeps_nandErase hI _) (keeps_seqVerify (hpages _ _ _ _ _ _) ?_))
  exact preserves_bind (keeps_nandErase hI _) fun _ => preserves_pure _

theorem keeps_copyBackEU (b : LogAddr) : KeepsChip I (copyBackEU b) := by
  refine preserves_bind (keeps_reads (frame_logicalAddressToPhysical _)) fun _ =>
    preserves_bind (keeps_reads frame_getCopybackEu) fun _ =>
    preserves_bind (keeps_reads (frame_assert _)) fun _ =>
    preserves_bind (keeps_reads frame_getSegMap) fun _ => preserves_ite (fun _ => ?_) fun _ => ?_
  · exact preserves_bind (keeps_reads (frame_nandReadPageFlags _)) fun _ =>
      preserves_bind (preserves_pure _) fun _ => keeps_copyBackSimple hI _ _ _ _
  · exact preserves_bind (preserves_pure _) fun _ => keeps_copyBackSimple hI _ _ _ _

omit hI in
theorem keeps_getLastValidEuPage (eu : Nat) : KeepsChip I (getLastValidEuPage eu) := by
  have hloop : ∀ n start last, KeepsChip I (lastValidEuPageLoop eu n start last) := by
    intro n
    induction n with
    | zero => exact fun _ _ => preserves_pure _
    | succ n ih =>
      intro start last
      refine preserves_bind (keeps_reads (frame_nandReadPageTotal _)) fun page => ?_
      cases page with
      | none => exact preserves_pure _
      | some page => exact preserves_ite (fun _ => ih _ _) fun _ => ih _ _
  exact hloop _ _ _

theorem keeps_erasePossibleEUReplacement (a : Nat) :
    KeepsChip I (erasePossibleEUReplacement a) := by
  have hfirst : ∀ expected eus, KeepsChip I (eraseFirstUnused expected eus) := by
    intro expected eus
    induction eus with
    | nil => exact preserves_pure _
    | cons eu eus ih =>
      have hused : KeepsChip I (do
          if isPageUsed (← nandReadPageFlags eu) then eraseFirstUnused expected eus
          else nandErase eu) :=
        preserves_bind (keeps_reads (frame_nandReadPageFlags eu)) fun _ =>
          preserves_ite (fun _ => ih) fun _ => keeps_nandErase hI eu
      refine preserves_ite (fun _ => ?_) fun _ => ih
      refine preserves_bind (keeps_reads (frame_nandCheckEuStatus eu)) fun _ =>
        preserves_ite (fun _ => hused) fun _ => ?_
      exact preserves_bind (keeps_nandErase hI eu) fun _ =>
        preserves_bind (keeps_reads (frame_nandCheckEuStatus eu)) fun _ =>
          preserves_ite (fun _ => hused) fun _ => ih
  exact preserves_bind (keeps_reads frame_getSegMap) fun _ =>
    preserves_bind (keeps_reads (frame_getValidEuAddrInLocation _ _)) fun _ =>
      preserves_ite (fun _ => preserves_pure _) fun _ => hfirst _ _

theorem keeps_redoCopyBack (cbEu orgEu realOrgEu : Nat) (verifyErase : Bool) :
    KeepsChip I (redoCopyBack cbEu orgEu realOrgEu verifyErase) := by
  have hrest : KeepsChip I (do
      let cbEu ← getCopybackEu
      seqVerify (do let res ← nandErase cbEu; pure (if verifyErase then res else 0))
        (copyBackSimple cbEu orgEu false realOrgEu)) :=
    preserves_bind (keeps_reads frame_getCopybackEu) fun _ => keeps_seqVerify
      (preserves_bind (keeps_nandErase hI _) fun _ => preserves_pure _)
      (keeps_copyBackSimple hI _ _ _ _)
  exact preserves_bind (keeps_nandErase hI _) fun _ => preserves_ite
    (fun _ => preserves_bind (keeps_markEuAsBad hI _) fun _ => hrest) fun _ => hrest

theorem keeps_handleCopyBackSpecial (orgPhyAddr cbEu : Nat) :
    KeepsChip I (handleCopyBackSpecial orgPhyAddr cbEu) := by
  refine preserves_bind (keeps_reads (frame_logicalAddressToReservePhysical _)) fun _ =>
    preserves_bind (keeps_getLastValidEuPage _) fun _ => preserves_ite (fun _ => ?_) fun _ => ?_
  · exact keeps_seqVerify (keeps_erasePossibleEUReplacement hI _)
      (preserves_bind (keeps_reads (frame_allocReserveEU _)) fun _ =>
        preserves_ite (fun _ => preserves_pure _) fun _ => keeps_copyBackSimple hI _ _ _ _)
  · exact preserves_bind (keeps_getLastValidEuPage _) fun _ => preserves_ite
      (fun _ => keeps_redoCopyBack hI _ _ _ _) fun _ => keeps_copyBackSimple hI _ _ _ _

theorem keeps_handleCopyBack : KeepsChip I handleCopyBack := by
  refine preserves_bind (keeps_reads frame_getCopybackEu) fun _ =>
    preserves_bind (keeps_reads (frame_assert _)) fun _ =>
    preserves_bind (keeps_reads (frame_nandReadPageTotal _)) fun page => ?_
  cases page with
  | none => exact preserves_pure _
  | some page =>
    refine preserves_ite (fun _ => ?_) fun _ => preserves_pure _
    refine preserves_bind (keeps_reads (frame_nandCheckEuStatus _)) fun _ =>
      preserves_ite (fun _ => ?_) fun _ => ?_
    · refine preserves_bind (keeps_getLastValidEuPage _) fun _ =>
        preserves_bind (keeps_getLastValidEuPage _) fun _ =>
        preserves_ite (fun _ => ?_) fun _ => ?_
      · exact preserves_bind (keeps_redoCopyBack hI _ _ _ _) fun _ => preserves_pure _
      · exact preserves_bind (keeps_seqVerify (keeps_nandErase hI _)
          (keeps_copyBackSimple hI _ _ _ _)) fun _ => preserves_pure _
    · exact preserves_bind (keeps_handleCopyBackSpecial hI _ _) fun _ => preserves_pure _

/-! ## The last checkpoint -/

theorem keeps_truncateCurrentSegment : KeepsChip I truncateCurrentSegment := by
  have hloop : ∀ n, KeepsChip I (truncateCurrentSegmentLoop n) := by
    intro n
    induction n with
    | zero => exact preserves_pure _
    | succ n ih =>
      refine preserves_bind (keeps_reads frame_getSegMap) fun _ =>
        preserves_bind (keeps_reads (frame_logicalAddressToPhysical _)) fun _ =>
        preserves_bind (keeps_nandErase hI _) fun _ => preserves_ite (fun _ => ?_) fun _ => ?_
      · exact preserves_bind (keeps_modifySegMap _) fun _ => preserves_pure _
      · exact preserves_ite (fun _ => preserves_bind (keeps_modifySegMap _) fun _ => ih)
          fun _ => preserves_pure _
  exact preserves_bind (keeps_reads frame_getSegMap) fun _ => hloop _

theorem keeps_returnToPrevCheckpoint (more : Bool) :
    KeepsChip I (returnToPrevCheckpoint more) := by
  refine preserves_bind (keeps_truncateCurrentSegment hI) fun _ =>
    preserves_bind (keeps_modifySegMap _) fun _ => preserves_bind (keeps_modifySegMap _) fun _ =>
    preserves_bind (keeps_modifySegMap _) fun _ =>
    preserves_bind (keeps_reads frame_getSegMap) fun _ =>
      preserves_ite (fun _ => ?_) fun _ => ?_
  · exact preserves_bind (keeps_modifySegMap _) fun _ => preserves_pure _
  · exact preserves_bind (keeps_modifySegMap _) fun _ =>
      preserves_bind (keeps_reads frame_getSegMap) fun _ =>
      preserves_bind (keeps_findCheckpointInSegment _ _ _) fun _ =>
      preserves_bind (keeps_reads (frame_assert _)) fun _ => preserves_pure _

theorem keeps_findCheckpointAndTruncate (data : Nat → UInt8) (nBytes : Nat) :
    KeepsChip I (findCheckpointAndTruncate data nBytes) := by
  have herase : ∀ cpOffset n lastValid,
      KeepsChip I (eraseAfterCheckpoint cpOffset n lastValid) := by
    intro cpOffset n
    induction n with
    | zero => exact fun _ => preserves_pure _
    | succ n ih =>
      refine fun _ => preserves_ite (fun _ => preserves_pure _) fun _ =>
        preserves_bind (keeps_reads (frame_logicalAddressToPhysical _)) fun _ =>
        preserves_bind (keeps_nandErase hI _) fun _ => preserves_ite (fun _ => preserves_pure _)
          fun _ => preserves_bind (keeps_modifySegMap _) fun _ => ih _
  have hread : ∀ (cp : LogAddr) (pending : Bool) (res : Nat), KeepsChip I (do
      if res ≠ 0 then pure (1, data, pending)
      else do
        modifySegMap fun m => m.setReclaimedOffset (cp.offset + 1)
        let r ← readCheckpointToMemory data nBytes cp
        pure (if r.1 ≠ 0 then 1 else 0, r.2, pending)) := fun _ _ _ =>
    preserves_ite (fun _ => preserves_pure _) fun _ => preserves_bind (keeps_modifySegMap _)
      fun _ => preserves_bind (keeps_readCheckpointToMemory _ _ _) fun _ => preserves_pure _
  have hcut : ∀ (cp lastValid : LogAddr) (pending : Bool), KeepsChip I (do
      let r ← eraseAfterCheckpoint cp.offset eusPerSlot lastValid
      if r.1 ≠ 0 then pure (1, data, pending)
      else do
        let res ← if r.2.offset ≠ cp.offset then copyBackEU cp else pure 0
        if res ≠ 0 then pure (1, data, pending)
        else do
          modifySegMap fun m => m.setReclaimedOffset (cp.offset + 1)
          let r ← readCheckpointToMemory data nBytes cp
          pure (if r.1 ≠ 0 then 1 else 0, r.2, pending)) := by
    intro cp lastValid pending
    refine preserves_bind (herase _ _ _) fun _ => preserves_ite (fun _ => preserves_pure _)
      fun _ => ?_
    exact preserves_ite (fun _ => preserves_bind (keeps_copyBackEU hI _) fun _ => hread _ _ _)
      fun _ => preserves_bind (preserves_pure _) fun _ => hread _ _ _
  refine preserves_bind (keeps_reads frame_getSegMap) fun m =>
    preserves_ite (fun _ => preserves_pure _) fun _ => preserves_ite (fun _ => ?_) fun _ => ?_
  · exact preserves_bind (keeps_truncateCurrentSegment hI) fun _ => preserves_pure _
  · generalize m.reclaimed.decOffset = lastValid
    refine preserves_bind (keeps_findCheckpointInSegment _ _ _) fun found => ?_
    cases found with
    | some offset =>
      refine preserves_bind (preserves_pure _) fun cp => ?_
      cases cp with
      | none => exact preserves_pure _
      | some cp => exact preserves_bind (keeps_reads frame_getSegMap) fun _ => hcut _ _ _
    | none =>
      refine preserves_bind (keeps_returnToPrevCheckpoint hI _) fun cp => ?_
      cases cp with
      | none => exact preserves_pure _
      | some cp => exact preserves_bind (keeps_reads frame_getSegMap) fun _ => hcut _ _ _

/-! ## Boot -/

theorem keeps_writeReserveSegmentHeader (a : Nat) :
    KeepsChip I (writeReserveSegmentHeader a) := by
  have hloop : ∀ page n b, KeepsChip I (writeReserveHeaderLoop page n b) := by
    intro page n
    induction n with
    | zero => exact fun _ => preserves_throw _
    | succ n ih =>
      exact fun _ => preserves_bind (keeps_nandProgramTotalPage hI _ _) fun _ => preserves_ite
        (fun _ => preserves_bind (keeps_markEuAsBad hI _) fun _ => ih _) fun _ => preserves_pure _
  exact preserves_bind (keeps_modifySegMap _) fun _ =>
    preserves_bind (keeps_reads frame_getSegMap) fun _ => hloop _ _ _

theorem keeps_handleReserveSegments : KeepsChip I handleReserveSegments := by
  have hempty : ∀ segs, KeepsChip I (handleReservesAreEmpty segs) := by
    intro segs
    induction segs with
    | nil => exact preserves_pure _
    | cons i is ih =>
      refine preserves_bind (keeps_reads frame_getSegMap) fun _ => preserves_ite (fun _ => ih)
        fun _ => preserves_bind (keeps_reads (frame_getValidEuAddrInLocation _ _)) fun _ => ?_
      exact keeps_seqVerify (keeps_writeReserveSegmentHeader hI _)
        (preserves_bind (keeps_modifySegMap _) fun _ => ih)
  have hscan : ∀ slots found, KeepsChip I (scanReserveSlots slots found) := by
    intro slots
    induction slots with
    | nil => exact fun _ => preserves_pure _
    | cons slotId slots ih =>
      intro found
      refine preserves_bind (keeps_reads (frame_getValidEuAddrInLocation _ _)) fun _ =>
        preserves_ite (fun _ => ih _) fun _ =>
        preserves_bind (keeps_reads (frame_nandReadPageTotal _)) fun page => ?_
      cases page with
      | none =>
        exact preserves_bind (keeps_nandErase hI _) fun _ =>
          preserves_ite (fun _ => preserves_pure _) fun _ => ih _
      | some page =>
        dsimp only
        cases page.flags.segType with
        | notUsed => exact preserves_bind (keeps_nandErase hI _) fun _ => ih _
        | used => exact ih _
        | reserve =>
          exact preserves_bind (keeps_reads frame_getSegMap) fun _ => preserves_ite (fun _ => ih _)
            fun _ => preserves_bind (keeps_modifySegMap _) fun _ => ih _
  refine preserves_bind (hscan _ _) fun _ => preserves_ite (fun _ => preserves_pure _) fun _ =>
    preserves_bind (keeps_reads frame_getSegMap) fun _ =>
      preserves_ite (fun _ => ?_) fun _ => preserves_pure _
  exact preserves_bind (keeps_seqVerify (hempty _) (preserves_pure _)) fun _ => preserves_pure _

omit hI in
theorem keeps_findLastValidPageInEU (eu : Nat) : KeepsChip I (findLastValidPageInEU eu) := by
  have hloop : ∀ n start last, KeepsChip I (lastValidPageInEuLoop n start last) := by
    intro n
    induction n with
    | zero => exact fun _ _ => preserves_pure _
    | succ n ih =>
      intro start last
      refine preserves_bind (keeps_reads (frame_nandReadPageTotal _)) fun page => ?_
      cases page with
      | none => exact ih _ _
      | some page => exact preserves_ite (fun _ => ih _ _) fun _ => ih _ _
  refine preserves_bind (hloop _ _ _) fun _ =>
    preserves_bind (keeps_reads (frame_nandReadPageTotal _)) fun page => ?_
  cases page <;> exact preserves_pure _

omit hI in
theorem keeps_validOrReserveEu (eu : Nat) : KeepsChip I (validOrReserveEu eu) :=
  preserves_bind (keeps_reads (frame_nandCheckEuStatus _)) fun _ =>
    preserves_ite (fun _ => preserves_pure _) fun _ =>
      keeps_reads (frame_logicalAddressToReservePhysical _)

theorem keeps_findLastValidPageInSlot (slotId : Nat) :
    KeepsChip I (findLastValidPageInSlot slotId) := by
  have hused : ∀ eu, KeepsChip I (isUsedEU eu) := by
    intro eu
    refine preserves_bind (keeps_validOrReserveEu _) fun _ =>
      preserves_ite (fun _ => preserves_pure _) fun _ =>
      preserves_bind (keeps_reads (frame_nandReadPageTotal _)) fun page => ?_
    cases page <;> exact preserves_pure _
  have hloop : ∀ n startEu endEu lastUsedEu,
      KeepsChip I (lastValidPageInSlotLoop n startEu endEu lastUsedEu) := by
    intro n
    induction n with
    | zero => exact fun _ _ _ => preserves_pure _
    | succ n ih =>
      refine fun _ _ _ => preserves_ite (fun _ => ?_) fun _ => preserves_pure _
      refine preserves_bind (keeps_reads (frame_nandCheckEuStatus _)) fun _ =>
        preserves_ite (fun _ => ?_) fun _ => ?_
      · refine preserves_bind (keeps_reads (frame_nandReadPageTotal _)) fun page => ?_
        cases page with
        | none =>
          exact preserves_bind (keeps_nandErase hI _) fun _ =>
            preserves_bind (keeps_reads (frame_assert _)) fun _ => ih _ _ _
        | some page => exact preserves_ite (fun _ => ih _ _ _) fun _ => ih _ _ _
      · exact preserves_bind (keeps_reads (frame_logicalAddressToReservePhysical _)) fun _ =>
          preserves_ite (fun _ => ih _ _ _) fun _ => ih _ _ _
  refine preserves_bind (hloop _ _ _ _) fun _ => preserves_bind (hused _) fun eu => ?_
  cases eu with
  | some eu => exact keeps_findLastValidPageInEU _
  | none =>
    refine preserves_bind (hused _) fun eu => ?_
    cases eu <;> exact keeps_findLastValidPageInEU _

theorem keeps_handleDoubly (found : Doubly) : KeepsChip I (handleDoubly found) := by
  have hprev : ∀ n a, KeepsChip I (prevValidEu n a) := by
    intro n
    induction n with
    | zero => exact fun _ => preserves_throw _
    | succ n ih =>
      exact fun _ => preserves_bind (keeps_reads (frame_nandCheckEuStatus _)) fun _ =>
        preserves_ite (fun _ => preserves_pure _) fun _ => ih _
  have hfirst : ∀ n a b, KeepsChip I (firstSlotIsComplete n a b) := by
    intro n
    induction n with
    | zero => exact fun _ _ => preserves_throw _
    | succ n ih =>
      refine fun _ _ => preserves_bind (hprev _ _) fun _ => preserves_bind (hprev _ _) fun _ =>
        preserves_bind (keeps_reads (frame_nandReadPageTotal _)) fun _ =>
        preserves_bind (keeps_reads (frame_nandReadPageTotal _)) fun _ =>
        preserves_ite (fun _ => ih _ _) fun _ => preserves_ite (fun _ => ?_)
          fun _ => preserves_pure _
      exact preserves_bind (keeps_getLastValidEuPage _) fun _ =>
        preserves_bind (keeps_getLastValidEuPage _) fun _ => preserves_pure _
  refine preserves_ite (fun _ => preserves_bind (keeps_reads frame_getSegMap) fun _ => ?_)
    fun _ => preserves_pure _
  refine preserves_bind (hfirst _ _ _) fun _ => preserves_ite (fun _ => ?_) fun _ => ?_
  · exact preserves_bind (keeps_modifySegMap _) fun _ =>
      keeps_seqVerify (keeps_truncateSlot hI _ _) (preserves_pure _)
  · exact preserves_bind (keeps_modifySegMap _) fun _ => preserves_bind (keeps_modifySegMap _)
      fun _ => keeps_seqVerify (keeps_truncateSlot hI _ _) (preserves_pure _)

theorem keeps_markSegmentInSegMap (header : Page) (headerPhyAddr slotId nBytes : Nat) :
    KeepsChip I (markSegmentInSegMap header headerPhyAddr slotId nBytes) := by
  have hverify : KeepsChip I (verifyCompleteSegmentHeader headerPhyAddr nBytes) := by
    refine preserves_bind (keeps_reads (frame_nandReadPageTotal _)) fun page => ?_
    cases page with
    | none => exact preserves_bind (keeps_nandErase hI _) fun _ => preserves_pure _
    | some page =>
      exact preserves_ite
        (fun _ => preserves_bind (keeps_nandErase hI _) fun _ => preserves_pure _)
        fun _ => preserves_pure _
  have hcopied : ∀ segId isSlotReserve,
      KeepsChip I (markCopiedSlot segId slotId isSlotReserve) := by
    intro segId isSlotReserve
    refine preserves_bind (keeps_reads frame_getSegMap) fun _ =>
      preserves_bind (keeps_findLastValidPageInSlot hI _) fun _ =>
      preserves_bind (keeps_findLastValidPageInSlot hI _) fun _ =>
      preserves_ite (fun _ => keeps_seqVerify (keeps_truncateSlot hI _ _) (preserves_pure _))
        fun _ => ?_
    exact preserves_bind (keeps_modifySegMap _) fun _ =>
      keeps_seqVerify (keeps_truncateSlot hI _ _) (preserves_pure _)
  have hgenerations : ∀ segId sequenceNum marked,
      KeepsChip I (markGenerations segId slotId sequenceNum marked) := by
    intro segId sequenceNum marked
    refine preserves_bind (keeps_modifySegMap _) fun _ => preserves_bind (keeps_modifySegMap _)
      fun _ => preserves_bind (keeps_reads frame_getSegMap) fun _ =>
      preserves_bind (keeps_findLastValidPageInSlot hI _) fun _ => preserves_ite (fun _ => ?_)
        fun _ => preserves_pure _
    exact preserves_bind (keeps_reads frame_getSegMap) fun _ =>
      keeps_seqVerify (keeps_truncateSlot hI _ _)
        (preserves_bind (keeps_modifySegMap _) fun _ => preserves_pure _)
  refine preserves_bind hverify fun _ => preserves_ite (fun _ => preserves_pure _) fun _ =>
    preserves_bind (keeps_reads frame_getSegMap) fun _ => preserves_ite
      (fun _ => preserves_bind (keeps_modifySegMap _) fun _ => preserves_pure _) fun _ =>
    preserves_ite (fun _ => preserves_pure _) fun _ =>
    preserves_bind (keeps_reads (frame_logicalAddressToPhysical _)) fun _ =>
    preserves_bind (keeps_reads (frame_assert _)) fun _ =>
    preserves_bind (keeps_reads (frame_nandReadPageTotal _)) fun page => ?_
  cases page with
  | none => exact preserves_throw _
  | some page => exact preserves_ite (fun _ => hcopied _ _) fun _ => hgenerations _ _ _

theorem keeps_handleRegularSegments (nBytes : Nat) :
    KeepsChip I (handleRegularSegments nBytes) := by
  have hscan : ∀ slots, KeepsChip I (scanRegularSlots nBytes slots) := by
    intro slots
    induction slots with
    | nil => exact preserves_pure _
    | cons slotId slots ih =>
      refine preserves_bind (keeps_reads (frame_getValidEuAddrInLocation _ _)) fun _ =>
        preserves_bind (keeps_reads (frame_assert _)) fun _ =>
        preserves_bind (keeps_reads (frame_nandReadPageTotal _)) fun page => ?_
      cases page with
      | none => exact preserves_pure _
      | some first =>
        refine preserves_ite (fun _ => ih) fun _ => preserves_bind (keeps_validOrReserveEu _)
          fun _ => preserves_ite (fun _ => ih) fun _ =>
          preserves_bind (keeps_reads (frame_nandReadPageTotal _)) fun page => ?_
        cases page with
        | none =>
          exact preserves_bind (keeps_nandErase hI _) fun _ =>
            preserves_bind (keeps_markEuAsBad hI _) fun _ => ih
        | some page =>
          exact preserves_ite (fun _ => keeps_seqVerify (keeps_markSegmentInSegMap hI _ _ _ _) ih)
            fun _ => preserves_bind (keeps_nandErase hI _) fun _ => ih
  exact preserves_bind (keeps_modifySegMap _) fun _ => hscan _

theorem keeps_erasePossibleNextFirstEU : KeepsChip I erasePossibleNextFirstEU := by
  refine preserves_bind (keeps_reads frame_getSegMap) fun _ =>
    preserves_ite (fun _ => preserves_pure _) fun _ =>
    preserves_ite (fun _ => preserves_pure _) fun _ =>
    preserves_bind (keeps_reads (frame_nandCheckEuStatus _)) fun _ => preserves_ite (fun _ => ?_)
      fun _ => ?_
  · exact keeps_seqVerify (keeps_nandErase hI _) (preserves_pure _)
  · exact keeps_seqVerify (keeps_erasePossibleEUReplacement hI _) (preserves_pure _)

theorem keeps_handleInvalidPrograms (lastValid cpPagesSize : Nat) :
    KeepsChip I (handleInvalidPrograms lastValid cpPagesSize) := by
  refine preserves_bind (keeps_modifySegMap _) fun _ =>
    preserves_bind (keeps_reads frame_getSegMap) fun _ => preserves_ite (fun _ => ?_) fun _ =>
    preserves_ite (fun _ => ?_) fun _ => ?_
  · refine preserves_ite (fun _ => ?_) fun _ =>
      keeps_seqVerify (keeps_erasePossibleNextFirstEU hI) (preserves_pure _)
    exact preserves_bind (keeps_truncateSlot hI _ _) fun _ =>
      preserves_ite (fun _ => preserves_pure _) fun _ =>
        preserves_bind (keeps_modifySegMap _) fun _ =>
          preserves_bind (keeps_modifySegMap _) fun _ => preserves_pure _
  · refine keeps_seqVerify (keeps_copyBackEU hI _) (preserves_ite (fun _ => ?_) fun _ => ?_)
    · exact keeps_seqVerify (keeps_nandErase hI _) (preserves_bind (keeps_modifySegMap _) fun _ =>
        preserves_bind (keeps_modifySegMap _) fun _ => preserves_pure _)
    · exact preserves_ite
        (fun _ => preserves_bind (keeps_modifySegMap _) fun _ => preserves_pure _)
        fun _ => preserves_pure _
  · refine preserves_bind (keeps_reads (frame_logicalAddressToPhysical _)) fun _ =>
      preserves_ite (fun _ => ?_) fun _ =>
        keeps_seqVerify (keeps_erasePossibleEUReplacement hI _) (preserves_pure _)
    exact preserves_bind (keeps_nandErase hI _) fun _ => preserves_ite
      (fun _ => preserves_bind (keeps_markEuAsBad hI _) fun _ => preserves_pure _)
      fun _ => preserves_pure _

section Writer
variable {cpWriter : CheckpointWriter} (hcp : KeepsChip I (cpWriter true))
include hcp

theorem keeps_handleFlashIsEmpty : KeepsChip I (handleFlashIsEmpty cpWriter) := by
  have hfirst : KeepsChip I firstEu := preserves_bind (keeps_reads (frame_nandCheckEuStatus 0))
    fun _ => preserves_ite (fun _ => preserves_pure _) fun _ =>
    preserves_bind (keeps_reads (frame_allocReserveEU 0)) fun _ =>
    preserves_bind (keeps_reads (frame_assert _)) fun _ =>
    preserves_bind (keeps_modifySegMap _) fun _ => preserves_pure _
  exact preserves_bind (keeps_modifySegMap _) fun _ => preserves_bind (keeps_modifySegMap _)
    fun _ => preserves_bind hfirst fun _ => keeps_seqVerify (keeps_nandErase hI _)
    (keeps_seqVerify (keeps_writeSegmentHeader hI hcp)
      (preserves_bind (keeps_modifySegMap _) fun _ => preserves_pure _))

theorem keeps_resumeLog (data : Nat → UInt8) (nBytes : Nat) :
    KeepsChip I (resumeLog data nBytes cpWriter) := by
  have hnext : ∀ (data : Nat → UInt8) (pending : Bool), KeepsChip I (do
      let r ← findNextFreePage cpWriter 0
      pure (if r.1 ≠ 0 then 1 else 0, data, pending)) := fun _ _ =>
    preserves_bind (keeps_findNextFreePage hI hcp _) fun _ => preserves_pure _
  have hrest : ∀ lastValid offset cpPagesSize, KeepsChip I (do
      modifySegMap fun m => m.setReclaimedOffset offset
      if (← handleInvalidPrograms lastValid cpPagesSize) ≠ 0 then pure (1, data, true)
      else do
        let c ← findCheckpointAndTruncate data nBytes
        if c.1 ≠ 0 then pure (1, c.2.1, c.2.2)
        else do
          let m ← getSegMap
          if !m.isStateReclamation && decide (cpPagesSize < m.reclaimed.offset) then
            decrementFreeCount
          let r ← findNextFreePage cpWriter 0
          pure (if r.1 ≠ 0 then 1 else 0, c.2.1, c.2.2)) := by
    intro lastValid offset cpPagesSize
    refine preserves_bind (keeps_modifySegMap _) fun _ =>
      preserves_bind (keeps_handleInvalidPrograms hI _ _) fun _ =>
      preserves_ite (fun _ => preserves_pure _) fun _ =>
      preserves_bind (keeps_findCheckpointAndTruncate hI _ _) fun _ =>
      preserves_ite (fun _ => preserves_pure _) fun _ =>
      preserves_bind (keeps_reads frame_getSegMap) fun _ => ?_
    exact preserves_ite (fun _ => preserves_bind (keeps_modify fun _ => rfl) fun _ => hnext _ _)
      fun _ => hnext _ _
  refine preserves_bind (keeps_reads frame_getSegMap) fun _ =>
    preserves_bind (keeps_findLastValidPageInSlot hI _) fun lastValid =>
    preserves_bind (keeps_reads frame_getSegMap) fun _ => preserves_ite (fun _ => ?_) fun _ => ?_
  · exact preserves_bind (preserves_bind (keeps_reads (frame_nandReadPageFlags _)) fun _ =>
      preserves_pure _) fun _ => hrest _ _ _
  · exact preserves_bind (preserves_pure _) fun _ => hrest _ _ _

theorem keeps_sequencingBooting (data : Nat → UInt8) (nBytes : Nat) :
    KeepsChip I (sequencingBooting data nBytes cpWriter) := by
  refine preserves_bind (keeps_modifySegMap _) fun _ => preserves_bind (keeps_modifyObsCounters _)
    fun _ => preserves_bind (keeps_handleReserveSegments hI) fun _ =>
    preserves_ite (fun _ => preserves_pure _) fun _ => preserves_bind (keeps_handleDoubly hI _)
    fun _ => preserves_ite (fun _ => preserves_pure _) fun _ =>
    preserves_bind (keeps_handleCopyBack hI) fun _ => preserves_ite (fun _ => preserves_pure _)
    fun _ => preserves_bind (keeps_handleRegularSegments hI _) fun _ =>
    preserves_ite (fun _ => preserves_pure _) fun _ =>
    preserves_bind (keeps_reads frame_getSegMap) fun _ => preserves_ite (fun _ => ?_)
      fun _ => keeps_resumeLog hI hcp _ _
  exact preserves_bind (keeps_modify fun _ => rfl) fun _ =>
    preserves_bind (keeps_modify fun _ => rfl) fun _ =>
    preserves_bind (keeps_handleFlashIsEmpty hI hcp) fun _ => preserves_pure _

end Writer

theorem keeps_checkpointWriter (data : Nat → UInt8) (nBytes : Nat) :
    KeepsChip I (checkpointWriter data nBytes true) :=
  preserves_commit_header (keeps_writeBlock hI) (keeps_modifySegMap _) _ _ _

end Operations

end Walk

end Steps

end NandFs
