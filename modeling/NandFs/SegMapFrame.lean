import NandFs.Boot
import NandFs.Program

/-! # What leaves the segment map alone

The chip is read, programmed and erased, pages are looked up and copied, and the counters
are kept, all without a change to the segment map.  Writing a page or a segment header moves
the reclaimed offset and the sequence number only: the part of the map that says which slot
belongs to which segment (`SegMap.mapping`) stays.
-/
namespace NandFs

open Program

variable [Config]

/-- Which slots the segments have, the free slot, the current segment and how many there
are. -/
structure Mapping where
  segToSlot : Nat → Nat
  newSlotId : Nat
  recSegment : Nat
  nSegments : Nat

def SegMap.mapping (m : SegMap) : Mapping :=
  ⟨m.segToSlot, m.newSlotId, m.reclaimed.segment, m.nSegments⟩

def World.mapping (w : World) : Mapping := w.segMap.mapping

section Rules
variable {s : World} {E : Halt → World → Prop}

@[simp] theorem wp_getSegMap {Q : SegMap → World → Prop} :
    wp getSegMap Q E s ↔ Q s.segMap s := Iff.rfl

@[simp] theorem wp_modifySegMap {Q : Unit → World → Prop} (f : SegMap → SegMap) :
    wp (modifySegMap f) Q E s ↔ Q () { s with segMap := f s.segMap } := Iff.rfl

/-- A failed test returns 1; otherwise what follows decides. -/
theorem wp_seqVerify {test next : SeqM Nat} {Q : Nat → World → Prop}
    (h : wp test (fun res t => if res ≠ 0 then Q 1 t else wp next Q E t) E s) :
    wp (seqVerify test next) Q E s := by
  refine wp_seq h fun res t ht => ?_
  by_cases hr : res ≠ 0
  · rw [if_pos hr] at ht ⊢; exact ht
  · rw [if_neg hr] at ht ⊢; exact ht

end Rules

section Control
variable {τ : Type} {view : World → τ}

theorem frame_assert (test : Bool) : Frame view (assert test) := by
  unfold assert
  exact frame_ite (frame_pure _) (frame_throw _)

theorem frame_seqVerify {test next : SeqM Nat} (ht : Frame view test) (hn : Frame view next) :
    Frame view (seqVerify test next) :=
  frame_bind ht fun _ => frame_ite (frame_pure _) hn

theorem frame_getSegMap : Frame view getSegMap := frame_bind frame_get fun _ => frame_pure _

theorem frame_getFp (page : Nat) : Frame view (getFp page) := frame_assert _

theorem frame_nandReadPageTotal (a : Nat) : Frame view (nandReadPageTotal a) :=
  frame_bind (frame_getFp a) fun _ =>
    frame_ite (frame_pure _) (frame_bind frame_get fun _ => frame_pure _)

theorem frame_nandReadPageFlags (a : Nat) : Frame view (nandReadPageFlags a) :=
  frame_bind (frame_getFp a) fun _ =>
    frame_bind (frame_assert _) fun _ => frame_bind frame_get fun _ => frame_pure _

theorem frame_nandCheckEuStatus (a : Nat) : Frame view (nandCheckEuStatus a) :=
  frame_bind (frame_getFp a) fun _ =>
    frame_bind (frame_assert _) fun _ => frame_bind frame_get fun _ => frame_pure _

theorem frame_findReserveEu (expected : Nat) (eus : List Nat) :
    Frame view (findReserveEu expected eus) := by
  induction eus with
  | nil => exact frame_pure _
  | cons eu eus ih =>
    refine frame_bind (frame_nandCheckEuStatus eu) fun _ => frame_ite ?_ ih
    exact frame_bind (frame_nandReadPageFlags eu) fun _ => frame_ite (frame_pure _) ih

theorem frame_logicalAddressToReservePhysical (a : Nat) :
    Frame view (logicalAddressToReservePhysical a) := by
  refine frame_bind frame_getSegMap fun m => frame_bind (frame_findReserveEu _ _) fun eu => ?_
  cases eu <;> exact frame_pure _

theorem frame_logicalAddressToPhysical (a : LogAddr) :
    Frame view (logicalAddressToPhysical a) := by
  refine frame_bind frame_getSegMap fun m => frame_bind (frame_assert _) fun _ =>
    frame_bind (frame_assert _) fun _ => frame_bind (frame_nandCheckEuStatus _) fun _ => ?_
  exact frame_ite (frame_pure _) (frame_logicalAddressToReservePhysical _)

theorem frame_isPageMarkedObsolete (a : Nat) : Frame view (isPageMarkedObsolete a) :=
  frame_bind (frame_nandReadPageFlags a) fun _ => frame_pure _

theorem frame_nthValidEu (location : Nat) (eus : List Nat) :
    Frame view (nthValidEu location eus) := by
  induction eus generalizing location with
  | nil => exact frame_pure _
  | cons eu eus ih =>
    refine frame_bind (frame_nandCheckEuStatus eu) fun _ => frame_ite ?_ (ih location)
    exact frame_ite (frame_pure _) (ih _)

theorem frame_getValidEuAddrInLocation (slotId euLocation : Nat) :
    Frame view (getValidEuAddrInLocation slotId euLocation) :=
  frame_bind (frame_assert _) fun _ => frame_nthValidEu _ _

theorem frame_getCopybackEu : Frame view getCopybackEu :=
  frame_bind frame_getSegMap fun _ => frame_getValidEuAddrInLocation _ _

theorem frame_findFreeEu (cbEu : Nat) (eus : List Nat) : Frame view (findFreeEu cbEu eus) := by
  induction eus with
  | nil => exact frame_pure _
  | cons eu eus ih =>
    refine frame_bind (frame_nandCheckEuStatus eu) fun _ => frame_ite ?_ ih
    refine frame_ite ?_ ih
    exact frame_bind (frame_nandReadPageFlags eu) fun _ => frame_ite (frame_pure _) ih

theorem frame_allocReserveEU (a : Nat) : Frame view (allocReserveEU a) := by
  refine frame_bind frame_getCopybackEu fun _ => frame_bind (frame_assert _) fun _ =>
    frame_bind frame_getSegMap fun _ => frame_bind (frame_findFreeEu _ _) fun eu => ?_
  cases eu <;> exact frame_pure _

theorem frame_calcTargetPhyAddr : Frame view calcTargetPhyAddr :=
  frame_bind frame_getSegMap fun _ =>
    frame_ite (frame_pure _) (frame_ite (frame_pure _) (frame_pure _))

theorem frame_countValidEus (slotId : Nat) : Frame view (countValidEus slotId) :=
  frame_bind frame_get fun _ => frame_bind (frame_assert _) fun _ => frame_pure _

theorem frame_readBlock (b : LogAddr) : Frame view (readBlock b) :=
  frame_bind (frame_logicalAddressToPhysical b) fun _ => frame_bind (frame_assert _) fun _ =>
    frame_bind (frame_nandReadPageTotal _) fun _ => frame_pure _

theorem frame_skipBadEus (step n toPhyAddr toPageOffset : Nat) :
    Frame view (skipBadEus step n toPhyAddr toPageOffset) := by
  induction n generalizing toPhyAddr toPageOffset with
  | zero => exact frame_throw _
  | succ n ih =>
    exact frame_bind (frame_nandCheckEuStatus _) fun _ => frame_ite (frame_pure _) (ih _ _)

theorem frame_isSourceUnused (isSlotReserve : Bool) (fromPhyAddr : Nat) :
    Frame view (isSourceUnused isSlotReserve fromPhyAddr) := by
  refine frame_ite (frame_bind (frame_nandReadPageTotal _) fun page => ?_) (frame_pure _)
  cases page <;> exact frame_pure _

end Control

/-! ## Operations on the chip and the counters -/

theorem frame_modifyFlash (f : Flash → Flash) : Frame World.segMap (modifyFlash f) :=
  frame_modify fun _ => rfl

theorem frame_modifyObsCounters (f : ObsCounters → ObsCounters) :
    Frame World.segMap (modifyObsCounters f) :=
  frame_modify fun _ => rfl

/-- What does not look at the power that is left is kept when some of it is spent. -/
theorem preserves_spendPower {I : World → Prop}
    (h : ∀ (w : World) power, I w → I { w with flash := { w.flash with power := power } }) :
    Preserves I spendPower := by
  refine preserves_bind preserves_get fun w => ?_
  cases w.flash.power with
  | none => exact preserves_pure _
  | some n =>
    cases n with
    | zero => exact preserves_throw _
    | succ n => exact preserves_modify fun w hw => h w _ hw

theorem frame_spendPower_of {τ : Type} {view : World → τ}
    (h : ∀ (w : World) power, view { w with flash := { w.flash with power := power } } = view w) :
    Frame view spendPower :=
  fun _ => preserves_spendPower fun w power hw => (h w power).trans hw

theorem frame_spendPower : Frame World.segMap spendPower := frame_spendPower_of fun _ _ => rfl

/-! What does not look at the chip is kept when pages are programmed and erased. -/

section Chip
variable {τ : Type} {view : World → τ} (h : ∀ (w : World) f, view { w with flash := f } = view w)
include h

theorem frame_nandProgramPageA_of (page : Page) (a : Nat) (total : Bool) :
    Frame view (nandProgramPageA page a total) := by
  refine frame_bind (frame_getFp a) fun _ => frame_ite (frame_pure _) ?_
  refine frame_bind frame_get fun _ => frame_bind (frame_assert _) fun _ => ?_
  exact frame_bind (frame_spendPower_of fun w _ => h w _) fun _ =>
    frame_bind (frame_modify fun w => h w _) fun _ => frame_pure _

theorem frame_nandProgramTotalPage_of (page : Page) (a : Nat) :
    Frame view (nandProgramTotalPage page a) :=
  frame_ite (frame_seqVerify (frame_nandProgramPageA_of h _ _ _) (frame_pure _))
    (frame_seqVerify (frame_nandProgramPageA_of h _ _ _) (frame_pure _))

theorem frame_nandErase_of (a : Nat) : Frame view (nandErase a) := by
  refine frame_bind (frame_getFp a) fun _ => frame_ite (frame_pure _) ?_
  refine frame_bind (frame_nandCheckEuStatus _) fun _ => frame_ite ?_ (frame_pure _)
  exact frame_bind (frame_spendPower_of fun w _ => h w _) fun _ =>
    frame_bind (frame_modify fun w => h w _) fun _ => frame_pure _

theorem frame_markEuAsBad_of (a : Nat) : Frame view (markEuAsBad a) := by
  refine frame_bind (frame_nandCheckEuStatus _) fun _ => frame_ite ?_ (frame_pure _)
  refine frame_bind frame_get fun _ => frame_bind (frame_assert _) fun _ => ?_
  exact frame_bind (frame_spendPower_of fun w _ => h w _) fun _ => frame_modify fun w => h w _

end Chip

theorem frame_nandProgramTotalPage (page : Page) (a : Nat) :
    Frame World.segMap (nandProgramTotalPage page a) :=
  frame_nandProgramTotalPage_of (fun _ _ => rfl) page a

theorem frame_nandProgramObsoleteByte (a : Nat) :
    Frame World.segMap (nandProgramObsoleteByte a) := by
  refine frame_bind (frame_getFp a) fun _ => frame_ite (frame_pure _) ?_
  refine frame_bind frame_get fun _ => frame_bind (frame_assert _) fun _ => ?_
  exact frame_bind frame_spendPower fun _ =>
    frame_bind (frame_modifyFlash _) fun _ => frame_pure _

theorem frame_nandErase (a : Nat) : Frame World.segMap (nandErase a) :=
  frame_nandErase_of (fun _ _ => rfl) a

theorem frame_genRandBit (neededProb : Nat) : Frame World.segMap (genRandBit neededProb) :=
  frame_bind frame_get fun _ => frame_bind (frame_modify fun _ => rfl) fun _ => frame_pure _

theorem frame_addObsCount (d : Nat) : Frame World.segMap (addObsCount d) :=
  frame_modify fun _ => rfl

theorem frame_addFreeCount (d : Nat) : Frame World.segMap (addFreeCount d) :=
  frame_modify fun _ => rfl

theorem frame_increaseObsCount : Frame World.segMap increaseObsCount := frame_addObsCount 1

theorem frame_decrementObsCount : Frame World.segMap decrementObsCount := frame_addObsCount _

theorem frame_incrementFreeCount : Frame World.segMap incrementFreeCount := frame_addFreeCount 1

theorem frame_decrementFreeCount : Frame World.segMap decrementFreeCount := frame_addFreeCount _

theorem frame_changeCounterLevel (level : UInt8) (segId : Nat) :
    Frame World.segMap (changeCounterLevel level segId) :=
  frame_modifyObsCounters _

theorem frame_incrementCounter (segId : Nat) : Frame World.segMap (incrementCounter segId) :=
  frame_bind frame_get fun _ => frame_ite (frame_pure _) (frame_changeCounterLevel _ _)

theorem frame_writeBlock (data : Page) (a : Nat) : Frame World.segMap (writeBlock data a) :=
  frame_bind frame_getSegMap fun _ => frame_bind (frame_nandProgramTotalPage _ _) fun _ =>
    frame_ite (frame_pure _) (frame_pure _)

theorem frame_copyPage (toAddr fromAddr : Nat) (isToReserve : Bool) (originalToAddress : Nat)
    (isSlotReserve : Bool) :
    Frame World.segMap (copyPage toAddr fromAddr isToReserve originalToAddress isSlotReserve) := by
  refine frame_bind (frame_nandReadPageTotal _) fun page => ?_
  cases page with
  | none => exact frame_pure _
  | some page => exact frame_seqVerify (frame_nandProgramTotalPage _ _) (frame_pure _)

theorem frame_truncateEus (isSlotReserve : Bool) (eus : List Nat) :
    Frame World.segMap (truncateEus isSlotReserve eus) := by
  induction eus with
  | nil => exact frame_pure _
  | cons i is ih =>
    refine frame_bind (frame_nandCheckEuStatus i) fun _ =>
      frame_ite (frame_seqVerify (frame_nandErase i) ih) (frame_ite ih ?_)
    exact frame_bind (frame_logicalAddressToReservePhysical i) fun _ =>
      frame_ite (frame_seqVerify (frame_nandErase _) ih) ih

theorem frame_truncateSlot (slotId : Nat) (isSlotReserve : Bool) :
    Frame World.segMap (truncateSlot slotId isSlotReserve) :=
  frame_ite (frame_truncateEus _ _) (frame_pure _)

theorem frame_markAsObsolete (b : LogAddr) (isAfterReboot : Bool) :
    Frame World.segMap (markAsObsolete b isAfterReboot) := by
  refine frame_bind (frame_logicalAddressToPhysical b) fun phyAddr =>
    frame_ite (frame_pure _) (frame_bind (frame_isPageMarkedObsolete _) fun _ => ?_)
  refine frame_ite ?_ (frame_seqVerify (frame_nandProgramObsoleteByte _) ?_)
  · exact frame_ite (frame_bind frame_increaseObsCount fun _ => frame_pure _) (frame_pure _)
  · refine frame_bind frame_increaseObsCount fun _ => frame_bind frame_get fun _ => ?_
    refine frame_ite (frame_bind (frame_changeCounterLevel _ _) fun _ => frame_pure _) ?_
    exact frame_bind (frame_genRandBit _) fun _ =>
      frame_ite (frame_bind (frame_incrementCounter _) fun _ => frame_pure _) (frame_pure _)

theorem frame_isPageToCopy (a : Nat) : Frame World.segMap (isPageToCopy a) := by
  refine frame_bind (frame_nandReadPageFlags a) fun _ => frame_ite ?_ (frame_ite ?_ (frame_pure _))
  · exact frame_bind frame_decrementObsCount fun _ => frame_pure _
  · exact frame_bind frame_decrementFreeCount fun _ => frame_pure _

theorem frame_copyValidBlock (phyAddr orgPhyAddr : Nat) :
    Frame World.segMap (copyValidBlock phyAddr orgPhyAddr) := by
  refine frame_bind frame_getSegMap fun m => frame_bind (frame_logicalAddressToPhysical _) fun _ =>
    frame_bind (frame_nandReadPageTotal _) fun page => ?_
  cases page with
  | none => exact frame_pure _
  | some page => exact frame_bind (frame_writeBlock _ _) fun _ => frame_pure _

theorem frame_sourceEu (fromValid : Bool) (fromEu : Nat) :
    Frame World.segMap (sourceEu fromValid fromEu) :=
  frame_ite (frame_pure _) (frame_bind (frame_logicalAddressToReservePhysical _) fun _ =>
    frame_bind (frame_assert _) fun _ => frame_pure _)

theorem frame_chooseTarget (newSlot toPhyAddr : Nat) (isSlotReserve : Bool) (s : WearState) :
    Frame World.segMap (chooseTarget newSlot toPhyAddr isSlotReserve s) := by
  refine frame_bind (frame_nandCheckEuStatus _) fun _ => frame_ite (frame_pure _) ?_
  refine frame_ite (frame_bind (frame_skipBadEus _ _ _ _) fun _ => frame_pure _) ?_
  refine frame_bind (frame_allocReserveEU _) fun _ => frame_ite ?_ (frame_pure _)
  exact frame_bind (frame_truncateSlot _ _) fun _ => frame_pure _

theorem frame_chooseEus (newSlot randomSlot : Nat) (isSlotReserve : Bool) (s : WearState) :
    Frame World.segMap (chooseEus newSlot randomSlot isSlotReserve s) := by
  refine frame_bind (frame_nandCheckEuStatus _) fun fromValid => frame_ite (frame_pure _) ?_
  refine frame_bind (frame_sourceEu _ _) fun _ => frame_bind (frame_isSourceUnused _ _) fun _ => ?_
  refine frame_ite (frame_bind (frame_skipBadEus _ _ _ _) fun _ => frame_pure _) ?_
  exact frame_chooseTarget _ _ _ _

theorem frame_copySlotLoop (newSlot randomSlot : Nat) (isSlotReserve : Bool) (n : Nat)
    (s : WearState) :
    Frame World.segMap (copySlotLoop newSlot randomSlot isSlotReserve n s) := by
  induction n generalizing s with
  | zero => exact frame_pure _
  | succ n ih =>
    refine frame_ite (frame_ite ?_ ?_) (frame_pure _)
    · exact frame_bind (frame_copyPage _ _ _ _ _) fun _ => ih _
    · refine frame_bind (frame_chooseEus _ _ _ _) fun choice => ?_
      cases choice with
      | copy t => exact frame_bind (frame_copyPage _ _ _ _ _) fun _ => ih _
      | again t => exact ih _
      | stop res => exact frame_pure _

theorem frame_hasEnoughEus (isSlotReserve : Bool) (randomSlot newSlot : Nat) :
    Frame World.segMap (hasEnoughEus isSlotReserve randomSlot newSlot) :=
  frame_ite (frame_bind (frame_countValidEus _) fun _ =>
    frame_bind (frame_countValidEus _) fun _ => frame_pure _) (frame_pure _)

/-! ## Writing pages and segment headers keeps the mapping -/

theorem frame_mapping {α : Type} {m : SeqM α} (h : Frame World.segMap m) :
    Frame World.mapping m :=
  h.comp SegMap.mapping

theorem frame_modifySegMap {f : SegMap → SegMap} (h : ∀ m, (f m).mapping = m.mapping) :
    Frame World.mapping (modifySegMap f) :=
  frame_modify fun w => h w.segMap

theorem frame_incrementReclaimedOffset :
    Frame World.mapping (modifySegMap SegMap.incrementReclaimedOffset) :=
  frame_modifySegMap fun _ => rfl

theorem frame_placeHeader : Frame World.mapping placeHeader := by
  refine frame_bind frame_getSegMap fun m => frame_bind (frame_nandCheckEuStatus _) fun _ => ?_
  refine frame_ite (frame_pure _) (frame_bind (frame_modifySegMap fun _ => rfl) fun _ => ?_)
  refine frame_bind (frame_allocReserveEU _) fun _ => frame_ite (frame_pure _) ?_
  exact frame_bind (frame_modifySegMap fun _ => rfl) fun _ => frame_pure _

theorem frame_placeEu : Frame World.mapping placeEu := by
  refine frame_bind (frame_modifySegMap fun _ => rfl) fun _ =>
    frame_bind frame_calcTargetPhyAddr fun _ => frame_bind (frame_nandCheckEuStatus _) fun _ => ?_
  refine frame_ite (frame_pure _) (frame_bind (frame_allocReserveEU _) fun _ => ?_)
  refine frame_bind (frame_modifySegMap fun _ => rfl) fun _ => frame_ite (frame_pure _) ?_
  exact frame_bind (frame_modifySegMap fun _ => rfl) fun _ => frame_pure _

theorem frame_placePage : Frame World.mapping placePage :=
  frame_bind frame_getSegMap fun _ => frame_ite frame_placeEu
    (frame_bind frame_calcTargetPhyAddr fun _ => frame_pure _)

/-- A checkpoint that is part of a segment header is written page by page at the reclaimed
address: it keeps what each page keeps. -/
theorem preserves_commit_header {I : World → Prop}
    (hwrite : ∀ data a, Preserves I (writeBlock data a))
    (hinc : Preserves I (modifySegMap SegMap.incrementReclaimedOffset))
    (cpWriter : CheckpointWriter) (data : Nat → UInt8) (nBytes : Nat) :
    Preserves I (commit cpWriter data nBytes true) := by
  have htarget : Preserves I calcTargetPhyAddr :=
    (frame_calcTargetPhyAddr : Frame id calcTargetPhyAddr).preserves I
  have hpages : ∀ n idx, Preserves I (commitPages cpWriter data nBytes true n idx) := by
    intro n
    induction n with
    | zero => exact fun _ => preserves_pure _
    | succ n ih =>
      intro idx
      refine preserves_bind preserves_get fun _ => preserves_bind htarget fun _ =>
        preserves_bind (hwrite _ _) fun _ => preserves_ite (fun _ => preserves_pure _) fun _ => ?_
      exact preserves_bind hinc fun _ => ih _
  refine preserves_ite (fun _ => hpages _ _) fun _ => ?_
  refine preserves_bind preserves_get fun _ => preserves_bind htarget fun _ =>
    preserves_bind (hwrite _ _) fun _ => ?_
  exact preserves_bind hinc fun _ => preserves_pure _

theorem frame_commit_header (cpWriter : CheckpointWriter) (data : Nat → UInt8) (nBytes : Nat) :
    Frame World.mapping (commit cpWriter data nBytes true) := fun c =>
  preserves_commit_header (fun _ _ => frame_mapping (frame_writeBlock _ _) c)
    (frame_incrementReclaimedOffset c) cpWriter data nBytes

section Header
variable {cpWriter : CheckpointWriter} (hcp : Frame World.mapping (cpWriter true))
include hcp

theorem frame_writeSegmentHeader : Frame World.mapping (writeSegmentHeader cpWriter) := by
  refine frame_bind (frame_modifySegMap fun _ => rfl) fun _ => frame_bind frame_getSegMap fun m => ?_
  refine frame_seqVerify (frame_mapping (frame_nandProgramTotalPage _ _)) ?_
  exact frame_bind frame_incrementReclaimedOffset fun _ => frame_seqVerify hcp (frame_pure _)

theorem frame_openSegment : Frame World.mapping (openSegment cpWriter) := by
  refine frame_bind (frame_modifySegMap fun _ => rfl) fun _ =>
    frame_bind frame_placeHeader fun _ => frame_ite (frame_pure _) ?_
  refine frame_seqVerify (frame_writeSegmentHeader hcp) (frame_bind frame_getSegMap fun m => ?_)
  exact frame_ite (frame_bind (frame_mapping (frame_changeCounterLevel _ _)) fun _ => frame_pure _)
    (frame_pure _)

end Header

end NandFs
