import NandFs.WearLeveling

/-! # Allocating and reading pages

The log of the sequencing layer.  `allocAndWriteBlock` writes a page at the reclaimed
address and goes on to the next free page (`findNextFreePage`): pages of the segment being
reclaimed that are still live are copied to the same offset of the new slot, and at the end
of a segment `moveToNextSegment` frees its old slot, picks the next segment and writes its
header with a checkpoint.  `commit` writes a checkpoint of the layer above and of the
counters.
-/
namespace NandFs

variable [Config]

open Config

/-- `ERROR_FLASH_FULL` -/
def errorFlashFull : Nat := 3

/-- `ERROR_NO_RESERVE_EU` -/
def errorNoReserveEu : Nat := 4

/-- `ERROR_IO` -/
def errorIo : Nat := 1

/-- `checkpoint_writer`: the layer above writes a checkpoint, in a segment header or not. -/
abbrev CheckpointWriter := Bool → SeqM Nat

/-! ## Reading and marking -/

/-- `readBlock`: `none` is its error return. -/
def readBlock (b : LogAddr) : SeqM (Option Block) := do
  let phyAddr ← logicalAddressToPhysical b
  assert (decide (phyAddr ≠ phyAddressEmpty))
  return (← nandReadPageTotal phyAddr).map Page.main

/-- `markAsObsolete` -/
def markAsObsolete (b : LogAddr) (isAfterReboot : Bool) : SeqM Nat := do
  let phyAddr ← logicalAddressToPhysical b
  if phyAddr = phyAddressEmpty then pure 1
  else if ← isPageMarkedObsolete phyAddr then do
    if isAfterReboot then increaseObsCount
    pure 0
  else seqVerify (nandProgramObsoleteByte phyAddr) do
    increaseObsCount
    if getCounterLevel (← get).obsCountersMap b.segment = obsCountNoObsoletes then do
      changeCounterLevel obsCountLevel0 b.segment
      pure 0
    else if ← genRandBit (powPagesPerSlot - 3) then do
      incrementCounter b.segment
      pure 0
    else pure 0

/-! ## Reclaiming -/

/-- `is_page_to_copy`: a page that is obsolete or part of a checkpoint is not copied, and its
place is free again. -/
def isPageToCopy (phyAddr : Nat) : SeqM Bool := do
  let flags ← nandReadPageFlags phyAddr
  if flags.obsolete then do
    decrementObsCount
    pure false
  else if flags.checkpoint ≠ .notPart then do
    decrementFreeCount
    pure false
  else pure true

/-- `copyValidBlock`: the page at the reclaimed address, to `phyAddr`. -/
def copyValidBlock (phyAddr orgPhyAddr : Nat) : SeqM Nat := do
  let m ← getSegMap
  match ← nandReadPageTotal (← logicalAddressToPhysical m.reclaimed) with
  | none => pure 1
  | some page => do
    let flags := { page.flags with copied := true }.setSlotEuOffset
      (if orgPhyAddr ≠ phyAddressEmpty then calculateSlotIdAndEuOffset orgPhyAddr
        else noSlotAndEuOffset)
    let logAddr ← writeBlock { page with flags := flags } phyAddr
    pure (if logAddr.segment = noSegmentNum then 1 else 0)

/-- The main area of a segment header: `page_area_flags` in a page of ones. -/
def headerBlock (sequenceNum segmentId : Nat) : Block := fun i =>
  if i.val < 8 then UInt8.ofNat (sequenceNum / 2 ^ (8 * i.val))
  else if i.val < 10 then UInt8.ofNat (segmentId / 2 ^ (8 * (i.val - 8)))
  else 0xff

/-- `writeSegmentHeader` -/
def writeSegmentHeader (cpWriter : CheckpointWriter) : SeqM Nat := do
  modifySegMap SegMap.incrementSequenceNum
  let m ← getSegMap
  let address := calcAddress m.newSlotId 0 0
  let flags := { initFlags with segType := .used }
  let flags := if m.isEuReserve then flags.setSlotEuOffset (calculateSlotIdAndEuOffset address)
    else flags
  let page : Page := ⟨headerBlock m.sequenceNum m.reclaimed.segment, flags⟩
  seqVerify (nandProgramTotalPage page (if m.isEuReserve then m.reserveEuAddr else address)) do
    modifySegMap SegMap.incrementReclaimedOffset
    seqVerify (cpWriter true) (pure 0)

/-! ## Moving to the next segment -/

/-- The first part of `moveToNextSegment`: in reclamation, truncate the old slot of the
segment that was just completed and map the segment to its new one.  Returns the error code
and the slot that is now free; when the last segment has been allocated that is the slot
`SEQ_SEGMENTS_COUNT`. -/
def finishSegment : SeqM (Nat × Nat) := do
  let m ← getSegMap
  if m.isStateReclamation then
    if (← truncateSlot m.reclaimedSegmentSlot false) ≠ 0 then pure (1, segmentsCount)
    else do
      modifySegMap fun m => m.setSlotForSeg m.newSlotId m.reclaimed.segment
      pure (0, m.reclaimedSegmentSlot)
  else pure (0, segmentsCount)

/-- The choice of the next segment in `moveToNextSegment`. -/
def nextSegment (newSlot : Nat) : SeqM Nat := do
  modifySegMap fun m => { m with previouslyWrittenSegment := m.reclaimed.segment }
  let m ← getSegMap
  if m.allSegmentsAllocated then do
    modifySegMap fun m => { m with newSlotId := newSlot }
    if ← genRandBit powSlots then
      seqVerify performWearLeveling (do
        if (← findSegmentToReclaim) ≠ 0 then pure errorFlashFull else pure 0)
    else do
      if (← findSegmentToReclaim) ≠ 0 then pure errorFlashFull else pure 0
  else do
    modifySegMap fun m =>
      let m := { m with newSlotId := m.newSlotId + 1, nSegments := m.nSegments + 1 }
      let m := m.setReclaimedSegment (m.reclaimed.segment + 1)
      m.setSlotForSeg m.reclaimed.segment m.reclaimed.segment
    pure 0

/-- Find the erase unit of the header, in `moveToNextSegment`. -/
def placeHeader : SeqM Nat := do
  let m ← getSegMap
  if ← nandCheckEuStatus (calcAddress m.newSlotId 0 0) then pure 0
  else do
    modifySegMap fun m => { m with isEuReserve := true }
    let reservePhyAddr ← allocReserveEU (calcAddress m.newSlotId 0 0)
    if reservePhyAddr = phyAddressEmpty then pure errorNoReserveEu
    else do
      modifySegMap fun m => m.setReserveEu reservePhyAddr
      pure 0

/-- Write the header of the segment chosen and start its counter, in `moveToNextSegment`. -/
def openSegment (cpWriter : CheckpointWriter) : SeqM Nat := do
  modifySegMap fun m => m.setReclaimedOffset 0
  let res ← placeHeader
  if res ≠ 0 then pure res
  else seqVerify (writeSegmentHeader cpWriter) do
    let m ← getSegMap
    if m.isStateReclamation then changeCounterLevel obsCountNoObsoletes m.reclaimed.segment
    pure 0

/-- `moveToNextSegment`.  A checkpoint has been written if and only if it returns 0. -/
def moveToNextSegment (cpWriter : CheckpointWriter) : SeqM Nat := do
  let (res, newSlot) ← finishSegment
  if res ≠ 0 then pure res
  else do
    let res ← nextSegment newSlot
    if res ≠ 0 then pure res else openSegment cpWriter

/-! ## The next free page -/

/-- In `findNextFreePage`, at the start of an erase unit: find where it is to be written. -/
def placeEu : SeqM (Nat × Nat) := do
  modifySegMap fun m => { m with isEuReserve := false, reserveEuAddr := phyAddressEmpty }
  let targetPhyAddr ← calcTargetPhyAddr
  if ← nandCheckEuStatus targetPhyAddr then pure (0, targetPhyAddr)
  else do
    let targetPhyAddr ← allocReserveEU targetPhyAddr
    modifySegMap fun m => { m with isEuReserve := true }
    if targetPhyAddr = phyAddressEmpty then pure (errorNoReserveEu, targetPhyAddr)
    else do
      modifySegMap fun m => { m with reserveEuAddr := targetPhyAddr }
      pure (0, targetPhyAddr)

/-- In `findNextFreePage`: where the page at the reclaimed offset is to be written. -/
def placePage : SeqM (Nat × Nat) := do
  if calcOffsetInEu (← getSegMap).reclaimed.offset = 0 then placeEu
  else return (0, ← calcTargetPhyAddr)

/-- The loop of `findNextFreePage` over the pages of a segment: `some` is what it returns,
`none` that it reached the end of the segment. -/
def nextFreeInSegment (okErrorCode : Nat) : Nat → SeqM (Option Nat)
  | 0 => pure none
  | n + 1 => do
    let m ← getSegMap
    if m.isPageOffsetOverflowing then pure none
    else do
      let (res, targetPhyAddr) ← placePage
      if res ≠ 0 then pure (some res)
      else do
        let m ← getSegMap
        if !m.isStateReclamation then pure (some okErrorCode)
        else do
          let phyAddr ← logicalAddressToPhysical m.reclaimed
          if ← isPageToCopy phyAddr then do
            let orgPhyAddr := if m.isAddressReserve phyAddr then phyAddr else 0
            if (← copyValidBlock targetPhyAddr orgPhyAddr) ≠ 0 then pure (some 1)
            else do
              modifySegMap SegMap.incrementReclaimedOffset
              nextFreeInSegment okErrorCode n
          else pure (some okErrorCode)

/-- In `findNextFreePage`: at the end of a segment, move to the next one.  The error code and
whether it moved. -/
def moveAtSegmentEnd (cpWriter : CheckpointWriter) : SeqM (Nat × Bool) := do
  if (← getSegMap).isPageOffsetOverflowing then return (← moveToNextSegment cpWriter, true)
  else return (0, false)

/-- `findNextFreePage`, for `n` more segments: its error code and whether a checkpoint was
written on the way. -/
def findNextFreePageLoop (cpWriter : CheckpointWriter) (okErrorCode : Nat) :
    Nat → Bool → SeqM (Nat × Bool)
  | 0, moved => pure (errorFlashFull, moved)
  | n + 1, moved => do
    let (res, isNew) ← moveAtSegmentEnd cpWriter
    if res ≠ 0 then pure (res, moved)
    else do
      let moved := moved || isNew
      match ← nextFreeInSegment okErrorCode pagesPerSlot with
      | some res => pure (res, moved)
      | none => do
        if moved then changeCounterLevel obsCountFull (← getSegMap).reclaimed.segment
        findNextFreePageLoop cpWriter okErrorCode n moved

/-- `findNextFreePage` -/
def findNextFreePage (cpWriter : CheckpointWriter) (okErrorCode : Nat) : SeqM (Nat × Bool) :=
  findNextFreePageLoop cpWriter okErrorCode segmentsCount false

/-! ## Writing a page -/

/-- `IS_COMMIT_NOT`, `IS_COMMIT_REGULAR` and `IS_COMMIT_LAST`. -/
inductive IsCommit
  | not
  | regular
  | last
  deriving DecidableEq, Repr

/-- What `allocAndWriteBlock` returns: its error code, the address it wrote to (that of the
caller if it wrote nothing) and whether a checkpoint was written on the way. -/
structure AllocResult where
  err : Nat
  logAddr : LogAddr
  cpWritten : Bool

/-- `allocAndWriteBlock`.  In a commit `data` is the buffer with its flags, otherwise only its
main area counts. -/
def allocAndWriteBlock (logAddr : LogAddr) (data : Page) (onlyVOTs : Bool) (prev : LogAddr)
    (cpWriter : CheckpointWriter) (isCommit : IsCommit) : SeqM AllocResult := do
  let w ← get
  if isFlashFull w.obsCountersMap then pure ⟨errorFlashFull, logAddr, false⟩
  else if w.segMap.isEuReserve ∧ w.segMap.reserveEuAddr = phyAddressEmpty then
    pure ⟨errorNoReserveEu, logAddr, false⟩
  else do
    let flags := if isCommit = .not then initFlags else data.flags
    let flags := { flags with vots := flags.vots || onlyVOTs, prev := prev }
    let written ← writeBlock { data with flags := flags } (← calcTargetPhyAddr)
    if !(← getSegMap).isStateReclamation then decrementFreeCount
    modifySegMap SegMap.incrementReclaimedOffset
    if isCommit = .last then pure ⟨0, written, false⟩
    else do
      let writeRes := if written.segment = noSegmentNum then 1 else 0
      let (res, cpWritten) ← findNextFreePage cpWriter writeRes
      pure ⟨res, written, cpWritten⟩

/-! ## Checkpoints -/

/-- `SEQ_CHECKPOINT_SIZE` -/
def seqCheckpointSize : Nat := sizeofObsCountersMap + 2 * 4

/-- The bytes from `&lfsr_state` on. -/
def lfsrByte (w : World) (i : Nat) : UInt8 :=
  if i < 4 then UInt8.ofNat (w.lfsrState.toNat / 2 ^ (8 * i)) else w.afterLfsr (i - 4)

/-- Byte `i` of a checkpoint of more than one page: the data of the upper layer, the memory
of the counters, and the memory of the random state. -/
def checkpointByte (w : World) (data : Nat → UInt8) (nBytes i : Nat) : UInt8 :=
  if i < nBytes then data i
  else if i < sizeofObsCountersMap + nBytes then w.obsCountersMap.byte (i - nBytes)
  else lfsrByte w (i - nBytes - sizeofObsCountersMap)

/-- `set_cp_page_flag` -/
def setCpPageFlag (cpPageIdx cpPageIdxMax : Nat) : CpLocation :=
  if cpPageIdx = 0 then .first else if cpPageIdx = cpPageIdxMax then .last else .middle

/-- Page `cpPageIdx` of a checkpoint of more than one page. -/
def checkpointPage (w : World) (data : Nat → UInt8) (nBytes cpPageIdx : Nat) : Page where
  main := fun j =>
    if cpPageIdx * pageSize + j.val < seqCheckpointSize + nBytes then
      checkpointByte w data nBytes (cpPageIdx * pageSize + j.val)
    else 0xff
  flags := { initFlags with
    checkpoint := setCpPageFlag cpPageIdx (calculateInPages (seqCheckpointSize + nBytes) - 1) }

/-- The page of a checkpoint that fits in one: the data of the upper layer and the counters. -/
def singleCheckpointPage (w : World) (data : Nat → UInt8) (nBytes : Nat) : Page where
  main := fun j =>
    if j.val < nBytes then data j.val
    else if j.val < nBytes + sizeofObsCountersMap then w.obsCountersMap.byte (j.val - nBytes)
    else 0xff
  flags := { initFlags with checkpoint := .first }

/-- The loop of `commit` over the pages of a checkpoint, from `cpPageIdx` on. -/
def commitPages (cpWriter : CheckpointWriter) (data : Nat → UInt8) (nBytes : Nat)
    (isPartOfHeader : Bool) : Nat → Nat → SeqM Nat
  | 0, _ => pure 0
  | n + 1, cpPageIdx => do
    if !isPartOfHeader then incrementFreeCount
    let page := checkpointPage (← get) data nBytes cpPageIdx
    if isPartOfHeader then do
      let logAddr ← writeBlock page (← calcTargetPhyAddr)
      if logAddr.segment = noSegmentNum then pure 1
      else do
        modifySegMap SegMap.incrementReclaimedOffset
        commitPages cpWriter data nBytes isPartOfHeader n (cpPageIdx + 1)
    else do
      let res ← allocAndWriteBlock LogAddr.empty page false LogAddr.empty cpWriter
        (if n = 0 then .last else .regular)
      if res.err ≠ 0 then pure 1
      else if res.cpWritten then pure 0
      else commitPages cpWriter data nBytes isPartOfHeader n (cpPageIdx + 1)

/-- `commit`, where `cpWriter` is the checkpoint writer of the layer above. -/
def commit (cpWriter : CheckpointWriter) (data : Nat → UInt8) (nBytes : Nat)
    (isPartOfHeader : Bool) : SeqM Nat := do
  if pageSize ≤ seqCheckpointSize + nBytes then
    commitPages cpWriter data nBytes isPartOfHeader
      (calculateInPages (seqCheckpointSize + nBytes)) 0
  else do
    if !isPartOfHeader then incrementFreeCount
    let page := singleCheckpointPage (← get) data nBytes
    if isPartOfHeader then do
      let _ ← writeBlock page (← calcTargetPhyAddr)
      modifySegMap SegMap.incrementReclaimedOffset
      pure 0
    else do
      let res ← allocAndWriteBlock LogAddr.empty page false LogAddr.empty cpWriter .last
      pure (if res.err ≠ 0 then 1 else 0)

/-- The checkpoint writer of a layer above whose checkpoint data is `data`.  As part of a
header it writes page by page and calls no writer in turn. -/
def checkpointWriter (data : Nat → UInt8) (nBytes : Nat) : CheckpointWriter
  | true => commit (fun _ => pure 0) data nBytes true
  | false => commit (fun _ => commit (fun _ => pure 0) data nBytes true) data nBytes false

end NandFs
