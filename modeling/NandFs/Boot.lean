import NandFs.Checkpoint

/-! # Booting

`sequencingBooting` rebuilds the globals from the chip: the reserve slots by their headers,
a copy-back to finish, the slots of the data segments with the current one among them, the
last page written, and the last checkpoint, after which everything is erased.  On an erased
chip it writes the reserve headers and opens the first segment.
-/
namespace NandFs

variable [Config]

open Config

/-! ## Initial values -/

/-- `init_seg_map`: all bits set, but for the two fields it clears. -/
def initSegMap : SegMap where
  segToSlot := fun _ => noSlot
  reclaimed := LogAddr.empty
  previouslyWrittenSegment := 0xffffffff
  reserveEuAddr := phyAddressEmpty
  nSegments := 0
  isEuReserve := false
  newSlotId := 0xffffffff
  sequenceNum := 0xffffffffffffffff

/-- `init_obs_counters`: the levels and the two counts to zero. -/
def initObsCounters (c : ObsCounters) : ObsCounters :=
  { c with counters := fun _ => 0, counter := 0, freeCounter := 0 }

/-! ## Headers -/

/-- `GET_HEADER_SEQUENCE_NUM` -/
def getHeaderSequenceNum (b : Block) : Nat :=
  (List.range 8).foldl (fun n i => n + (b.byte i).toNat * 2 ^ (8 * i)) 0

/-- `GET_HEADER_SEGMENT_ID` -/
def getHeaderSegmentId (b : Block) : Nat := (b.byte 8).toNat + (b.byte 9).toNat * 2 ^ 8

/-- The loop of `writeReserveSegmentHeader`, over the erase units from `phyAddr` on. -/
def writeReserveHeaderLoop (page : Page) : Nat → Nat → SeqM Nat
  | 0, _ => throw .abort
  | n + 1, phyAddr => do
    if (← nandProgramTotalPage page phyAddr) ≠ 0 then do
      markEuAsBad phyAddr
      writeReserveHeaderLoop page n (phyAddr + pagesPerEu)
    else pure 0

/-- `writeReserveSegmentHeader` -/
def writeReserveSegmentHeader (phyAddr : Nat) : SeqM Nat := do
  modifySegMap SegMap.incrementSequenceNum
  let m ← getSegMap
  writeReserveHeaderLoop
    ⟨headerBlock m.sequenceNum (getSlot phyAddr),
      { initFlags with segType := .reserve }.setSlotEuOffset reserveEuIsHeader⟩
    (2 ^ euBits + 1) phyAddr

/-- `countSegments` -/
def SegMap.countSegments (m : SegMap) (isReserve : Bool) : Nat :=
  (if isReserve then reserveSegments else List.range segmentsCount).countP fun i =>
    m.segToSlot i != noSlot

/-- `handleReservesAreEmpty`: write the headers of the reserve segments that have none. -/
def handleReservesAreEmpty : List Nat → SeqM Nat
  | [] => pure 0
  | i :: is => do
    if (← getSegMap).segToSlot i ≠ noSlot then handleReservesAreEmpty is
    else do
      let firstValidEu ← getValidEuAddrInLocation i 1
      seqVerify (writeReserveSegmentHeader firstValidEu) do
        modifySegMap fun m => m.setSlotForSeg (getSlot firstValidEu) i
        handleReservesAreEmpty is

/-- What the scan of `handleReserveSegments` found twice: the segment and its second slot. -/
structure Doubly where
  segment : Nat
  secondSlot : Nat

/-- The scan of `handleReserveSegments`.  A header whose segment has a slot already is the
second copy of one being moved. -/
def scanReserveSlots : List Nat → Doubly → SeqM (Nat × Doubly)
  | [], found => pure (0, found)
  | slotId :: slots, found => do
    let firstValidEu ← getValidEuAddrInLocation slotId 1
    if firstValidEu = phyAddressEmpty then scanReserveSlots slots found
    else
      match ← nandReadPageTotal firstValidEu with
      | none => do
        if (← nandErase firstValidEu) ≠ 0 then pure (1, found) else scanReserveSlots slots found
      | some page =>
        match page.flags.segType with
        | .notUsed => do
          let _ ← nandErase firstValidEu
          scanReserveSlots slots found
        | .used => scanReserveSlots slots found
        | .reserve => do
          let segId := getHeaderSegmentId page.main
          if (← getSegMap).segToSlot segId ≠ noSlot then scanReserveSlots slots ⟨segId, slotId⟩
          else do
            -- the macro takes the slot first: slot and segment are exchanged here
            modifySegMap fun m => m.setSlotForSeg segId slotId
            scanReserveSlots slots found

/-- `handleReserveSegments` -/
def handleReserveSegments : SeqM (Nat × Doubly) := do
  let (res, found) ← scanReserveSlots (List.range nSlots) ⟨noSegmentNum, noSlot⟩
  if res ≠ 0 then pure (res, found)
  else if (← getSegMap).countSegments true < kReserveSlots then
    return (← seqVerify (handleReservesAreEmpty reserveSegments) (pure 0), found)
  else pure (0, found)

/-! ## The last page written -/

/-- The loop of `findLastValidPageInEU`. -/
def lastValidPageInEuLoop : Nat → Nat → Nat → SeqM (Nat × Nat)
  | 0, start, last => pure (start, last)
  | n + 1, start, last => do
    let mid := (start + last) / 2
    match ← nandReadPageTotal mid with
    | none => lastValidPageInEuLoop n start (mid - 1)
    | some page =>
      if isPageUsed page.flags then lastValidPageInEuLoop n mid last
      else lastValidPageInEuLoop n start mid

/-- `findLastValidPageInEU` -/
def findLastValidPageInEU (euStartAddr : Nat) : SeqM Nat := do
  let (start, last) ←
    lastValidPageInEuLoop powPagesPerEu euStartAddr (euStartAddr + maxEuOffset)
  match ← nandReadPageTotal last with
  | none => pure start
  | some page => pure (if isPageUsed page.flags then last else start)

/-- An erase unit, or the one that replaces it if it is bad. -/
def validOrReserveEu (euPhyAddr : Nat) : SeqM Nat := do
  if ← nandCheckEuStatus euPhyAddr then pure euPhyAddr
  else logicalAddressToReservePhysical euPhyAddr

/-- `isUsedEU`: the erase unit or its replacement, if it is used. -/
def isUsedEU (euPhyAddr : Nat) : SeqM (Option Nat) := do
  let eu ← validOrReserveEu euPhyAddr
  if eu = phyAddressEmpty then pure none
  else
    match ← nandReadPageTotal eu with
    | none => pure none
    | some page => pure (if isPageUsed page.flags then some eu else none)

/-- The loop of `findLastValidPageInSlot`: `startEu`, `endEu` and `lastUsedEu` after at most
`n` rounds. -/
def lastValidPageInSlotLoop : Nat → Nat → Nat → Nat → SeqM (Nat × Nat × Nat)
  | 0, startEu, endEu, lastUsedEu => pure (startEu, endEu, lastUsedEu)
  | n + 1, startEu, endEu, lastUsedEu =>
    if pagesPerEu < endEu - startEu then do
      let midEu := calcEuStart ((startEu + endEu) / 2)
      if ← nandCheckEuStatus midEu then
        match ← nandReadPageTotal midEu with
        | none => do
          assert (decide ((← nandErase midEu) = 0))
          lastValidPageInSlotLoop n startEu midEu lastUsedEu
        | some page =>
          if isPageUsed page.flags then lastValidPageInSlotLoop n midEu endEu midEu
          else lastValidPageInSlotLoop n startEu midEu lastUsedEu
      else do
        let reserveEu ← logicalAddressToReservePhysical midEu
        if reserveEu = phyAddressEmpty then lastValidPageInSlotLoop n startEu midEu lastUsedEu
        else lastValidPageInSlotLoop n midEu endEu reserveEu
    else pure (startEu, endEu, lastUsedEu)

/-- `findLastValidPageInSlot` -/
def findLastValidPageInSlot (slotId : Nat) : SeqM Nat := do
  let startEu := calcAddress slotId 0 0
  let (startEu, endEu, lastUsedEu) ←
    lastValidPageInSlotLoop eusPerSlot startEu (startEu + pagesPerSlot - pagesPerEu) startEu
  match ← isUsedEU endEu with
  | some eu => findLastValidPageInEU eu
  | none =>
    match ← isUsedEU startEu with
    | some eu => findLastValidPageInEU eu
    | none => findLastValidPageInEU lastUsedEu

/-! ## Slots found twice -/

/-- From `phyAddr` back to a valid erase unit, within the chip. -/
def prevValidEu : Nat → Nat → SeqM Nat
  | 0, _ => throw .abort
  | n + 1, phyAddr => do
    if ← nandCheckEuStatus phyAddr then pure phyAddr else prevValidEu n (phyAddr - pagesPerEu)

/-- The loop of `handleDoubleReserveSlot`: is the first of the slots, whose erase units are
looked at from the end, the more complete one. -/
def firstSlotIsComplete : Nat → Nat → Nat → SeqM Bool
  | 0, _, _ => throw .abort
  | n + 1, phyAddr1, phyAddr2 => do
    let phyAddr1 ← prevValidEu (2 ^ euBits) phyAddr1
    let phyAddr2 ← prevValidEu (2 ^ euBits) phyAddr2
    let isUsed1 := (← nandReadPageTotal phyAddr1).any fun page => isPageUsed page.flags
    let isUsed2 := (← nandReadPageTotal phyAddr2).any fun page => isPageUsed page.flags
    if !isUsed1 && !isUsed2 then
      firstSlotIsComplete n (phyAddr1 - pagesPerEu) (phyAddr2 - pagesPerEu)
    else if isUsed1 = isUsed2 then do
      let res1 ← getLastValidEuPage phyAddr1
      let res2 ← getLastValidEuPage phyAddr2
      pure (decide (res2 ≤ res1) || decide (res2 = phyAddressEmpty))
    else pure isUsed1

/-- `handleDoubleReserveSlot` -/
def handleDoubleReserveSlot (segId slotId1 slotId2 : Nat) : SeqM Nat := do
  if ← firstSlotIsComplete (2 ^ euBits) (calcAddress (slotId1 + 1) 0 0 - pagesPerEu)
      (calcAddress (slotId2 + 1) 0 0 - pagesPerEu) then do
    modifySegMap fun m => { m with newSlotId := slotId2 }
    seqVerify (truncateSlot slotId2 true) (pure 0)
  else do
    modifySegMap fun m => { m with newSlotId := slotId1 }
    -- slot and segment are exchanged here, too
    modifySegMap fun m => m.setSlotForSeg segId slotId2
    seqVerify (truncateSlot slotId1 true) (pure 0)

/-- In `sequencingBooting`: handle the reserve segment that was found twice, if one was. -/
def handleDoubly (found : Doubly) : SeqM Nat := do
  if found.segment ≠ noSegmentNum then
    handleDoubleReserveSlot found.segment ((← getSegMap).segToSlot found.segment) found.secondSlot
  else pure 0

/-! ## Data segments -/

/-- `verifyCompleteSegmentHeader` -/
def verifyCompleteSegmentHeader (headerPhyAddr nBytes : Nat) : SeqM Bool := do
  match ← nandReadPageTotal (headerPhyAddr + calculateInPages (seqCheckpointSize + nBytes)) with
  | none => do
    let _ ← nandErase headerPhyAddr
    pure false
  | some page =>
    if page.flags.checkpoint = .notPart then do
      let _ ← nandErase headerPhyAddr
      pure false
    else pure true

/-- In `markSegmentInSegMap`: the first slot found for a segment.  The sequence number was
cut to 32 bits. -/
def markFirstSlot (segId sequenceNum slotId : Nat) (m : SegMap) : SegMap :=
  let m := { m with nSegments := m.nSegments + 1 }.setSlotForSeg slotId segId
  if m.sequenceNum < sequenceNum ∨ m.sequenceNum = 0xffffffffffffffff then
    { m.setReclaimedSegment segId with
      sequenceNum := sequenceNum
      previouslyWrittenSegment := m.reclaimed.segment
      newSlotId := slotId }
  else m

/-- In `markSegmentInSegMap`: two slots with the same sequence number, one a copy. -/
def markCopiedSlot (segId slotId : Nat) (isSlotReserve : Bool) : SeqM Nat := do
  let oldSlot := (← getSegMap).segToSlot segId
  let lastValid1 ← findLastValidPageInSlot oldSlot
  let lastValid2 ← findLastValidPageInSlot slotId
  if calcOffsetInSlot lastValid2 < calcOffsetInSlot lastValid1 then
    seqVerify (truncateSlot slotId isSlotReserve) (pure 0)
  else do
    modifySegMap fun m => m.setSlotForSeg segId slotId
    seqVerify (truncateSlot oldSlot isSlotReserve) (pure 0)

/-- In `markSegmentInSegMap`: two slots of one segment, of different generations. -/
def markGenerations (segId slotId sequenceNum markedSequenceNum : Nat) : SeqM Nat := do
  modifySegMap fun m =>
    { m.setReclaimedSegment segId with previouslyWrittenSegment := m.reclaimed.segment }
  modifySegMap fun m =>
    if sequenceNum < markedSequenceNum then
      { m with newSlotId := m.segToSlot segId, sequenceNum := markedSequenceNum }.setSlotForSeg
        slotId segId
    else { m with newSlotId := slotId, sequenceNum := sequenceNum }
  let lastValid ← findLastValidPageInSlot (← getSegMap).newSlotId
  if calcOffsetInSlot lastValid = maxLogicalOffset then
    seqVerify (truncateSlot ((← getSegMap).segToSlot segId) false) do
      modifySegMap fun m => m.setSlotForSeg slotId segId
      pure 0
  else pure 0

/-- `markSegmentInSegMap`, for the header page read from `headerPhyAddr`. -/
def markSegmentInSegMap (header : Page) (headerPhyAddr slotId nBytes : Nat) : SeqM Nat := do
  let segId := getHeaderSegmentId header.main
  let sequenceNum := getHeaderSequenceNum header.main % 2 ^ 32
  let isSlotReserve := decide (firstReserveSegment ≤ segId)
  if !(← verifyCompleteSegmentHeader headerPhyAddr nBytes) then pure 0
  else do
    let m ← getSegMap
    if m.segToSlot segId = noSlot then do
      modifySegMap (markFirstSlot segId sequenceNum slotId)
      pure 0
    else if slotId = m.segToSlot segId then pure 0
    else do
      let res ← logicalAddressToPhysical ⟨segId % 4096, 0⟩
      assert (decide (res ≠ phyAddressEmpty))
      match ← nandReadPageTotal res with
      | none => throw .abort
      | some page =>
        if getHeaderSequenceNum page.main = sequenceNum then
          markCopiedSlot segId slotId isSlotReserve
        else markGenerations segId slotId sequenceNum (getHeaderSequenceNum page.main)

/-- The scan of `handleRegularSegments`. -/
def scanRegularSlots (nBytes : Nat) : List Nat → SeqM Nat
  | [] => pure 0
  | slotId :: slots => do
    let firstValidEu ← getValidEuAddrInLocation slotId 1
    assert (decide (firstValidEu ≠ phyAddressEmpty))
    let euAddr := calcAddress slotId 0 0
    match ← nandReadPageTotal euAddr with
    | none => pure 1
    | some first =>
      if first.flags.segType = .reserve then scanRegularSlots nBytes slots
      else do
        let phyAddr ← validOrReserveEu euAddr
        if phyAddr = phyAddressEmpty then scanRegularSlots nBytes slots
        else
          match ← nandReadPageTotal phyAddr with
          | none => do
            let _ ← nandErase phyAddr
            markEuAsBad phyAddr
            scanRegularSlots nBytes slots
          | some page =>
            if isPageUsed page.flags then
              seqVerify (markSegmentInSegMap page phyAddr slotId nBytes)
                (scanRegularSlots nBytes slots)
            else do
              let _ ← nandErase phyAddr
              scanRegularSlots nBytes slots

/-- `handleRegularSegments` -/
def handleRegularSegments (nBytes : Nat) : SeqM Nat := do
  modifySegMap fun m => { m with nSegments := 0 }
  scanRegularSlots nBytes (List.range nSlots)

/-! ## The end of the log -/

/-- In `handleFlashIsEmpty`: where the first segment header goes. -/
def firstEu : SeqM Nat := do
  if ← nandCheckEuStatus 0 then pure 0
  else do
    let eu ← allocReserveEU 0
    assert (decide (eu ≠ phyAddressEmpty))
    modifySegMap fun m => m.setReserveEu eu
    pure eu

/-- `handleFlashIsEmpty` -/
def handleFlashIsEmpty (cpWriter : CheckpointWriter) : SeqM Nat := do
  modifySegMap fun m => { m with newSlotId := 0 }.setSlotForSeg 0 0
  modifySegMap fun m => (m.setReclaimedOffset 0).setReclaimedSegment 0
  let eu ← firstEu
  seqVerify (nandErase eu) <|
  seqVerify (writeSegmentHeader cpWriter) do
    modifySegMap fun m => { m with nSegments := m.nSegments + 1 }
    pure 0

/-- `findFirstEmptySlot` -/
def SegMap.findFirstEmptySlot (m : SegMap) : Nat :=
  ((List.range segmentsCount).find? fun i => m.segToSlot i == noSlot).getD noSegmentNum

/-- `findEmptySlot` -/
def SegMap.findEmptySlot (m : SegMap) : Nat :=
  ((List.range nSlots).find? fun slot =>
    !(List.range nSlots).any fun seg => m.segToSlot seg == slot).getD phyAddressEmpty

/-- `erasePossibleNextFirstEU` -/
def erasePossibleNextFirstEU : SeqM Nat := do
  let m ← getSegMap
  if m.allSegmentsAllocated && m.isStateReclamation then pure 0
  else do
    let slotId := if m.allSegmentsAllocated then m.findEmptySlot else m.findFirstEmptySlot
    if m.allSegmentsAllocated && slotId == noSlot then pure 1
    else do
      let phyAddr := calcAddress slotId 0 0
      if ← nandCheckEuStatus phyAddr then seqVerify (nandErase phyAddr) (pure 0)
      else seqVerify (erasePossibleEUReplacement phyAddr) (pure 0)

/-- `returnToPrevSeg`.  The second assignment to the segment is to what was meant as its
offset. -/
def SegMap.returnToPrevSeg (m : SegMap) : SegMap :=
  let m := if m.isStateReclamation then m
    else { m with nSegments := (m.nSegments + (2 ^ 32 - 1)) % 2 ^ 32 }
  (m.setReclaimedSegment m.previouslyWrittenSegment).setReclaimedSegment maxLogicalOffset

/-- `handleInvalidPrograms` -/
def handleInvalidPrograms (lastValid cpPagesSize : Nat) : SeqM Nat := do
  modifySegMap SegMap.incrementReclaimedOffset
  let m ← getSegMap
  if m.isPageOffsetOverflowing then
    if m.isStateReclamation then do
      let slotId := m.reclaimedSegmentSlot
      -- the test of the result is not negated here
      if (← truncateSlot slotId false) = 0 then pure 1
      else do
        modifySegMap fun m => m.setSlotForSeg m.reclaimed.segment m.newSlotId
        modifySegMap fun m => { m with newSlotId := slotId }
        pure 0
    else seqVerify erasePossibleNextFirstEU (pure 0)
  else if calcOffsetInEu m.reclaimed.offset ≠ 0 then
    seqVerify (copyBackEU m.reclaimed) do
      if m.reclaimed.offset < cpPagesSize then
        seqVerify (nandErase lastValid) do
          modifySegMap SegMap.returnToPrevSeg
          modifySegMap fun m => { m with newSlotId := getSlot lastValid }
          pure 0
      else do
        if m.isAddressReserve lastValid then
          modifySegMap fun m => m.setReserveEu (calcEuStart lastValid)
        pure 0
  else do
    let phyAddr ← logicalAddressToPhysical m.reclaimed
    if phyAddr ≠ phyAddressEmpty then do
      if (← nandErase phyAddr) ≠ 0 then markEuAsBad phyAddr
      pure 0
    else seqVerify (erasePossibleEUReplacement phyAddr) (pure 0)

/-- `calcOriginalSlotOffset` -/
def calcOriginalSlotOffset (reserveAddr : Nat) : SeqM Nat := do
  let flags ← nandReadPageFlags reserveAddr
  return calcOffsetInSlot (extractAddrFromSlotIdAndEuOffset flags.slotEuOffset)
    + calcOffsetInEu reserveAddr

/-! ## `sequencingBooting` -/

/-- The end of `sequencingBooting`, once there is a current segment. -/
def resumeLog (data : Nat → UInt8) (nBytes : Nat) (cpWriter : CheckpointWriter) :
    SeqM (Nat × (Nat → UInt8) × Bool) := do
  let cpPagesSize := calculateInPages (nBytes + seqCheckpointSize) + 1
  let lastValid ← findLastValidPageInSlot (← getSegMap).newSlotId
  let offset ←
    if (← getSegMap).isAddressReserve lastValid then calcOriginalSlotOffset lastValid
    else pure (calcOffsetInSlot lastValid)
  modifySegMap fun m => m.setReclaimedOffset offset
  if (← handleInvalidPrograms lastValid cpPagesSize) ≠ 0 then pure (1, data, true)
  else do
    let (res, data, pending) ← findCheckpointAndTruncate data nBytes
    if res ≠ 0 then pure (1, data, pending)
    else do
      let m ← getSegMap
      if !m.isStateReclamation && decide (cpPagesSize < m.reclaimed.offset) then decrementFreeCount
      let (res, _) ← findNextFreePage cpWriter 0
      pure (if res ≠ 0 then 1 else 0, data, pending)

/-- `sequencingBooting`: its error code, the data of the layer above and whether VOTs may be
pending. -/
def sequencingBooting (data : Nat → UInt8) (nBytes : Nat) (cpWriter : CheckpointWriter) :
    SeqM (Nat × (Nat → UInt8) × Bool) := do
  let cpPagesSize := calculateInPages (nBytes + seqCheckpointSize) + 1
  modifySegMap fun _ => initSegMap
  modifyObsCounters initObsCounters
  let (res, found) ← handleReserveSegments
  if res ≠ 0 then pure (1, data, true)
  else do
    let res ← handleDoubly found
    if res ≠ 0 then pure (1, data, true)
    else do
      let (res, _) ← handleCopyBack
      if res ≠ 0 then pure (1, data, true)
      else if (← handleRegularSegments nBytes) ≠ 0 then pure (1, data, true)
      else if (← getSegMap).countSegments false = 0 then do
        setObsCount 0
        setFreeCounter (segmentsCount * (pagesPerSlot - cpPagesSize))
        return (← handleFlashIsEmpty cpWriter, data, false)
      else resumeLog data nBytes cpWriter

end NandFs
