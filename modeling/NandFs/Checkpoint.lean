import NandFs.Allocation

/-! # Finding and reading checkpoints

The reading side of `commit`: `findCheckpointInSegment` goes back from a page to the last
page of a checkpoint, and `readCheckpointToMemory` copies it byte by byte to the memory of
the layer above and of the counters.
-/
namespace NandFs

variable [Config]

/-- `IS_CHECKPOINT_MORE_THAN_ONE_PAGE` -/
def isCheckpointMoreThanOnePage (fsLayerCpSize : Nat) : Bool :=
  decide (pageSize < 1 + seqCheckpointSize + fsLayerCpSize)

/-- `findCheckpointInSegment`, from `offset` of `segment` back: the offset of the last page
of a checkpoint, `none` if there is none. -/
def findCheckpointInSegment (segment : Nat) (cpMoreThanOnePage : Bool) : Nat → SeqM (Option Nat)
  | 0 => pure none
  | offset + 1 => do
    let phyAddr ← logicalAddressToPhysical ⟨segment, offset + 1⟩
    assert (decide (phyAddr ≠ phyAddressEmpty))
    let flags ← nandReadPageFlags phyAddr
    if flags.checkpoint = (if cpMoreThanOnePage then .last else .first) then do
      if (← getSegMap).isAddressReserve phyAddr then
        modifySegMap fun m => m.setReserveEu (calcEuStart phyAddr)
      pure (some (offset + 1))
    else findCheckpointInSegment segment cpMoreThanOnePage offset

/-- `findCheckpointStart`: from a page of a checkpoint back to its first page. -/
def findCheckpointStart (segment : Nat) : Nat → SeqM Nat
  | 0 => pure 0
  | offset + 1 => do
    let flags ← nandReadPageFlags (← logicalAddressToPhysical ⟨segment, offset + 1⟩)
    if flags.checkpoint = .first then pure (offset + 1)
    else findCheckpointStart segment offset

/-- The bytes of one page copied by `readCheckpointToMemory`: those of the checkpoint from
`i` on, to the data of the layer above. -/
def readToData (data : Nat → UInt8) (page : Page) (nBytes i : Nat) : Nat → UInt8 := fun k =>
  if i ≤ k ∧ k < i + pageSize ∧ k < nBytes then page.main.byte (k - i) else data k

/-- The bytes of the same page that go to `obs_counters_map` and, where the checkpoint is
longer than that object, to the memory after it. -/
def readToCounters (c : ObsCounters) (page : Page) (nBytes i : Nat) : ObsCounters :=
  ObsCounters.ofBytes fun k =>
    if i ≤ k + nBytes ∧ k + nBytes < i + pageSize ∧ k < seqCheckpointSize then
      page.main.byte (k + nBytes - i)
    else c.byte k

/-- The loop of `readCheckpointToMemory`, for `n` more pages of the slot: the error code, the
data of the layer above and the flags of the last page read.  Going past the end of the slot
fails the assert of the translation of addresses. -/
def readCheckpointLoop (nBytes : Nat) :
    Nat → Nat → (Nat → UInt8) → LogAddr → SeqM (Nat × (Nat → UInt8) × Flags)
  | 0, _, _, _ => throw .abort
  | n + 1, i, data, logAddr => do
    match ← nandReadPageTotal (← logicalAddressToPhysical logAddr) with
    | none => pure (1, data, initFlags)
    | some page =>
      if page.flags.checkpoint = .notPart then
        readCheckpointLoop nBytes n i data (logAddr.setOffset (logAddr.offset + 1))
      else do
        modifyObsCounters fun c => readToCounters c page nBytes i
        let data := readToData data page nBytes i
        if i + pageSize < seqCheckpointSize + nBytes then
          readCheckpointLoop nBytes n (i + pageSize) data (logAddr.setOffset (logAddr.offset + 1))
        else pure (0, data, page.flags)

/-- `readCheckpointToMemory`: its error code and the data of the layer above. -/
def readCheckpointToMemory (data : Nat → UInt8) (nBytes : Nat) (logAddr : LogAddr) :
    SeqM (Nat × (Nat → UInt8)) := do
  let offset ←
    if isCheckpointMoreThanOnePage nBytes then findCheckpointStart logAddr.segment logAddr.offset
    else pure logAddr.offset
  let data := fun k => if k < nBytes then 0xff else data k
  let (res, data, flags) ←
    readCheckpointLoop nBytes (pagesPerSlot + 1) 0 data { logAddr with offset := offset }
  if res ≠ 0 then pure (1, data)
  else do
    assert (flags.checkpoint == .last || !isCheckpointMoreThanOnePage nBytes)
    pure (0, data)

/-- `truncateCurrentSegment`, one erase unit after the other, `n` at most. -/
def truncateCurrentSegmentLoop : Nat → SeqM Nat
  | 0 => pure 0
  | n + 1 => do
    let m ← getSegMap
    if (← nandErase (← logicalAddressToPhysical m.reclaimed)) ≠ 0 then do
      modifySegMap fun m => (m.setReclaimedSegment noSegmentNum).setReclaimedOffset noPageOffset
      pure 1
    else if pagesPerEu ≤ m.reclaimed.offset then do
      modifySegMap fun m => m.setReclaimedOffset (m.reclaimed.offset - pagesPerEu)
      truncateCurrentSegmentLoop n
    else pure 0

/-- `truncateCurrentSegment` -/
def truncateCurrentSegment : SeqM Nat := do
  truncateCurrentSegmentLoop ((← getSegMap).reclaimed.offset / pagesPerEu + 1)

/-- The loop of `findCheckpointAndTruncate` that erases, from the erase unit of
`lastValid` back to that of the checkpoint, `n` erase units at most: the last valid address
then. -/
def eraseAfterCheckpoint (cpOffset : Nat) : Nat → LogAddr → SeqM (Nat × LogAddr)
  | 0, lastValid => pure (0, lastValid)
  | n + 1, lastValid =>
    if calcEuStart lastValid.offset = calcEuStart cpOffset then pure (0, lastValid)
    else do
      if (← nandErase (← logicalAddressToPhysical lastValid)) ≠ 0 then pure (1, lastValid)
      else do
        let prev := lastValid.setOffset (lastValid.offset + (4096 - pagesPerEu))
        let prev := prev.setOffset (calcEuStart prev.offset + maxEuOffset)
        modifySegMap fun m => m.setReclaimedOffset (prev.offset + 1)
        eraseAfterCheckpoint cpOffset n prev

/-- `ERROR_NO_CP` -/
def errorNoCp : Nat := 2

/-- In `findCheckpointAndTruncate`, when the header of the current segment has no checkpoint:
truncate the segment and look in the one written before it.  `none` is the return of
`ERROR_NO_CP`. -/
def returnToPrevCheckpoint (cpMoreThanOnePage : Bool) : SeqM (Option LogAddr) := do
  let _ ← truncateCurrentSegment
  modifySegMap fun m =>
    if m.isStateReclamation then m else { m with nSegments := (m.nSegments + (2 ^ 32 - 1)) % 2 ^ 32 }
  modifySegMap fun m => { m with newSlotId := m.segToSlot m.previouslyWrittenSegment }
  modifySegMap fun m =>
    { m.setReclaimedSegment m.previouslyWrittenSegment with
      previouslyWrittenSegment := noSegmentNum }
  let m ← getSegMap
  if m.nSegments = 0 then do
    modifySegMap fun m => (m.setReclaimedOffset noPageOffset).setReclaimedSegment noSegmentNum
    pure none
  else do
    modifySegMap fun m => m.setReclaimedOffset pagesPerSlot
    let m ← getSegMap
    let found ← findCheckpointInSegment m.reclaimed.segment cpMoreThanOnePage (pagesPerSlot - 1)
    assert found.isSome
    pure (found.map fun offset => ⟨m.reclaimed.segment, offset⟩)

/-- `findCheckpointAndTruncate`: the error code, the data of the layer above and whether VOTs
may be pending. -/
def findCheckpointAndTruncate (data : Nat → UInt8) (nBytes : Nat) :
    SeqM (Nat × (Nat → UInt8) × Bool) := do
  let m ← getSegMap
  let cpMoreThanOnePage := isCheckpointMoreThanOnePage nBytes
  let cpSize := 1 + calculateInPages (seqCheckpointSize + nBytes)
  let lastValid := m.reclaimed.decOffset
  if m.reclaimed.segment = noSegmentNum then pure (errorNoCp, data, true)
  else if m.nSegments = 1 ∧ (m.reclaimed.offset + (2 ^ 32 - 1)) % 2 ^ 32 < cpSize - 1 then do
    let _ ← truncateCurrentSegment
    pure (errorNoCp, data, false)
  else do
    let found ← findCheckpointInSegment m.reclaimed.segment cpMoreThanOnePage lastValid.offset
    let cp : Option LogAddr ←
      match found with
      | some offset => pure (some ⟨m.reclaimed.segment, offset⟩)
      | none => returnToPrevCheckpoint cpMoreThanOnePage
    match cp with
    | none => pure (errorNoCp, data, true)
    | some cp => do
      let lastValid : LogAddr :=
        if found.isSome then lastValid else ⟨cp.segment, pagesPerSlot - 1⟩
      let m ← getSegMap
      let pending := !(decide (cp.offset < maxLogicalOffset ∧ cpSize - 1 < cp.offset) ||
        decide (m.nSegments = 1 ∧ cp.offset < maxLogicalOffset ∧ cp.offset = cpSize - 1))
      let (res, lastValid) ← eraseAfterCheckpoint cp.offset eusPerSlot lastValid
      if res ≠ 0 then pure (1, data, pending)
      else do
        let res ← if lastValid.offset ≠ cp.offset then copyBackEU cp else pure 0
        if res ≠ 0 then pure (1, data, pending)
        else do
          modifySegMap fun m => m.setReclaimedOffset (cp.offset + 1)
          let (res, data) ← readCheckpointToMemory data nBytes cp
          pure (if res ≠ 0 then 1 else 0, data, pending)

end NandFs
