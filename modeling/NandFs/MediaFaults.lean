import NandFs.Allocation
import NandFs.NandRules

/-! # Copies on media that fail

Reclamation copies pages with `copyValidBlock` and wear leveling with `copyPage`.  Here the page
reads and the page programs these two make may fail, in any way; every other access to the chip
is as before.  The functions over them are those of the source with the failing copies in their
place, and on media that do not fail they are what they were.
-/
namespace NandFs

open Program

variable [Config]

open Config

/-- The page reads and the page programs that fail, told apart by the state they are made in and
the address.  As in the driver, a program that fails leaves the chip as it was. -/
structure Media where
  readFails : World → Nat → Bool
  programFails : World → Nat → Bool

/-- The media under the copies of reclamation, and under those of wear leveling. -/
structure CopyMedia where
  valid : Media
  wear : Media

namespace Media
variable (d : Media)

def nandReadPageTotal (phyAddr : Nat) : SeqM (Option Page) := do
  if d.readFails (← get) phyAddr then pure none else NandFs.nandReadPageTotal phyAddr

def nandProgramTotalPage (page : Page) (phyAddr : Nat) : SeqM Nat := do
  if d.programFails (← get) phyAddr then pure 1 else NandFs.nandProgramTotalPage page phyAddr

/-! ## Reclaiming -/

/-- `writeBlock` -/
def writeBlock (data : Page) (phyAddr : Nat) : SeqM LogAddr := do
  let m ← getSegMap
  let page : Page :=
    if m.isEuReserve then
      { data with flags := { data.flags.setSlotEuOffset (calculateSlotIdAndEuOffset
          (calcAddress m.newSlotId 0 m.reclaimed.offset)) with segType := .reserve } }
    else { data with flags := { data.flags with segType := .used } }
  let phyAddr := if m.isEuReserve then m.reserveEuAddr + calcOffsetInEu phyAddr else phyAddr
  if (← d.nandProgramTotalPage page phyAddr) ≠ 0 then pure LogAddr.empty
  else pure m.reclaimed

/-- `copyValidBlock` -/
def copyValidBlock (phyAddr orgPhyAddr : Nat) : SeqM Nat := do
  let m ← getSegMap
  match ← d.nandReadPageTotal (← logicalAddressToPhysical m.reclaimed) with
  | none => pure 1
  | some page => do
    let flags := { page.flags with copied := true }.setSlotEuOffset
      (if orgPhyAddr ≠ phyAddressEmpty then calculateSlotIdAndEuOffset orgPhyAddr
        else noSlotAndEuOffset)
    let logAddr ← d.writeBlock { page with flags := flags } phyAddr
    pure (if logAddr.segment = noSegmentNum then 1 else 0)

/-- The loop of `findNextFreePage` over the pages of a segment. -/
def nextFreeInSegment (okErrorCode : Nat) : Nat → SeqM (Option Nat)
  | 0 => pure none
  | n + 1 => do
    let m ← getSegMap
    if m.isPageOffsetOverflowing then pure none
    else do
      let (res, targetPhyAddr) ← placePage
      if res ≠ 0 then pure (some res)
      else do
        let m ← getSegMap
        if !m.isStateReclamation then pure (some okErrorCode)
        else do
          let phyAddr ← logicalAddressToPhysical m.reclaimed
          if ← isPageToCopy phyAddr then do
            let orgPhyAddr := if m.isAddressReserve phyAddr then phyAddr else 0
            if (← d.copyValidBlock targetPhyAddr orgPhyAddr) ≠ 0 then pure (some 1)
            else do
              modifySegMap SegMap.incrementReclaimedOffset
              nextFreeInSegment okErrorCode n
          else pure (some okErrorCode)

/-! ## Wear leveling -/

/-- `copyPage` -/
def copyPage (toAddr fromAddr : Nat) (isToReserve : Bool) (originalToAddress : Nat)
    (isSlotReserve : Bool) : SeqM Nat := do
  match ← d.nandReadPageTotal fromAddr with
  | none => pure 1
  | some page =>
    seqVerify (d.nandProgramTotalPage (copiedPage page isToReserve originalToAddress isSlotReserve)
      toAddr)
      (pure 0)

/-- The copying loop of `performWearLeveling`: what `copyPage` returns is not looked at. -/
def copySlotLoop (newSlot randomSlot : Nat) (isSlotReserve : Bool) :
    Nat → WearState → SeqM (Option Nat)
  | 0, _ => pure none
  | n + 1, s =>
    if s.toPageOffset < pagesPerSlot ∧ s.fromPageOffset < pagesPerSlot then
      if calcOffsetInEu s.toPageOffset ≠ 0 then do
        let _ ← d.copyPage s.toPhyAddr s.fromPhyAddr s.isToReserve phyAddressEmpty isSlotReserve
        copySlotLoop newSlot randomSlot isSlotReserve n s.advance
      else do
        match ← chooseEus newSlot randomSlot isSlotReserve s with
        | .copy t => do
          let _ ← d.copyPage t.toPhyAddr t.fromPhyAddr t.isToReserve
            (calcAddress newSlot 0 s.toPageOffset) isSlotReserve
          copySlotLoop newSlot randomSlot isSlotReserve n t.advance
        | .again t => copySlotLoop newSlot randomSlot isSlotReserve n t
        | .stop res => pure (some res)
    else pure none

/-- `performWearLeveling` -/
def performWearLeveling : SeqM Nat := do
  let randomSlot ← chooseRandomSlot
  let m ← getSegMap
  let orgSeg := (m.segmentOfSlot randomSlot).getD 0
  let isSlotReserve := (m.segmentOfSlot randomSlot).any fun i => decide (firstReserveSegment ≤ i)
  let newSlot := m.newSlotId
  if ← hasEnoughEus isSlotReserve randomSlot newSlot then do
    let start : WearState := {
      fromPhyAddr := calcAddress randomSlot 0 0
      toPhyAddr := calcAddress newSlot 0 0
      fromPageOffset := 0
      toPageOffset := 0
      isToReserve := false }
    match ← d.copySlotLoop newSlot randomSlot isSlotReserve pagesPerSlot start with
    | some res => pure res
    | none =>
      seqVerify (truncateSlot randomSlot isSlotReserve) do
        modifySegMap fun m =>
          ({ m with newSlotId := randomSlot }.setSlotForSeg randomSlot newSegment).setSlotForSeg
            newSlot orgSeg
        pure 0
  else pure 0

/-- The choice of the next segment in `moveToNextSegment`. -/
def nextSegment (newSlot : Nat) : SeqM Nat := do
  modifySegMap fun m => { m with previouslyWrittenSegment := m.reclaimed.segment }
  let m ← getSegMap
  if m.allSegmentsAllocated then do
    modifySegMap fun m => { m with newSlotId := newSlot }
    if ← genRandBit powSlots then
      seqVerify d.performWearLeveling (do
        if (← findSegmentToReclaim) ≠ 0 then pure errorFlashFull else pure 0)
    else do
      if (← findSegmentToReclaim) ≠ 0 then pure errorFlashFull else pure 0
  else do
    modifySegMap fun m =>
      let m := { m with newSlotId := m.newSlotId + 1, nSegments := m.nSegments + 1 }
      let m := m.setReclaimedSegment (m.reclaimed.segment + 1)
      m.setSlotForSeg m.reclaimed.segment m.reclaimed.segment
    pure 0

/-- `moveToNextSegment` -/
def moveToNextSegment (cpWriter : CheckpointWriter) : SeqM Nat := do
  let (res, newSlot) ← finishSegment
  if res ≠ 0 then pure res
  else do
    let res ← d.nextSegment newSlot
    if res ≠ 0 then pure res else openSegment cpWriter

/-- In `findNextFreePage`: at the end of a segment, move to the next one. -/
def moveAtSegmentEnd (cpWriter : CheckpointWriter) : SeqM (Nat × Bool) := do
  if (← getSegMap).isPageOffsetOverflowing then return (← d.moveToNextSegment cpWriter, true)
  else return (0, false)

end Media

/-! ## Writing a page -/

namespace CopyMedia
variable (d : CopyMedia)

/-- `findNextFreePage`, for `n` more segments. -/
def findNextFreePageLoop (cpWriter : CheckpointWriter) (okErrorCode : Nat) :
    Nat → Bool → SeqM (Nat × Bool)
  | 0, moved => pure (errorFlashFull, moved)
  | n + 1, moved => do
    let (res, isNew) ← d.wear.moveAtSegmentEnd cpWriter
    if res ≠ 0 then pure (res, moved)
    else do
      let moved := moved || isNew
      match ← d.valid.nextFreeInSegment okErrorCode pagesPerSlot with
      | some res => pure (res, moved)
      | none => do
        if moved then changeCounterLevel obsCountFull (← getSegMap).reclaimed.segment
        findNextFreePageLoop cpWriter okErrorCode n moved

/-- `findNextFreePage` -/
def findNextFreePage (cpWriter : CheckpointWriter) (okErrorCode : Nat) : SeqM (Nat × Bool) :=
  d.findNextFreePageLoop cpWriter okErrorCode segmentsCount false

/-- `allocAndWriteBlock`.  The block itself is written by `writeBlock` on the chip as it is. -/
def allocAndWriteBlock (logAddr : LogAddr) (data : Page) (onlyVOTs : Bool) (prev : LogAddr)
    (cpWriter : CheckpointWriter) (isCommit : IsCommit) : SeqM AllocResult := do
  let w ← get
  if isFlashFull w.obsCountersMap then pure ⟨errorFlashFull, logAddr, false⟩
  else if w.segMap.isEuReserve ∧ w.segMap.reserveEuAddr = phyAddressEmpty then
    pure ⟨errorNoReserveEu, logAddr, false⟩
  else do
    let flags := if isCommit = .not then initFlags else data.flags
    let flags := { flags with vots := flags.vots || onlyVOTs, prev := prev }
    let written ← NandFs.writeBlock { data with flags := flags } (← calcTargetPhyAddr)
    if !(← getSegMap).isStateReclamation then decrementFreeCount
    modifySegMap SegMap.incrementReclaimedOffset
    if isCommit = .last then pure ⟨0, written, false⟩
    else do
      let writeRes := if written.segment = noSegmentNum then 1 else 0
      let (res, cpWritten) ← d.findNextFreePage cpWriter writeRes
      pure ⟨res, written, cpWritten⟩

/-- The loop of `commit` over the pages of a checkpoint that is not part of a header. -/
def commitPages (cpWriter : CheckpointWriter) (data : Nat → UInt8) (nBytes : Nat) :
    Nat → Nat → SeqM Nat
  | 0, _ => pure 0
  | n + 1, cpPageIdx => do
    incrementFreeCount
    let page := checkpointPage (← get) data nBytes cpPageIdx
    let res ← d.allocAndWriteBlock LogAddr.empty page false LogAddr.empty cpWriter
      (if n = 0 then .last else .regular)
    if res.err ≠ 0 then pure 1
    else if res.cpWritten then pure 0
    else commitPages cpWriter data nBytes n (cpPageIdx + 1)

/-- `commit` of a checkpoint that is not part of a header: one that is copies nothing. -/
def commit (cpWriter : CheckpointWriter) (data : Nat → UInt8) (nBytes : Nat) : SeqM Nat := do
  if pageSize ≤ seqCheckpointSize + nBytes then
    d.commitPages cpWriter data nBytes (calculateInPages (seqCheckpointSize + nBytes)) 0
  else NandFs.commit cpWriter data nBytes false

end CopyMedia

/-! ## Media that do not fail -/

/-- No read and no program fails. -/
structure Media.Sound (d : Media) : Prop where
  read : ∀ w a, d.readFails w a = false
  program : ∀ w a, d.programFails w a = false

/-- The media of the driver. -/
def Media.reliable : Media := ⟨fun _ _ => false, fun _ _ => false⟩

theorem Media.sound_reliable : Media.reliable.Sound := ⟨fun _ _ => rfl, fun _ _ => rfl⟩

namespace Media.Sound
variable {d : Media} (h : d.Sound)
include h

theorem nandReadPageTotal_eq (a : Nat) : d.nandReadPageTotal a = NandFs.nandReadPageTotal a := by
  funext w
  unfold Media.nandReadPageTotal
  rw [bind_ok (show (get : SeqM World) w = .ok w w from rfl), h.read, if_neg Bool.false_ne_true]

theorem nandProgramTotalPage_eq (page : Page) (a : Nat) :
    d.nandProgramTotalPage page a = NandFs.nandProgramTotalPage page a := by
  funext w
  unfold Media.nandProgramTotalPage
  rw [bind_ok (show (get : SeqM World) w = .ok w w from rfl), h.program,
    if_neg Bool.false_ne_true]

theorem copyPage_eq : d.copyPage = NandFs.copyPage := by
  funext a b x y z
  unfold Media.copyPage
  simp only [h.nandReadPageTotal_eq, h.nandProgramTotalPage_eq]
  rfl

theorem copySlotLoop_eq : d.copySlotLoop = NandFs.copySlotLoop := by
  funext newSlot slot isSlotReserve n s
  induction n generalizing s with
  | zero => rfl
  | succ n ih =>
    unfold Media.copySlotLoop
    simp only [h.copyPage_eq, ih]
    rfl

theorem performWearLeveling_eq : d.performWearLeveling = NandFs.performWearLeveling := by
  unfold Media.performWearLeveling
  simp only [h.copySlotLoop_eq]
  rfl

/-- If the copies of wear leveling do not fail, a segment change is what it was. -/
theorem moveAtSegmentEnd_eq : d.moveAtSegmentEnd = NandFs.moveAtSegmentEnd := by
  funext cpWriter
  unfold Media.moveAtSegmentEnd NandFs.moveAtSegmentEnd Media.moveToNextSegment
    NandFs.moveToNextSegment Media.nextSegment NandFs.nextSegment
  simp only [h.performWearLeveling_eq]

theorem writeBlock_eq : d.writeBlock = NandFs.writeBlock := by
  funext data a
  unfold Media.writeBlock NandFs.writeBlock
  simp only [h.nandProgramTotalPage_eq]

theorem copyValidBlock_eq : d.copyValidBlock = NandFs.copyValidBlock := by
  funext a org
  unfold Media.copyValidBlock
  simp only [h.nandReadPageTotal_eq, h.writeBlock_eq]
  rfl

theorem nextFreeInSegment_eq : d.nextFreeInSegment = NandFs.nextFreeInSegment := by
  funext okErrorCode n
  induction n with
  | zero => rfl
  | succ n ih =>
    unfold Media.nextFreeInSegment NandFs.nextFreeInSegment
    simp only [h.copyValidBlock_eq, ih]

end Media.Sound

/-- No copy fails. -/
structure CopyMedia.Sound (d : CopyMedia) : Prop where
  valid : d.valid.Sound
  wear : d.wear.Sound

/-- The media of the driver. -/
def CopyMedia.reliable : CopyMedia := ⟨.reliable, .reliable⟩

theorem CopyMedia.sound_reliable : CopyMedia.reliable.Sound :=
  ⟨Media.sound_reliable, Media.sound_reliable⟩

namespace CopyMedia.Sound
variable {d : CopyMedia} (h : d.Sound)
include h

theorem findNextFreePageLoop_eq : d.findNextFreePageLoop = NandFs.findNextFreePageLoop := by
  funext cpWriter okErrorCode n moved
  induction n generalizing moved with
  | zero => rfl
  | succ n ih =>
    unfold CopyMedia.findNextFreePageLoop
    simp only [h.wear.moveAtSegmentEnd_eq, h.valid.nextFreeInSegment_eq, ih]
    rfl

theorem findNextFreePage_eq : d.findNextFreePage = NandFs.findNextFreePage := by
  funext cpWriter okErrorCode
  unfold CopyMedia.findNextFreePage NandFs.findNextFreePage
  rw [h.findNextFreePageLoop_eq]

theorem allocAndWriteBlock_eq : d.allocAndWriteBlock = NandFs.allocAndWriteBlock := by
  funext logAddr data onlyVOTs prev cpWriter isCommit
  unfold CopyMedia.allocAndWriteBlock NandFs.allocAndWriteBlock
  simp only [h.findNextFreePage_eq]

theorem commitPages_eq (cpWriter : CheckpointWriter) (data : Nat → UInt8) (nBytes n idx : Nat) :
    d.commitPages cpWriter data nBytes n idx =
      NandFs.commitPages cpWriter data nBytes false n idx := by
  induction n generalizing idx with
  | zero => rfl
  | succ n ih =>
    unfold CopyMedia.commitPages NandFs.commitPages
    simp only [h.allocAndWriteBlock_eq, ih]
    rfl

theorem commit_eq (cpWriter : CheckpointWriter) (data : Nat → UInt8) (nBytes : Nat) :
    d.commit cpWriter data nBytes = NandFs.commit cpWriter data nBytes false := by
  unfold CopyMedia.commit
  rw [h.commitPages_eq]
  by_cases hsize : pageSize ≤ seqCheckpointSize + nBytes
  · rw [if_pos hsize, NandFs.commit, if_pos hsize]
  · rw [if_neg hsize]

end CopyMedia.Sound

/-! ## A copy that fails -/

section Fails
variable (d : Media) {s : World}

/-- A read either returns no page, and nothing changes, or is one of the driver. -/
theorem Media.nandReadPageTotal_cases (a : Nat) :
    d.nandReadPageTotal a s = .ok none s ∨
      d.nandReadPageTotal a s = NandFs.nandReadPageTotal a s := by
  unfold Media.nandReadPageTotal
  rw [bind_ok (show (get : SeqM World) s = .ok s s from rfl)]
  cases d.readFails s a with
  | true => exact .inl rfl
  | false => exact .inr rfl

/-- A block either is not written, and nothing changes, or is written as on the chip. -/
theorem Media.writeBlock_cases (data : Page) (a : Nat) :
    d.writeBlock data a s = .ok LogAddr.empty s ∨
      d.writeBlock data a s = NandFs.writeBlock data a s := by
  unfold Media.writeBlock NandFs.writeBlock Media.nandProgramTotalPage
  simp only [bind_assoc]
  rw [bind_ok (show getSegMap s = .ok s.segMap s from rfl),
    bind_ok (show getSegMap s = .ok s.segMap s from rfl),
    bind_ok (show (get : SeqM World) s = .ok s s from rfl)]
  cases d.programFails s _ with
  | true => exact .inl rfl
  | false => exact .inr rfl

/-- `copyValidBlock` either returns 1, and nothing changes, or copies as on the chip. -/
theorem Media.copyValidBlock_cases {phyAddr org a : Nat}
    (hrun : logicalAddressToPhysical s.segMap.reclaimed s = .ok a s) (hlt : a < pageCount) :
    d.copyValidBlock phyAddr org s = .ok 1 s ∨
      d.copyValidBlock phyAddr org s = NandFs.copyValidBlock phyAddr org s := by
  unfold Media.copyValidBlock NandFs.copyValidBlock
  rw [bind_ok (show getSegMap s = .ok s.segMap s from rfl), bind_ok hrun,
    bind_ok (show getSegMap s = .ok s.segMap s from rfl), bind_ok hrun]
  rcases d.nandReadPageTotal_cases (s := s) a with hread | hread
  · rw [bind_ok hread]
    exact .inl rfl
  · have hpage : NandFs.nandReadPageTotal a s = .ok (some (s.flash.page a)) s :=
      nandReadPageTotal_run hlt
    rw [bind_ok (hread.trans hpage), bind_ok hpage]
    refine (d.writeBlock_cases _ phyAddr).imp (fun hwrite => ?_) fun hwrite => bind_run_congr hwrite
    exact bind_ok hwrite

end Fails

end NandFs
