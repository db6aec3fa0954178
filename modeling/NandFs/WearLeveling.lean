import NandFs.CopyBack
import NandFs.Counters

/-! # Wear leveling

`performWearLeveling` copies a slot picked at random to the free slot, erases it, and makes
it the free slot, so that slots which are seldom reclaimed change place now and then.
-/
namespace NandFs

variable [Config]

open Config

/-- The slot to move.  With the number of slots even, the second choice differs from the
free slot if the first is that slot, so the loop of the source runs once. -/
def chooseRandomSlot : SeqM Nat := do
  let m ← getSegMap
  let randomSlot ← if debug then pure (segmentsCount / 2 - 2) else getRandomNum powSlots
  pure (if randomSlot = m.newSlotId then nSlots - 1 - randomSlot else randomSlot)

/-- The segment whose slot is `slotId`, if there is one. -/
def SegMap.segmentOfSlot (m : SegMap) (slotId : Nat) : Option Nat :=
  (List.range nSlots).find? fun i => m.segToSlot i == slotId

/-- The variables of the copying loop. -/
structure WearState where
  fromPhyAddr : Nat
  toPhyAddr : Nat
  fromPageOffset : Nat
  toPageOffset : Nat
  isToReserve : Bool

/-- One page further on both sides. -/
def WearState.advance (s : WearState) : WearState :=
  { s with
    fromPhyAddr := s.fromPhyAddr + 1
    toPhyAddr := s.toPhyAddr + 1
    fromPageOffset := s.fromPageOffset + 1
    toPageOffset := s.toPageOffset + 1 }

/-- From the target erase unit to the next valid one, the offset moved by `step` for each
one passed.  The search ends within the erase units of the chip: the driver asserts on an
address beyond them. -/
def skipBadEus (step : Nat) : Nat → Nat → Nat → SeqM (Nat × Nat)
  | 0, _, _ => throw .abort
  | n + 1, toPhyAddr, toPageOffset => do
    if ← nandCheckEuStatus toPhyAddr then pure (toPhyAddr, toPageOffset)
    else skipBadEus step n (toPhyAddr + pagesPerEu) (toPageOffset + step)

/-- Is the page a reserve erase unit would be copied from unused. -/
def isSourceUnused (isSlotReserve : Bool) (fromPhyAddr : Nat) : SeqM Bool := do
  if isSlotReserve then
    match ← nandReadPageTotal fromPhyAddr with
    | none => pure false
    | some page => pure (!isPageUsed page.flags)
  else pure false

/-- What the loop does at the start of an erase unit of the target. -/
inductive WearChoice
  /-- copy a page in the given state -/
  | copy (s : WearState)
  /-- go round without copying -/
  | again (s : WearState)
  /-- return with an error code -/
  | stop (res : Nat)

/-- Where the erase unit at `fromEu` is read from. -/
def sourceEu (fromValid : Bool) (fromEu : Nat) : SeqM Nat := do
  if fromValid then pure fromEu
  else do
    let fromPhyAddr ← logicalAddressToReservePhysical fromEu
    assert (decide (fromPhyAddr ≠ phyAddressEmpty))
    pure fromPhyAddr

/-- Where the erase unit at `toPhyAddr` is written, once its source is known. -/
def chooseTarget (newSlot toPhyAddr : Nat) (isSlotReserve : Bool) (s : WearState) :
    SeqM WearChoice := do
  if ← nandCheckEuStatus toPhyAddr then
    pure (.copy { s with toPhyAddr := toPhyAddr, isToReserve := false })
  else if isSlotReserve then do
    let (toPhyAddr, toPageOffset) ←
      skipBadEus pagesPerEu (2 ^ euBits + 1) toPhyAddr s.toPageOffset
    pure (.copy { s with
      toPhyAddr := toPhyAddr, toPageOffset := toPageOffset, isToReserve := false })
  else do
    let reserveEu ← allocReserveEU toPhyAddr
    if reserveEu = phyAddressEmpty then
      pure (.stop (if (← truncateSlot newSlot isSlotReserve) ≠ 0 then 1 else 0))
    else pure (.copy { s with toPhyAddr := reserveEu, isToReserve := true })

/-- The body of the copying loop at the start of an erase unit, up to the copy of its first
page: from where and to where. -/
def chooseEus (newSlot randomSlot : Nat) (isSlotReserve : Bool) (s : WearState) :
    SeqM WearChoice := do
  let toPhyAddr := calcAddress newSlot 0 s.toPageOffset
  let fromEu := calcAddress randomSlot 0 s.fromPageOffset
  let fromValid ← nandCheckEuStatus fromEu
  if !fromValid && isSlotReserve then
    pure (.again { s with
      fromPhyAddr := fromEu
      toPhyAddr := toPhyAddr
      fromPageOffset := s.fromPageOffset + pagesPerEu })
  else do
    let fromPhyAddr ← sourceEu fromValid fromEu
    if ← isSourceUnused isSlotReserve fromPhyAddr then do
      let (toPhyAddr, toPageOffset) ← skipBadEus 1 (2 ^ euBits + 1) toPhyAddr s.toPageOffset
      pure (.again { s with
        fromPhyAddr := fromPhyAddr + pagesPerEu
        fromPageOffset := s.fromPageOffset + pagesPerEu
        toPhyAddr := toPhyAddr
        toPageOffset := toPageOffset })
    else chooseTarget newSlot toPhyAddr isSlotReserve { s with fromPhyAddr := fromPhyAddr }

/-- The copying loop: `some res` if it returned, `none` if it ran to its end.  Every round
moves the source on, so `n` rounds are enough from `pagesPerSlot - n` on. -/
def copySlotLoop (newSlot randomSlot : Nat) (isSlotReserve : Bool) :
    Nat → WearState → SeqM (Option Nat)
  | 0, _ => pure none
  | n + 1, s =>
    if s.toPageOffset < pagesPerSlot ∧ s.fromPageOffset < pagesPerSlot then
      if calcOffsetInEu s.toPageOffset ≠ 0 then do
        let _ ← copyPage s.toPhyAddr s.fromPhyAddr s.isToReserve phyAddressEmpty isSlotReserve
        copySlotLoop newSlot randomSlot isSlotReserve n s.advance
      else do
        match ← chooseEus newSlot randomSlot isSlotReserve s with
        | .copy t => do
          let _ ← copyPage t.toPhyAddr t.fromPhyAddr t.isToReserve
            (calcAddress newSlot 0 s.toPageOffset) isSlotReserve
          copySlotLoop newSlot randomSlot isSlotReserve n t.advance
        | .again t => copySlotLoop newSlot randomSlot isSlotReserve n t
        | .stop res => pure (some res)
    else pure none

/-- A reserve slot is moved only to a slot with as many valid erase units: there are no
reserves of reserves. -/
def hasEnoughEus (isSlotReserve : Bool) (randomSlot newSlot : Nat) : SeqM Bool := do
  if isSlotReserve then
    return decide ((← countValidEus randomSlot) ≤ (← countValidEus newSlot))
  else pure true

/-- `performWearLeveling` -/
def performWearLeveling : SeqM Nat := do
  let randomSlot ← chooseRandomSlot
  let m ← getSegMap
  let orgSeg := (m.segmentOfSlot randomSlot).getD 0
  let isSlotReserve := (m.segmentOfSlot randomSlot).any fun i => decide (firstReserveSegment ≤ i)
  let newSlot := m.newSlotId
  if ← hasEnoughEus isSlotReserve randomSlot newSlot then do
    let start : WearState := {
      fromPhyAddr := calcAddress randomSlot 0 0
      toPhyAddr := calcAddress newSlot 0 0
      fromPageOffset := 0
      toPageOffset := 0
      isToReserve := false }
    match ← copySlotLoop newSlot randomSlot isSlotReserve pagesPerSlot start with
    | some res => pure res
    | none =>
      seqVerify (truncateSlot randomSlot isSlotReserve) do
        modifySegMap fun m =>
          ({ m with newSlotId := randomSlot }.setSlotForSeg randomSlot newSegment).setSlotForSeg
            newSlot orgSeg
        pure 0
  else pure 0

end NandFs
