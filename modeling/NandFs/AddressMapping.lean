import NandFs.Nand

/-! # From logical to physical addresses

A logical address names a segment and an offset in it.  Its page is at that offset of the
slot mapped to the segment or, where the segment is being reclaimed and the offset has been
reached, of the new slot; a bad erase unit of a slot is replaced by an erase unit of one of
the reserve slots, whose first page carries the place it stands for.
-/
namespace NandFs

variable [Config]

/-- The reserve segments, in the order the searches take them. -/
def reserveSegments : List Nat := List.range' firstReserveSegment kReserveSlots

/-- The erase units of a slot, starting at `euOffset` and going round. -/
def cyclicEus (euOffset : Nat) : List Nat :=
  (List.range eusPerSlot).map fun k => (euOffset + k) % eusPerSlot

/-- The first addresses of the erase units of `slotId`. -/
def slotEus (slotId : Nat) : List Nat :=
  (List.range eusPerSlot).map fun eu => calcAddress slotId eu 0

/-- The erase units of the reserve slots, in the order in which a replacement of an erase
unit at `euOffset` of its slot is looked for. -/
def SegMap.reserveEus (m : SegMap) (euOffset : Nat) : List Nat :=
  reserveSegments.flatMap fun seg =>
    (cyclicEus euOffset).map fun eu => calcAddress (m.segToSlot seg) eu 0

/-- The first of the erase units `eus` that stands for `expected` and is not a copy-back. -/
def findReserveEu (expected : Nat) : List Nat → SeqM (Option Nat)
  | [] => pure none
  | eu :: eus => do
    if ← nandCheckEuStatus eu then do
      let flags ← nandReadPageFlags eu
      if flags.slotEuOffset = expected ∧ flags.copyBack = false then pure (some eu)
      else findReserveEu expected eus
    else findReserveEu expected eus

/-- `logicalAddressToReservePhysical` -/
def logicalAddressToReservePhysical (phyAddr : Nat) : SeqM Nat := do
  let m ← getSegMap
  match ← findReserveEu (calculateSlotIdAndEuOffset phyAddr)
      (m.reserveEus (calcEuOffset phyAddr)) with
  | some eu => pure (eu + calcOffsetInEu phyAddr)
  | none => pure phyAddressEmpty

/-- The page a logical address stands for, before bad erase units are replaced. -/
def SegMap.expectedPage (m : SegMap) (a : LogAddr) : Nat :=
  if m.isStateReclamation ∧ a.segment = m.reclaimed.segment ∧ a.offset < m.reclaimed.offset
  then calcAddress m.newSlotId 0 a.offset
  else calcAddress (m.segToSlot a.segment) 0 a.offset

/-- `logicalAddressToPhysical` -/
def logicalAddressToPhysical (a : LogAddr) : SeqM Nat := do
  let m ← getSegMap
  assert (m.segToSlot a.segment != noSlot)
  assert (decide (a.offset < pagesPerSlot))
  if ← nandCheckEuStatus (calcEuStart (m.expectedPage a)) then pure (m.expectedPage a)
  else logicalAddressToReservePhysical (m.expectedPage a)

/-- `isAddressReserve` -/
def SegMap.isAddressReserve (m : SegMap) (phyAddr : Nat) : Bool :=
  reserveSegments.any fun seg => getSlot phyAddr == m.segToSlot seg

/-- `is_page_marked_obsolete` -/
def isPageMarkedObsolete (phyAddr : Nat) : SeqM Bool := do
  return (← nandReadPageFlags phyAddr).obsolete

/-- The valid erase unit number `location`, counted from 1, of a list. -/
def nthValidEu : Nat → List Nat → SeqM Nat
  | _, [] => pure phyAddressEmpty
  | location, eu :: eus => do
    if ← nandCheckEuStatus eu then
      if location - 1 = 0 then pure eu else nthValidEu (location - 1) eus
    else nthValidEu location eus

/-- `get_valid_eu_addr_in_location` -/
def getValidEuAddrInLocation (slotId euLocation : Nat) : SeqM Nat := do
  assert (decide (slotId < nSlots))
  nthValidEu euLocation (slotEus slotId)

/-- `GET_COPYBACK_EU`, the second valid erase unit of the first reserve slot. -/
def getCopybackEu : SeqM Nat := do
  getValidEuAddrInLocation ((← getSegMap).segToSlot firstReserveSegment) 2

/-- The first of the erase units `eus` that is free, other than the copy-back one. -/
def findFreeEu (cbEu : Nat) : List Nat → SeqM (Option Nat)
  | [] => pure none
  | eu :: eus => do
    if ← nandCheckEuStatus eu then
      if cbEu ≠ eu then do
        if (← nandReadPageFlags eu).slotEuOffset = noSlotAndEuOffset then pure (some eu)
        else findFreeEu cbEu eus
      else findFreeEu cbEu eus
    else findFreeEu cbEu eus

/-- `allocReserveEU` -/
def allocReserveEU (phyAddr : Nat) : SeqM Nat := do
  let cbEu ← getCopybackEu
  assert (decide (cbEu ≠ phyAddressEmpty))
  let m ← getSegMap
  match ← findFreeEu cbEu (m.reserveEus (calcEuOffset phyAddr)) with
  | some eu => pure (eu + calcOffsetInEu phyAddr)
  | none => pure phyAddressEmpty

/-- `calc_target_phy_addr`: where the page at the reclaimed offset is to be written. -/
def calcTargetPhyAddr : SeqM Nat := do
  let m ← getSegMap
  if m.reserveEuAddr ≠ phyAddressEmpty then
    pure (m.reserveEuAddr + calcOffsetInEu m.reclaimed.offset)
  else if m.isStateReclamation then pure (calcAddress m.newSlotId 0 m.reclaimed.offset)
  else pure (calcAddress m.reclaimedSegmentSlot 0 m.reclaimed.offset)

/-- `count_valid_eus` -/
def countValidEus (slotId : Nat) : SeqM Nat := do
  let w ← get
  assert (decide (slotId < nSlots))
  return (slotEus slotId).countP fun eu => !w.flash.badEu (eu / pagesPerEu)

/-- Erase the erase units of a slot, given by their last pages: a bad one of a slot that is
not a reserve slot through the erase unit that replaces it. -/
def truncateEus (isSlotReserve : Bool) : List Nat → SeqM Nat
  | [] => pure 0
  | i :: is => do
    if ← nandCheckEuStatus i then seqVerify (nandErase i) (truncateEus isSlotReserve is)
    else if isSlotReserve then truncateEus isSlotReserve is
    else do
      let reservePhyAddr ← logicalAddressToReservePhysical i
      if reservePhyAddr ≠ phyAddressEmpty then
        seqVerify (nandErase reservePhyAddr) (truncateEus isSlotReserve is)
      else truncateEus isSlotReserve is

/-- `truncateSlot`, from the last erase unit back. -/
def truncateSlot (slotId : Nat) (isSlotReserve : Bool) : SeqM Nat :=
  if slotId < nSlots then
    truncateEus isSlotReserve ((slotEus slotId).reverse.map (· + maxEuOffset))
  else pure 0

end NandFs
