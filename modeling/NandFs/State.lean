import NandFs.Config

/-! # The state of the sequencing layer

A page of the chip is its main area and the decoded flags of its spare area (`nand.h`); the
`Flash` is the pages with the write marks of the simulated driver and the erase units marked
bad.  The `World` of a sequencing program is the chip and the globals of `globals.c` the
layer reads and writes: the segment map, the memory of the obsolete counters and the state
of the random generator.  The page buffers of the source are values passed along, since
every routine fills its buffer before it reads it.
-/
namespace NandFs

variable [Config]

/-- `logical_addr_struct`: twelve bits each for the segment and the offset in it. -/
structure LogAddr where
  segment : Nat
  offset : Nat
  deriving DecidableEq, Repr

/-- `init_logical_address`, all bits set. -/
def LogAddr.empty : LogAddr := ⟨noSegmentNum, noPageOffset⟩

/-- `SET_LOGICAL_OFFSET` -/
def LogAddr.setOffset (a : LogAddr) (offset : Nat) : LogAddr := { a with offset := offset % 4096 }

/-- `SET_LOGICAL_OFFSET` of the offset less one. -/
def LogAddr.decOffset (a : LogAddr) : LogAddr := a.setOffset (a.offset + 4095)


/-- `SET_LOGICAL_SEGMENT` -/
def LogAddr.setSegment (a : LogAddr) (segment : Nat) : LogAddr :=
  { a with segment := segment % 4096 }

/-- `CHECKPOINT_LOCATION` bits of the spare area. -/
inductive CpLocation
  | first
  | middle
  | last
  | notPart
  deriving DecidableEq, Repr

/-- `SEG_TYPE_LOCATION` bits of the spare area. -/
inductive SegType
  | reserve
  | used
  | notUsed
  deriving DecidableEq, Repr

/-- `spare_area_flags`, decoded.  A one-bit flag is raised by clearing its bit, so the
fields are all `false` in an erased page.  The bad-block byte is not among them: `Flash.badEu`
stands for its reading, and `EuStatusCache` has the byte itself. -/
structure Flags where
  prev : LogAddr
  copyBack : Bool
  checkpoint : CpLocation
  vots : Bool
  copied : Bool
  segType : SegType
  slotEuOffset : Nat
  obsolete : Bool
  deriving DecidableEq, Repr

/-- `initFlags`: every bit set. -/
def initFlags : Flags where
  prev := LogAddr.empty
  copyBack := false
  checkpoint := .notPart
  vots := false
  copied := false
  segType := .notUsed
  slotEuOffset := noSlotAndEuOffset
  obsolete := false

/-- `SET_SLOT_EU_OFFSET`, in 24 bits -/
def Flags.setSlotEuOffset (flags : Flags) (val : Nat) : Flags :=
  { flags with slotEuOffset := val % 2 ^ 24 }

/-- `IS_PAGE_USED` -/
def isPageUsed (flags : Flags) : Bool := flags.segType != .notUsed

/-- The main area of a page. -/
abbrev Block := Fin pageSize → UInt8

/-- Byte `j` of a main area. -/
def Block.byte (b : Block) (j : Nat) : UInt8 := if h : j < pageSize then b ⟨j, h⟩ else 0xff

/-- A page, or the buffer of one. -/
structure Page where
  main : Block
  flags : Flags

/-- `init_buf`, which is also what an erased page reads. -/
def initBuf : Page := ⟨fun _ => 0xff, initFlags⟩

/-- The simulated chip: its pages, the marks by which the driver refuses a second program of
an area, the erase units (by number) that are marked bad, and, when the run is to lose power,
how many more programs and erases it will do. -/
structure Flash where
  page : Nat → Page
  mainAreaWrites : Nat → Bool
  spareWrites : Nat → Bool
  badEu : Nat → Bool
  power : Option Nat

/-- `segment_map`.  The queue of erase units known to be valid, which caches readings of the
bad-block byte, is left to `EuStatusCache`: here each status is read off the chip. -/
structure SegMap where
  segToSlot : Nat → Nat
  reclaimed : LogAddr
  previouslyWrittenSegment : Nat
  reserveEuAddr : Nat
  nSegments : Nat
  isEuReserve : Bool
  newSlotId : Nat
  sequenceNum : Nat

/-- `obs_pages_per_seg_counters`: `counters` with half a byte for each segment, and two
32-bit counts.  `beyond` is the memory after the object, which the checkpoint and
`is_flash_full` reach. -/
structure ObsCounters where
  counters : Nat → UInt8
  counter : Nat
  freeCounter : Nat
  beyond : Nat → UInt8

/-- Why a program stops before its end: a failed `assert` (or the driver's `exit`), or the
power lost between two operations on the chip. -/
inductive Halt
  | abort
  | powerLoss
  deriving DecidableEq, Repr

/-- The chip and the globals.  `afterLfsr` is the memory after the four bytes of
`lfsrState`. -/
structure World where
  flash : Flash
  segMap : SegMap
  obsCountersMap : ObsCounters
  lfsrState : UInt32
  afterLfsr : Nat → UInt8

abbrev SeqM := EStateM Halt World

/-- `assert` -/
def assert (test : Bool) : SeqM Unit := if test then pure () else throw .abort

/-- `SEQ_VERIFY(!test)`: return 1 if `test` returned an error. -/
def seqVerify (test next : SeqM Nat) : SeqM Nat := do
  if (← test) ≠ 0 then pure 1 else next

def getSegMap : SeqM SegMap := do return (← get).segMap

def modifySegMap (f : SegMap → SegMap) : SeqM Unit :=
  modify fun w => { w with segMap := f w.segMap }

namespace SegMap

/-- `GET_RECLAIMED_SEGMENT_SLOT` -/
def reclaimedSegmentSlot (m : SegMap) : Nat := m.segToSlot m.reclaimed.segment

/-- `ALL_SEGMENTS_ALLOCATED` -/
def allSegmentsAllocated (m : SegMap) : Bool := m.nSegments == segmentsCount

/-- `IS_STATE_RECLAMATION` -/
def isStateReclamation (m : SegMap) : Bool :=
  m.nSegments == segmentsCount && m.newSlotId != m.reclaimedSegmentSlot

/-- `IS_SEG_MAP_PAGE_OFFSET_OVERFLOWING` -/
def isPageOffsetOverflowing (m : SegMap) : Bool :=
  decide (pagesPerSlot ≤ m.reclaimed.offset) || m.reclaimed.offset == 0

/-- `SET_SEG_MAP_SLOT_FOR_SEG`, `SET_SEGMENT_TO_SLOT` -/
def setSlotForSeg (m : SegMap) (slotId segId : Nat) : SegMap :=
  { m with segToSlot := Function.update m.segToSlot segId slotId }

/-- `SET_RECLAIMED_OFFSET` -/
def setReclaimedOffset (m : SegMap) (offset : Nat) : SegMap :=
  { m with reclaimed := m.reclaimed.setOffset offset }

/-- `SET_RECLAIMED_SEGMENT` -/
def setReclaimedSegment (m : SegMap) (segment : Nat) : SegMap :=
  { m with reclaimed := m.reclaimed.setSegment segment }

/-- `INCREMENT_RECLAIMED_OFFSET` -/
def incrementReclaimedOffset (m : SegMap) : SegMap := m.setReclaimedOffset (m.reclaimed.offset + 1)

/-- `INCREMENT_SEG_MAP_SEQUENCE_NUM`, in 64 bits -/
def incrementSequenceNum (m : SegMap) : SegMap :=
  { m with sequenceNum := (m.sequenceNum + 1) % 2 ^ 64 }

/-- `SET_SEG_MAP_IS_EU_RESERVE` and `SET_SEG_MAP_RESERVE_EU_ADDR` together, as they are set
when a reserve erase unit has been allocated. -/
def setReserveEu (m : SegMap) (reserveEuAddr : Nat) : SegMap :=
  { m with isEuReserve := true, reserveEuAddr := reserveEuAddr }

end SegMap

end NandFs
