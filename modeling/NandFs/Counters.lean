import NandFs.State

/-! # The random generator and the obsolete counters

`lfsr.c`, and the counters of `obs_counters_map`: half a byte for each segment, which says
roughly how many of its pages are obsolete, then the exact count of obsolete pages and that
of free pages, in four bytes each.  The checkpoint and `is_flash_full` see the object as
bytes of memory.
-/
namespace NandFs

variable [Config]

/-! ## The random generator -/

/-- `TACT_LFSR` -/
def tactLfsr (state : UInt32) : UInt32 :=
  (state >>> 1) ^^^ (if state &&& 1 = 1 then 0x80200003 else 0)

/-- The state after `n` shifts. -/
def tactLfsrTimes : Nat → UInt32 → UInt32
  | 0, state => state
  | n + 1, state => tactLfsrTimes n (tactLfsr state)

/-- `gen_rand_bit` -/
def genRandBit (neededProb : Nat) : SeqM Bool := do
  let state := (← get).lfsrState
  modify fun w => { w with lfsrState := tactLfsrTimes neededProb state }
  return state.toNat % 2 ^ neededProb == 0

/-- `get_random_num` -/
def getRandomNum (bitsNum : Nat) : SeqM Nat := do
  let state := (← get).lfsrState
  let _ ← genRandBit bitsNum
  return state.toNat % 2 ^ bitsNum

/-! ## The counts, and the object as bytes -/

def modifyObsCounters (f : ObsCounters → ObsCounters) : SeqM Unit :=
  modify fun w => { w with obsCountersMap := f w.obsCountersMap }

/-- Add `d`, modulo `2^32`, to the count of obsolete pages. -/
def addObsCount (d : Nat) : SeqM Unit :=
  modifyObsCounters fun c => { c with counter := (c.counter + d) % 2 ^ 32 }

/-- Add `d`, modulo `2^32`, to the count of free pages. -/
def addFreeCount (d : Nat) : SeqM Unit :=
  modifyObsCounters fun c => { c with freeCounter := (c.freeCounter + d) % 2 ^ 32 }

/-- `INCREASE_OBS_COUNT` -/
def increaseObsCount : SeqM Unit := addObsCount 1

/-- `DECREMENT_OBS_COUNT` -/
def decrementObsCount : SeqM Unit := addObsCount (2 ^ 32 - 1)

/-- `INCREMENT_FREE_COUNT` -/
def incrementFreeCount : SeqM Unit := addFreeCount 1

/-- `DECREMENT_FREE_COUNT` -/
def decrementFreeCount : SeqM Unit := addFreeCount (2 ^ 32 - 1)

/-- `SET_OBS_COUNT` -/
def setObsCount (val : Nat) : SeqM Unit :=
  modifyObsCounters fun c => { c with counter := val % 2 ^ 32 }

/-- `SET_FREE_COUNTER` -/
def setFreeCounter (num : Nat) : SeqM Unit :=
  modifyObsCounters fun c => { c with freeCounter := num % 2 ^ 32 }

/-- Byte `i` of a 32-bit value, the lowest first. -/
def uint32Byte (val i : Nat) : UInt8 := UInt8.ofNat (val / 2 ^ (8 * i))

/-- The 32-bit value of the four bytes from `i`. -/
def getUint32 (mem : Nat → UInt8) (i : Nat) : Nat :=
  (mem i).toNat + (mem (i + 1)).toNat * 2 ^ 8 + (mem (i + 2)).toNat * 2 ^ 16
    + (mem (i + 3)).toNat * 2 ^ 24

/-- `SEQ_OBS_COUNTERS_ARRAY_SIZE` -/
def obsCountersArraySize : Nat := nSlots / 2

/-- `sizeof(obs_counters_map)` -/
def sizeofObsCountersMap : Nat := obsCountersArraySize + 8

namespace ObsCounters

/-- Byte `i` of the memory from the start of the object. -/
def byte (c : ObsCounters) (i : Nat) : UInt8 :=
  if i < obsCountersArraySize then c.counters i
  else if i < obsCountersArraySize + 4 then uint32Byte c.counter (i - obsCountersArraySize)
  else if i < sizeofObsCountersMap then
    uint32Byte c.freeCounter (i - (obsCountersArraySize + 4))
  else c.beyond (i - sizeofObsCountersMap)

/-- The object, and what follows it, with the bytes `mem`. -/
def ofBytes (mem : Nat → UInt8) : ObsCounters where
  counters := mem
  counter := getUint32 mem obsCountersArraySize
  freeCounter := getUint32 mem (obsCountersArraySize + 4)
  beyond := fun i => mem (sizeofObsCountersMap + i)

end ObsCounters

/-! ## The levels of the segments -/

/-- `OBS_COUNT_NO_OBSOLETES` -/
def obsCountNoObsoletes : UInt8 := 0x0

/-- `OBS_COUNT_LEVEL_0` -/
def obsCountLevel0 : UInt8 := 0x1

/-- `OBS_COUNT_LEVEL_7` -/
def obsCountLevel7 : UInt8 := 0x8

/-- `OBS_COUNT_FULL` -/
def obsCountFull : UInt8 := 0x9

/-- `get_counter_level` -/
def getCounterLevel (c : ObsCounters) (segId : Nat) : UInt8 :=
  if segId % 2 = 0 then c.counters (segId / 2) &&& (0x0f : UInt8)
  else (c.counters (segId / 2) &&& (0xf0 : UInt8)) >>> (4 : UInt8)

/-- `change_counter_level` -/
def changeCounterLevel (level : UInt8) (segId : Nat) : SeqM Unit :=
  modifyObsCounters fun c => { c with
    counters := Function.update c.counters (segId / 2)
      (if segId % 2 = 0 then (c.counters (segId / 2) &&& (0xf0 : UInt8)) ||| level
       else (c.counters (segId / 2) &&& (0x0f : UInt8)) ||| (level <<< (4 : UInt8))) }

/-- `increment_counter` -/
def incrementCounter (segId : Nat) : SeqM Unit := do
  let level := getCounterLevel (← get).obsCountersMap segId
  if level = obsCountLevel7 then pure ()
  else changeCounterLevel (level + 1) segId

/-- `is_flash_full`.  The source tests the byte `counters[i]`, not the half byte of the
segment. -/
def isFlashFull (c : ObsCounters) : Bool :=
  (List.range segmentsCount).all fun i => c.byte i == obsCountFull

/-- The search of `findSegmentToReclaim`, from the highest level down. -/
def segmentToReclaim (c : ObsCounters) (reclaimedSegment : Nat) : Option Nat :=
  [8, 7, 6, 5, 4, 3, 2, 1].findSome? fun obsLevel =>
    (List.range segmentsCount).find? fun i =>
      decide (obsLevel ≤ getCounterLevel c i) && i != reclaimedSegment &&
        getCounterLevel c i != obsCountFull

/-- `findSegmentToReclaim` -/
def findSegmentToReclaim : SeqM Nat := do
  let w ← get
  match segmentToReclaim w.obsCountersMap w.segMap.reclaimed.segment with
  | some i => do
    modifySegMap fun m => (m.setReclaimedSegment i).setReclaimedOffset 0
    pure 0
  | none => pure 1

end NandFs
