import NandFs.State
import NandFs.Program

/-! # The simulated driver

`nand.c`: reads, programs and erases of the chip.  The driver refuses to program an area
twice without an erase between (it asserts), an erase of a bad erase unit does nothing, and
no operation on a page of the chip fails.  Programs and erases are the operations between
which the power may go.
-/
namespace NandFs

variable [Config]

open Config

/-- Pages the simulation files can hold: an address from here on has no file, and `get_fp`
exits. -/
def simulatedPages : Nat := max (2 ^ (30 - powPageSize)) pageCount

/-- `get_fp` -/
def getFp (page : Nat) : SeqM Unit := assert (decide (page < simulatedPages))

def modifyFlash (f : Flash → Flash) : SeqM Unit := modify fun w => { w with flash := f w.flash }

/-- One more program or erase is about to be done. -/
def spendPower : SeqM Unit := do
  match (← get).flash.power with
  | none => pure ()
  | some 0 => throw .powerLoss
  | some (n + 1) => modifyFlash fun f => { f with power := some n }

/-- `nandReadPageTotal`: `none` is its error return. -/
def nandReadPageTotal (phyAddr : Nat) : SeqM (Option Page) := do
  getFp phyAddr
  if pageCount ≤ phyAddr then pure none
  else return some ((← get).flash.page phyAddr)

/-- `nandReadPageFlags` -/
def nandReadPageFlags (phyAddr : Nat) : SeqM Flags := do
  getFp phyAddr
  assert (decide (phyAddr < pageCount))
  return ((← get).flash.page phyAddr).flags

/-- `nandCheckEuStatus`, also `seq_check_eu_status`: is the erase unit of `phyAddr` valid. -/
def nandCheckEuStatus (phyAddr : Nat) : SeqM Bool := do
  getFp phyAddr
  assert (decide (calcEuStart phyAddr < pageCount))
  return !(← get).flash.badEu (phyAddr / pagesPerEu)

/-- The chip after a program of `page`: without `total` the last byte of the spare area, the
obsolete mark, stays as it is.  Of a bad erase unit the first two pages hold the mark, which a
program of them would overwrite; that is left to `EuStatusCache`. -/
def Flash.program (f : Flash) (page : Page) (phyAddr : Nat) (total : Bool) : Flash :=
  { f with
    page := Function.update f.page phyAddr
      { page with flags := { page.flags with
          obsolete := if total then page.flags.obsolete else (f.page phyAddr).flags.obsolete } }
    mainAreaWrites := Function.update f.mainAreaWrites phyAddr true
    spareWrites := Function.update f.spareWrites phyAddr (f.spareWrites phyAddr || total) }

/-- `nandProgramPageA` -/
def nandProgramPageA (page : Page) (phyAddr : Nat) (total : Bool) : SeqM Nat := do
  getFp phyAddr
  if pageCount ≤ phyAddr then pure 1
  else do
    assert (!(← get).flash.mainAreaWrites phyAddr)
    spendPower
    modifyFlash fun f => f.program page phyAddr total
    pure 0

/-- `nandProgramTotalPage`: the obsolete byte is programmed only if it is raised. -/
def nandProgramTotalPage (page : Page) (phyAddr : Nat) : SeqM Nat :=
  if page.flags.obsolete then seqVerify (nandProgramPageA page phyAddr true) (pure 0)
  else seqVerify (nandProgramPageA page phyAddr false) (pure 0)

/-- The chip after the obsolete byte of a page is programmed. -/
def Flash.programObsolete (f : Flash) (phyAddr : Nat) : Flash :=
  { f with
    page := Function.update f.page phyAddr
      { f.page phyAddr with flags := { (f.page phyAddr).flags with obsolete := true } }
    spareWrites := Function.update f.spareWrites phyAddr true }

/-- `nandProgramPageC(&obsolete_byte, phy_addr, OBSOLETE_BYTE_OFFSET, 1)` -/
def nandProgramObsoleteByte (phyAddr : Nat) : SeqM Nat := do
  getFp phyAddr
  if pageCount ≤ phyAddr then pure 1
  else do
    assert (!(← get).flash.spareWrites phyAddr)
    spendPower
    modifyFlash fun f => f.programObsolete phyAddr
    pure 0

/-- The chip after the erase unit that starts at `euStart` is erased. -/
def Flash.erase (f : Flash) (euStart : Nat) : Flash :=
  { f with
    page := fun a => if calcEuStart a = euStart then initBuf else f.page a
    mainAreaWrites := fun a => if calcEuStart a = euStart then false else f.mainAreaWrites a
    spareWrites := fun a => if calcEuStart a = euStart then false else f.spareWrites a }

/-- `nandErase`: an erase unit that is bad is left alone. -/
def nandErase (phyAddr : Nat) : SeqM Nat := do
  getFp phyAddr
  if pageCount ≤ phyAddr then pure 1
  else if ← nandCheckEuStatus (calcEuStart phyAddr) then do
    spendPower
    modifyFlash fun f => f.erase (calcEuStart phyAddr)
    pure 0
  else pure 0

/-- The chip after the bad-block byte of an erase unit is programmed. -/
def Flash.programBadByte (f : Flash) (euStart : Nat) : Flash :=
  { f with
    badEu := Function.update f.badEu (euStart / pagesPerEu) true
    spareWrites := Function.update f.spareWrites euStart true }

/-- `markEuAsBad` -/
def markEuAsBad (pageAddr : Nat) : SeqM Unit := do
  if ← nandCheckEuStatus pageAddr then do
    assert (!(← get).flash.spareWrites (calcEuStart pageAddr))
    spendPower
    modifyFlash fun f => f.programBadByte (calcEuStart pageAddr)
  else pure ()

end NandFs
