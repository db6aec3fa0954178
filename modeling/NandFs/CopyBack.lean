import NandFs.AddressMapping

/-! # Writing and copying pages

`writeBlock` programs the page at the reclaimed address.  A copy-back clears the pages of an
erase unit after a given offset: the pages to keep are copied into the copy-back erase unit,
the original is erased, they are copied back, and the copy-back unit is erased.  After a
crash `handleCopyBack` finds the marked pages and finishes.
-/
namespace NandFs

variable [Config]

open Config

/-- `writeBlock`: the address under which the page was written, or the empty one. -/
def writeBlock (data : Page) (phyAddr : Nat) : SeqM LogAddr := do
  let m ← getSegMap
  let page : Page :=
    if m.isEuReserve then
      { data with flags := { data.flags.setSlotEuOffset (calculateSlotIdAndEuOffset
          (calcAddress m.newSlotId 0 m.reclaimed.offset)) with segType := .reserve } }
    else { data with flags := { data.flags with segType := .used } }
  let phyAddr := if m.isEuReserve then m.reserveEuAddr + calcOffsetInEu phyAddr else phyAddr
  if (← nandProgramTotalPage page phyAddr) ≠ 0 then pure LogAddr.empty
  else pure m.reclaimed

/-- The page `copyPage` programs for one that it read. -/
def copiedPage (page : Page) (isToReserve : Bool) (originalToAddress : Nat)
    (isSlotReserve : Bool) : Page :=
  if isToReserve then
    { page with flags := page.flags.setSlotEuOffset (calculateSlotIdAndEuOffset originalToAddress) }
  else if isSlotReserve then page
  else { page with flags := page.flags.setSlotEuOffset noSlotAndEuOffset }

/-- `copyPage` -/
def copyPage (toAddr fromAddr : Nat) (isToReserve : Bool) (originalToAddress : Nat)
    (isSlotReserve : Bool) : SeqM Nat := do
  match ← nandReadPageTotal fromAddr with
  | none => pure 1
  | some page =>
    seqVerify (nandProgramTotalPage (copiedPage page isToReserve originalToAddress isSlotReserve)
      toAddr)
      (pure 0)

/-- The flags `copyBackPage` programs for a page read from `fromAddr`: the mark of a
copy-back with the place its erase unit stands for, or the mark taken away, and that place
too unless the erase unit is a reserve one. -/
def copyBackFlags (flags : Flags) (fromAddr : Nat) (withCopyBackFlags : Bool) (orgFrom : Nat) :
    Flags :=
  if withCopyBackFlags then
    { flags with copyBack := true }.setSlotEuOffset
      (calculateSlotIdAndEuOffset (if orgFrom = phyAddressEmpty then fromAddr else orgFrom))
  else if orgFrom = phyAddressEmpty then
    { flags with copyBack := false }.setSlotEuOffset noSlotAndEuOffset
  else { flags with copyBack := false }

/-- `copyBackPage` -/
def copyBackPage (toAddr fromAddr : Nat) (withCopyBackFlags : Bool) (orgFrom : Nat) : SeqM Nat := do
  match ← nandReadPageTotal fromAddr with
  | none => pure 1
  | some page =>
    if isPageUsed page.flags then
      seqVerify (nandProgramTotalPage
        { page with flags := copyBackFlags page.flags fromAddr withCopyBackFlags orgFrom } toAddr)
        (pure 0)
    else pure 0

/-- The loop of `copyBackSimple` over the pages from `i` on, `n` of them. -/
def copyBackPages (toEu fromEu : Nat) (withCopyBackFlags : Bool) (orgFrom : Nat) :
    Nat → Nat → SeqM Nat
  | 0, _ => pure 0
  | n + 1, i =>
    seqVerify (copyBackPage (toEu + i) (fromEu + i) withCopyBackFlags orgFrom)
      (copyBackPages toEu fromEu withCopyBackFlags orgFrom n (i + 1))

/-- `copyBackSimple`: `orgEuPhyAddr` is the erase unit with, in its low bits, the number of
pages to keep. -/
def copyBackSimple (cbEuPhyAddr orgEuPhyAddr : Nat) (isOrgErased : Bool) (realOrgEu : Nat) :
    SeqM Nat :=
  let maxOffset := calcOffsetInEu orgEuPhyAddr
  let orgEu := calcEuStart orgEuPhyAddr
  seqVerify (if isOrgErased then pure 0
    else copyBackPages cbEuPhyAddr orgEu true realOrgEu maxOffset 0) <|
  seqVerify (nandErase orgEu) <|
  seqVerify (copyBackPages orgEu cbEuPhyAddr false realOrgEu maxOffset 0) do
    let _ ← nandErase cbEuPhyAddr
    pure 0

/-- `copyBackEU`: keep the erase unit of `orgLogAddr` up to and with that page. -/
def copyBackEU (orgLogAddr : LogAddr) : SeqM Nat := do
  let maxOffset := calcOffsetInEu orgLogAddr.offset
  let orgPhyAddr ← logicalAddressToPhysical (orgLogAddr.setOffset (calcEuStart orgLogAddr.offset))
  let cbEuStart ← getCopybackEu
  assert (decide (cbEuStart < pageCount))
  let m ← getSegMap
  let realOrgEu ←
    if m.isAddressReserve orgPhyAddr then do
      let flags ← nandReadPageFlags orgPhyAddr
      pure (calcEuStart (extractAddrFromSlotIdAndEuOffset flags.slotEuOffset))
    else pure phyAddressEmpty
  copyBackSimple cbEuStart (calcEuStart orgPhyAddr + maxOffset + 1) false realOrgEu

/-! ## Finishing after a crash -/

/-- The loop of `getLastValidEuPage`: halve `[start, last]`, `n` more times.  The middle is
taken with its offset in the erase unit masked away. -/
def lastValidEuPageLoop (euPhyAddr : Nat) : Nat → Nat → Nat → SeqM Nat
  | 0, _, last => pure last
  | n + 1, start, last => do
    let mid := calcEuStart ((start + last) / 2)
    match ← nandReadPageTotal mid with
    | none => pure (if mid = euPhyAddr then firstPhyAddressEmpty else mid - 1)
    | some page =>
      if isPageUsed page.flags then lastValidEuPageLoop euPhyAddr n mid last
      else lastValidEuPageLoop euPhyAddr n start mid

/-- `getLastValidEuPage` -/
def getLastValidEuPage (euPhyAddr : Nat) : SeqM Nat :=
  lastValidEuPageLoop euPhyAddr powPagesPerEu euPhyAddr (euPhyAddr + pagesPerEu - 1)

/-- The search of `erasePossibleEUReplacement`: erase the first of `eus` that is valid and
not used, other than `expectedCbEu`.  An erase of a bad erase unit does not make it valid. -/
def eraseFirstUnused (expectedCbEu : Nat) : List Nat → SeqM Nat
  | [] => pure 1
  | eu :: eus => do
    if eu ≠ expectedCbEu then do
      if ← nandCheckEuStatus eu then
        if isPageUsed (← nandReadPageFlags eu) then eraseFirstUnused expectedCbEu eus
        else nandErase eu
      else do
        let _ ← nandErase eu
        if ← nandCheckEuStatus eu then
          if isPageUsed (← nandReadPageFlags eu) then eraseFirstUnused expectedCbEu eus
          else nandErase eu
        else eraseFirstUnused expectedCbEu eus
    else eraseFirstUnused expectedCbEu eus

/-- `erasePossibleEUReplacement` -/
def erasePossibleEUReplacement (phyAddr : Nat) : SeqM Nat := do
  let m ← getSegMap
  let expectedCbEu ← getValidEuAddrInLocation (m.segToSlot firstReserveSegment) 1
  if expectedCbEu = phyAddressEmpty then pure 1
  else eraseFirstUnused expectedCbEu (m.reserveEus (calcEuOffset phyAddr))

/-- The first stage was not completed: erase the copy-back unit and start again. -/
def redoCopyBack (cbEuPhyAddr orgEuPhyAddr realOrgEu : Nat) (verifyErase : Bool) : SeqM Nat := do
  if (← nandErase cbEuPhyAddr) ≠ 0 then markEuAsBad cbEuPhyAddr
  let cbEu ← getCopybackEu
  seqVerify (do let res ← nandErase cbEu; pure (if verifyErase then res else 0))
    (copyBackSimple cbEu orgEuPhyAddr false realOrgEu)

/-- `handleCopyBackSpecial` -/
def handleCopyBackSpecial (orgPhyAddr cbEuPhyAddr : Nat) : SeqM Nat := do
  let reservePhyAddr ← logicalAddressToReservePhysical orgPhyAddr
  let offsetInCb := calcOffsetInEu (← getLastValidEuPage cbEuPhyAddr)
  if reservePhyAddr = phyAddressEmpty then
    seqVerify (erasePossibleEUReplacement orgPhyAddr) do
      let reserveEu ← allocReserveEU orgPhyAddr
      if reserveEu = phyAddressEmpty then pure 1
      else copyBackSimple cbEuPhyAddr (reserveEu + offsetInCb) true orgPhyAddr
  else do
    let offsetInOrg := calcOffsetInEu (← getLastValidEuPage reservePhyAddr)
    if pageCount ≤ offsetInCb ∨ offsetInCb < offsetInOrg then
      redoCopyBack cbEuPhyAddr (reservePhyAddr + offsetInOrg) orgPhyAddr false
    else copyBackSimple cbEuPhyAddr (reservePhyAddr + offsetInCb) true orgPhyAddr

/-- `handleCopyBack`: its error code and whether there was a copy-back to handle. -/
def handleCopyBack : SeqM (Nat × Bool) := do
  let cbEuPhyAddr ← getCopybackEu
  assert (decide (cbEuPhyAddr ≠ phyAddressEmpty))
  match ← nandReadPageTotal cbEuPhyAddr with
  | none => pure (1, false)
  | some page =>
    if page.flags.copyBack then do
      let orgPhyAddr := extractAddrFromSlotIdAndEuOffset page.flags.slotEuOffset
      if ← nandCheckEuStatus orgPhyAddr then do
        let offsetInOrg := calcOffsetInEu (← getLastValidEuPage orgPhyAddr)
        let offsetInCb := calcOffsetInEu (← getLastValidEuPage cbEuPhyAddr)
        if pageCount ≤ offsetInCb ∨ offsetInCb < offsetInOrg then
          return (← redoCopyBack cbEuPhyAddr (orgPhyAddr + offsetInOrg) phyAddressEmpty true, true)
        else
          return (← seqVerify (nandErase orgPhyAddr)
            (copyBackSimple cbEuPhyAddr (orgPhyAddr + offsetInCb) true phyAddressEmpty), true)
      else return (← handleCopyBackSpecial orgPhyAddr cbEuPhyAddr, true)
    else pure (0, false)

end NandFs
