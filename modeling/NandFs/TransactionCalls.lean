import NandFs.OpenTables

/-! # Creating and removing files

`createNewFile` and `removeFile` of `transactions.c`, with the verify macros of
`transactions.h`.  Both look at the open-file entries, and the first ends by opening the file.
-/
namespace NandFs

variable {σ : Type} [Config] [Storage σ]

/-- `EMPTY_TR_VERIFY` -/
def emptyTrVerify (tid : Int) (test : Bool) (next : FsM σ Int) : FsM σ Int := do
  if test then next
  else
    onStorage (Storage.initTransaction tid)
    return -1

/-- What `TR_RES_VERIFY` does with the result of its action. -/
def trResVerify (tid : Int) (res : Int) (next : FsM σ Int) : FsM σ Int := do
  if res = 0 then next
  else
    if (← onStorage (Storage.abortTransaction tid)) ≠ 0 then return -1
    return res

/-- `verifyNameLen` -/
def verifyNameLen (len : Nat) : Bool := decide (0 < len) && decide (len ≤ fsMaxNameLen)

/-- The record of the transaction that is to change the parent directory: "set directory
details to transaction", and the directory's inode read for its size. -/
def setDirectoryDetails (tid : Int) (dirNum : BitVec 32) : EStateM Halt σ Int := do
  Storage.transactionSet .ino tid dirNum.toInt
  Storage.transactionSet .fileOffset tid (-1)
  let read ← getInode dirNum (← Storage.transactionGetInoAddr tid)
  Storage.transactionSetInoAddr tid read.inoAddr
  if read.res ≠ 0 then return read.res
  Storage.transactionSet .fileSize tid (inodeGetNbytes read.block).toInt
  Storage.transactionSet .fType tid ftypeDir
  return 0

/-- The record of the transaction that writes a new inode. -/
def setNewFileDetails (tid : Int) (inoNum : BitVec 32) (newType : Nat) : EStateM Halt σ Unit := do
  Storage.transactionSet .type tid tTypeWrite
  Storage.transactionSet .ino tid inoNum.toInt
  Storage.transactionSet .fileOffset tid 0
  Storage.transactionSet .fileSize tid (-1)
  Storage.transactionSet .fType tid newType

/-- The second half of `createNewFile`, from where the inode number is known. -/
def writeNewFile (newType : Nat) (name : Path) (dirNum inoNum : BitVec 32) (tid : Int) :
    FsM σ Int := do
  onStorage (setNewFileDetails tid inoNum newType)
  trResVerify tid (← onStorage (Storage.setNewInode inoNum dirNum newType tid)) do
  trResVerify tid (← onStorage (Storage.commitInode tid)) do
  -- `RES_VERIFY`: a failed flush does not abort the transaction
  let flushed ← onStorage (Storage.cacheFlushTransactionBlocks tid)
  if flushed ≠ 0 then return flushed
  let inoLogAddr ← onStorage (Storage.transactionGetInoAddr tid)
  let ino0 ← onStorage Storage.ino0Addr
  let (res, ino0LogAddr) ← onStorage (Storage.commitInodeToInode0 ino0 inoNum inoLogAddr tid)
  trResVerify tid res do
  trResVerify tid (← onStorage (setDirectoryDetails tid dirNum)) do
  trResVerify tid (← onStorage (Storage.writeDirEntry inoNum name newType tid)) do
  trResVerify tid (← onStorage (Storage.commitTransaction tid (.copy ino0LogAddr))) do
  if isDirectory newType then return 0
  setOpenFentry inoNum creatFlags 0 ftypeFile

def createNewFile (newType : Nat) (pathname : Path) : FsM σ Int := do
  let tid ← onStorage Storage.getFreeTransactionId
  emptyTrVerify tid (← onStorage (Storage.isTransactionEmpty tid)) do
  -- the error of a missing entry is another than `FS_ERROR_IO`
  let found ← onStorage (Storage.namei pathname)
  emptyTrVerify tid (isNegative found.inoNum && found.inoNum.toInt != fsErrorIo) do
  let pre ← onStorage (Storage.verifyPrefix pathname tid)
  emptyTrVerify tid (pre.res == 0) do
  emptyTrVerify tid (verifyNameLen (pathname.drop pre.nameOffset).length) do
  let s ← getTables
  emptyTrVerify tid (s.verifyFileNotOpen pre.dirNum == 0) do
  let hole ← onStorage (Storage.findEmptySparseBlock tid)
  emptyTrVerify tid (hole.res == 0) do
  -- `CALC_IN_INODES` of the hole's offset
  writeNewFile newType (pathname.drop pre.nameOffset) pre.dirNum (BitVec.ofNat 32 (hole.blocks + 1))
    tid

/-- The checks of `removeFile` on a directory. -/
def verifyRemovable (tid : Int) (name : Path) (inoNum : BitVec 32) (next : FsM σ Int) :
    FsM σ Int := do
  emptyTrVerify tid (name != [0x2e, 0x2e]) do
  emptyTrVerify tid (name != [0x2e]) do
  emptyTrVerify tid (inoNum != 1) do
  let (res, isEmpty) ← onStorage (Storage.verifyDirectoryEmpty inoNum)
  emptyTrVerify tid (res == 0) do
  emptyTrVerify tid isEmpty next

/-- The second half of `removeFile`, after its checks. -/
def unlinkFile (newType : Nat) (dirNum inoNum : BitVec 32) (deOffset tid : Int) : FsM σ Int := do
  onStorage (Storage.transactionSet .type tid tTypeUnlink)
  onStorage (Storage.transactionSet .ino tid inoNum.toInt)
  onStorage (Storage.transactionSet .fType tid newType)
  trResVerify tid (← onStorage (Storage.votFile tid)) do
  let ino0 ← onStorage Storage.ino0Addr
  let (res, ino0LogAddr) ← onStorage (Storage.commitInodeToInode0 ino0 inoNum LogAddr.empty tid)
  trResVerify tid res do
  trResVerify tid (← onStorage (setDirectoryDetails tid dirNum)) do
  trResVerify tid (← onStorage (Storage.deleteDirEntry inoNum deOffset tid)) do
  trResVerify tid (← onStorage (Storage.commitTransaction tid (.copy ino0LogAddr))) do
  return 0

/-- `removeFile`.  That the file exists and has the type is not verified: both checks are
commented out in the source. -/
def removeFile (newType : Nat) (pathname : Path) : FsM σ Int := do
  let found ← onStorage (Storage.namei pathname)
  let tid ← onStorage Storage.getFreeTransactionId
  emptyTrVerify tid (← onStorage (Storage.isTransactionEmpty tid)) do
  let pre ← onStorage (Storage.verifyPrefix pathname tid)
  emptyTrVerify tid (pre.res == 0) do
  let verifyOpen : FsM σ Int := do
    let s ← getTables
    emptyTrVerify tid (s.verifyFileNotOpen pre.dirNum == 0) do
    emptyTrVerify tid (s.verifyFileNotOpen found.inoNum == 0) do
    unlinkFile newType pre.dirNum found.inoNum found.deOffset tid
  if isDirectory newType then
    verifyRemovable tid (pathname.drop pre.nameOffset) found.inoNum verifyOpen
  else verifyOpen

end NandFs
