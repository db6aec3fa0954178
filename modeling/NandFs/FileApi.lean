import NandFs.TransactionCalls

/-! # The calls of the file system

The public calls of `fs.c`, each with the macros by which it takes and gives back the mutex.
`err` is what a macro's `return -1` gives in a call: `-1`, or `-1` with what the call has put
into the caller's memory so far.
-/
namespace NandFs

variable {σ α : Type} [Config] [Storage σ]

open FileTables

/-! ## The mutex macros -/

/-- `FS_MUTEX_LOCK` -/
def fsMutexLock (err : α) (next : FsM σ α) : FsM σ α := do
  if (← get).mutex then return err
  modify fun s => { s with mutex := true }
  next

/-- `FS_MUTEX_UNLOCK` -/
def fsMutexUnlock (err : α) (next : FsM σ α) : FsM σ α := do
  if (← get).mutex then
    modify fun s => { s with mutex := false }
    next
  else
    modify fun s => { s with strayUnlock := true }
    return err

/-- `SYS_RETURN` -/
def sysReturn (err res : α) : FsM σ α := fsMutexUnlock err (pure res)

/-- `SYS_VERIFY` -/
def sysVerify (err : α) (test : Bool) (next : FsM σ α) : FsM σ α :=
  if test then next else fsMutexUnlock err (pure err)

/-- `SYS_TR_VERIFY`, with the result of its action. -/
def sysTrVerify (tid : Int) (res : Int) (next : FsM σ Int) : FsM σ Int := do
  if res = 0 then next
  else
    sysVerify (-1) ((← onStorage (Storage.abortTransaction tid)) == 0) (sysReturn (-1) res)

/-- `WRITE_VERIFY`, with the result of its action.  Neither exit unlocks the mutex. -/
def writeVerify (tid : Int) (commitedBytes : Int) (res : Int) (next : FsM σ Int) : FsM σ Int := do
  if res = 0 then next
  else
    if (← onStorage (Storage.abortTransaction tid)) ≠ 0 then return -1
    return commitedBytes

/-! ## Files -/

def nandfsCreat (pathname : Path) (_mode : Nat) : FsM σ Int :=
  fsMutexLock (-1) do
  let res ← createNewFile ftypeFile pathname
  sysReturn (-1) res

def nandfsOpen (pathname : Path) (flags : BitVec 32) (mode : Nat) : FsM σ Int :=
  fsMutexLock (-1) do
  -- `FS_VERIFY`, which returns with the mutex locked
  if !(isWronly flags || isRdonly flags) then return -1
  let found ← onStorage (Storage.namei pathname)
  if isNegative found.inoNum && !isCreat flags then sysReturn (-1) fdEmpty
  else if isNegative found.inoNum then fsMutexUnlock (-1) (nandfsCreat pathname 0)
  else
    let res ← setOpenFentry found.inoNum flags mode found.fType
    sysReturn (-1) res

/-- The directives of `lseek`. -/
inductive Whence
  | set
  | cur
  | «end»
  | other
  deriving DecidableEq, Repr

def nandfsLseek (fd offset : Int) (whence : Whence) : FsM σ Int :=
  fsMutexLock (-1) do
  let s ← getTables
  if s.verifyFd fd ≠ 0 then sysReturn (-1) (-1)
  else if offset < 0 then sysReturn (-1) (-1)
  else
    let fileSize ← onStorage (Storage.getFileSize (s.getFileIdByFd fd))
    if fileSize < 0 then sysReturn (-1) (-1)
    else
      let seek (newOffset : Int) : FsM σ Int :=
        sysVerify (-1) (decide (newOffset ≤ fsMaxFilesize)) do
        sysVerify (-1) (decide (newOffset ≤ fileSize)) do
        modifyTables fun s => s.openFileSetOffset fd newOffset
        sysReturn (-1) newOffset
      match whence with
      | .cur => seek ((s.openFiles fd).offset + offset)
      | .set => seek offset
      | .end => seek (fileSize + offset)
      | .other => sysReturn (-1) (-1)

def nandfsClose (fd : Int) : FsM σ Int :=
  fsMutexLock (-1) do
  let res ← closeUtil fd
  fsMutexUnlock (-1) (pure res)

/-! ### Writing -/

/-- `fsMemcpy(data_buf + at, buf + from, len)` -/
def Block.copyFrom (b : Block) (at_ : Int) (buf : Nat → UInt8) (from_ len : Int) : Block := fun j =>
  if at_ ≤ j ∧ j < at_ + len then buf (from_ + (j - at_)).toNat else b j

/-- Where the first block of a write at `fileOffset` is, where in it the data goes, and how
much of it: data kept in the inode counts as a block of its own. -/
structure FirstBlock where
  blockOffset : Int
  offsetInBlock : Int
  writeSize : Int

def firstBlock (fileOffset count : Int) : FirstBlock :=
  if fileOffset < inodeFileDataSize then
    ⟨0, fileOffset, if inodeFileDataSize - fileOffset < count then inodeFileDataSize - fileOffset
      else count⟩
  else
    let at_ := calcOffsetInFileBlock fileOffset
    ⟨fileOffset - at_, at_, if fsBlockSize - at_ < count then fsBlockSize - at_ else count⟩

/-- The last block of a write: read, changed and written. -/
def writeLast (fd tid : Int) (inoNum : BitVec 32) (buf : Nat → UInt8)
    (bytesWritten commitedBytesWritten tempCount : Int) : FsM σ Int := do
  if tempCount = 0 then sysReturn (-1) bytesWritten
  else
    let fileOffset := ((← getTables).openFiles fd).offset
    let inoAddr ← onStorage (Storage.transactionGetInoAddr tid)
    let read ← onStorage (Storage.readFileBlock inoNum fileOffset inoAddr tid)
    onStorage (Storage.transactionSetInoAddr tid read.inoAddr)
    writeVerify tid commitedBytesWritten read.res do
    let res ← onStorage (Storage.writeFileBlock fileOffset tempCount tid
      (read.block.copyFrom 0 buf bytesWritten tempCount))
    writeVerify tid commitedBytesWritten res do
    modifyTables fun s => s.openFileIncOffset fd tempCount
    sysReturn (-1) (bytesWritten + tempCount)

/-- Has the transaction been committed since it was last asked? -/
def takeWasCommited (tid : Int) : EStateM Halt σ Bool := do
  if ← Storage.transactionGetWasCommited tid then
    Storage.transactionSetWasCommited tid false
    return true
  else return false

theorem fsBlockSize_pos : 0 < fsBlockSize := Int.natCast_pos.mpr pageSize_pos

/-- The loop of `nandfs_write` over whole blocks, then the last block. -/
def writeBlocks (fd tid : Int) (inoNum : BitVec 32) (buf : Nat → UInt8)
    (bytesWritten commitedBytesWritten tempCount : Int) : FsM σ Int := do
  if _h : fsBlockSize < tempCount then
    let fileOffset := ((← getTables).openFiles fd).offset
    let res ← onStorage (Storage.writeFileBlock fileOffset fsBlockSize tid
      fun j => buf (bytesWritten + j).toNat)
    writeVerify tid commitedBytesWritten res do
    modifyTables fun s => s.openFileIncOffset fd fsBlockSize
    let wasCommited ← onStorage (takeWasCommited tid)
    writeBlocks fd tid inoNum buf (bytesWritten + fsBlockSize)
      (if wasCommited then bytesWritten else commitedBytesWritten) (tempCount - fsBlockSize)
  else writeLast fd tid inoNum buf bytesWritten commitedBytesWritten tempCount
termination_by tempCount.toNat
decreasing_by
  have := fsBlockSize_pos
  omega

/-- The record of the transaction that writes, "check for existing transaction" past. -/
def setWriteDetails (tid fSize : Int) : EStateM Halt σ Unit := do
  Storage.transactionSet .type tid tTypeWrite
  Storage.transactionSet .fileSize tid fSize
  Storage.transactionSet .fType tid ftypeFile

/-- `nandfs_write` from where its transaction is known. -/
def writeFirst (fd tid : Int) (inoNum : BitVec 32) (buf : Nat → UInt8) (count fileOffset fSize : Int) :
    FsM σ Int := do
  onStorage (setWriteDetails tid fSize)
  let read ← onStorage (Storage.readFileBlock inoNum fileOffset LogAddr.empty tid)
  sysTrVerify tid read.res do
  let first := firstBlock fileOffset count
  let res ← onStorage (Storage.writeFileBlock first.blockOffset
    (first.offsetInBlock + first.writeSize) tid
    (read.block.copyFrom first.offsetInBlock buf 0 first.writeSize))
  sysTrVerify tid res do
  modifyTables fun s => s.openFileIncOffset fd first.writeSize
  -- a commit before the block was marked in the indirect block does not count
  let _ ← onStorage (takeWasCommited tid)
  writeBlocks fd tid inoNum buf first.writeSize 0 (count - first.writeSize)

def nandfsWrite (fd : Int) (buf : Nat → UInt8) (count : Int) : FsM σ Int :=
  fsMutexLock (-1) do
  let s ← getTables
  sysVerify (-1) (s.verifyFd fd == 0) do
  sysVerify (-1) (decide (0 ≤ count)) do
  sysVerify (-1) (isWronly (s.openFiles fd).flags) do
  if count = 0 then sysReturn (-1) 0
  else
    let fSize ← onStorage (Storage.getFileSize (s.getFileIdByFd fd))
    sysVerify (-1) (decide ((s.openFiles fd).offset ≤ fSize)) do
    let tid ← onStorage (Storage.getTidByFileId (s.getFileIdByFd fd))
    if tid = tidEmpty then sysReturn (-1) 0
    else writeFirst fd tid (s.getFileIdByFd fd) buf count (s.openFiles fd).offset fSize

/-! ### Reading -/

/-- `fsMemcpy(&buf[to], block + from, len)` into the caller's buffer -/
def copyToBuf (buf : Nat → UInt8) (to_ : Int) (block : Block) (from_ len : Int) : Nat → UInt8 :=
  fun j => if to_ ≤ j ∧ (j : Int) < to_ + len then block.byte (from_ + (j - to_)).toNat else buf j

/-- A read is cut at the end of the file. -/
def cutAtEof (fileOffset readSize fSize : Int) : Int :=
  if fSize < fileOffset + readSize then fSize - fileOffset else readSize

/-- The last block of a read. -/
def readLast (fd tid : Int) (inoNum : BitVec 32) (inoAddr : LogAddr) (buf : Nat → UInt8)
    (bytesRead tempCount readSize : Int) : FsM σ (Int × (Nat → UInt8)) := do
  let fileOffset := ((← getTables).openFiles fd).offset
  if readSize = 0 ∨ tempCount = 0 then sysReturn (-1, buf) (bytesRead, buf)
  else
    let readSize := if tempCount < readSize then tempCount else readSize
    let read ← onStorage (Storage.readFileBlock inoNum fileOffset inoAddr tid)
    sysVerify (-1, buf) (read.res == 0) do
    let buf := copyToBuf buf bytesRead read.block 0 readSize
    modifyTables fun s => s.openFileIncOffset fd readSize
    sysReturn (-1, buf) (bytesRead + readSize, buf)

/-- The loop of `nandfs_read` over whole blocks, then the last block. -/
def readBlocks (fd tid : Int) (inoNum : BitVec 32) (fSize : Int) (inoAddr : LogAddr)
    (buf : Nat → UInt8) (bytesRead tempCount readSize : Int) :
    FsM σ (Int × (Nat → UInt8)) := do
  if _h : fsBlockSize < tempCount ∧ readSize = fsBlockSize then
    let fileOffset := ((← getTables).openFiles fd).offset
    let read ← onStorage (Storage.readFileBlock inoNum fileOffset inoAddr tid)
    sysVerify (-1, buf) (read.res == 0) do
    let buf := copyToBuf buf bytesRead read.block 0 readSize
    modifyTables fun s => s.openFileIncOffset fd fsBlockSize
    readBlocks fd tid inoNum fSize read.inoAddr buf (bytesRead + readSize) (tempCount - readSize)
      (cutAtEof (fileOffset + fsBlockSize) readSize fSize)
  else readLast fd tid inoNum inoAddr buf bytesRead tempCount readSize
termination_by tempCount.toNat
decreasing_by
  have := fsBlockSize_pos
  omega

/-- The size of the first read and its place in the block. -/
def firstRead (fileOffset count fSize : Int) : Int × Int :=
  let at_ := if fileOffset < inodeFileDataSize then fileOffset else calcOffsetInFileBlock fileOffset
  let room := if fileOffset < inodeFileDataSize then inodeFileDataSize - fileOffset
    else fsBlockSize - at_
  (cutAtEof fileOffset (if room < count then room else count) fSize, at_)

/-- The size of the read after the first. -/
def nextReadSize (fileOffset tempCount fSize : Int) : Int :=
  cutAtEof fileOffset (if fsBlockSize < tempCount then fsBlockSize else tempCount) fSize

def nandfsRead (fd : Int) (buf : Nat → UInt8) (count : Int) : FsM σ (Int × (Nat → UInt8)) :=
  fsMutexLock (-1, buf) do
  let s ← getTables
  sysVerify (-1, buf) (s.verifyFd fd == 0) do
  sysVerify (-1, buf) (decide (0 ≤ count)) do
  sysVerify (-1, buf) (isRdonly (s.openFiles fd).flags) do
  sysVerify (-1, buf) (!isDirectory (s.openFiles fd).fType) do
  let inoNum := s.getFileIdByFd fd
  let fSize ← onStorage (Storage.getFileSize inoNum)
  let fileOffset := (s.openFiles fd).offset
  sysVerify (-1, buf) (decide (fileOffset ≤ fSize)) do
  let tid ← onStorage (Storage.findTidByFileId inoNum)
  let first := firstRead fileOffset count fSize
  let read ← onStorage (Storage.readFileBlock inoNum fileOffset LogAddr.empty tid)
  sysVerify (-1, buf) (read.res == 0) do
  let buf := copyToBuf buf 0 read.block first.2 first.1
  modifyTables fun s => s.openFileIncOffset fd first.1
  readBlocks fd tid inoNum fSize read.inoAddr buf first.1 (count - first.1)
    (nextReadSize (fileOffset + first.1) (count - first.1) fSize)

/-! ## Names -/

def nandfsUnlink (pathname : Path) : FsM σ Int :=
  fsMutexLock (-1) do
  let res ← removeFile ftypeFile pathname
  sysReturn (-1) res

def nandfsMkdir (pathname : Path) (_mode : Nat) : FsM σ Int :=
  fsMutexLock (-1) do
  let res ← createNewFile ftypeDir pathname
  sysReturn (-1) res

def nandfsRmdir (pathname : Path) : FsM σ Int :=
  fsMutexLock (-1) do
  let res ← removeFile ftypeDir pathname
  sysReturn (-1) res

/-- `file_stat_t` -/
structure FileStat where
  inoNum : BitVec 32
  size : Int
  blkSize : Int
  blocks : Int
  devId : Nat

def nandfsStat (path : Path) (buf : FileStat) : FsM σ (Int × FileStat) :=
  fsMutexLock (-1, buf) do
  let found ← onStorage (Storage.namei path)
  sysVerify (-1, buf) (!isNegative found.inoNum) do
  let devId ← onStorage Storage.nandReadID
  let buf := { buf with blkSize := pageSize, inoNum := found.inoNum, devId := devId }
  let blocks ← onStorage (Storage.getFileBlocks found.inoNum)
  sysVerify (-1, buf) (decide (0 ≤ blocks)) do
  let buf := { buf with blocks := blocks }
  let size ← onStorage (Storage.getFileSize found.inoNum)
  sysVerify (-1, buf) (decide (0 ≤ size)) do
  let buf := { buf with size := size }
  sysReturn (-1, buf) (0, buf)

def nandfsFsync (fd : Int) : FsM σ Int :=
  fsMutexLock (-1) do
  sysVerify (-1) ((← fsyncUtil fd) == 0) do
  fsMutexUnlock (-1) (pure 0)

/-! ## Descriptors -/

def nandfsDup2 (oldFd newFd : Int) : FsM σ Int :=
  fsMutexLock (-1) do
  let res ← dupUtil oldFd newFd true
  fsMutexUnlock (-1) (pure res)

def nandfsDup (oldFd : Int) : FsM σ Int :=
  fsMutexLock (-1) do
  let res ← dupUtil oldFd fdEmpty false
  fsMutexUnlock (-1) (pure res)

/-! ## Directories -/

/-- What a call that returns a pointer gives: a directory stream (or the entry in it), `NULL`,
or the `-1` of a macro. -/
inductive StreamPtr
  | null
  | minusOne
  | stream (ds : DirstreamId)
  deriving DecidableEq, Repr

/-- `nandfs_opendir` from where a stream has been found free.  Only `FD_EMPTY` is taken for a
failure to open. -/
def openStream (ds : DirstreamId) (inoNum : BitVec 32) : FsM σ StreamPtr := do
  let read ← onStorage (getInode inoNum LogAddr.empty)
  if read.res ≠ 0 then
    modifyTables fun s => s.closeDirstream ds
    sysReturn .minusOne .null
  else
    modifyTables fun s => s.setDirstream ds { s.dirstreams ds with inoAddr := read.inoAddr }
    let fd ← setOpenFentry inoNum oRdonly 0 ftypeDir
    if fd = fdEmpty then
      modifyTables fun s => s.closeDirstream ds
      sysReturn .minusOne .null
    else
      modifyTables fun s => s.setDirstream ds { s.dirstreams ds with fd := fd }
      modifyTables fun s => s.openFileSetOffset fd directoryFirstEntryOffset
      sysReturn .minusOne (.stream ds)

def nandfsOpendir (name : Path) : FsM σ StreamPtr :=
  fsMutexLock .minusOne do
  let found ← onStorage (Storage.namei name)
  if isNegative found.inoNum || !isDirectory found.fType then sysReturn .minusOne .null
  else
    let s ← getTables
    match s.getFreeDirstreamId with
    | none => sysReturn .minusOne .null
    | some ds => openStream ds found.inoNum

def nandfsClosedir (dir : Option DirstreamId) : FsM σ Int :=
  fsMutexLock (-1) do
  let s ← getTables
  match dir, s.verifyDirstream dir with
  | some ds, true =>
    modifyTables fun s => s.closeDirstream ds
    sysReturn (-1) 0
  | _, _ => sysReturn (-1) (-1)

/-- `nandfs_dirent` at a place of `fs_buffer`, which may lie past its end. -/
def direntAt (block : Block) (after : Nat → UInt8) (place : Int) : Nat → UInt8 := fun j =>
  let k := (place + j).toNat
  if k < pageSize then block.byte k else after (k - pageSize)

/-- `DIRENT_GET_INO_NUM` -/
def direntGetInoNum (de : Nat → UInt8) : BitVec 32 := BitVec.ofNat 32 (getUint32 de 1)

/-- `DIRENT_GET_LEN` -/
def direntGetLen (de : Nat → UInt8) : Nat := getUint32 de 5

/-- `IS_DIRENT_EMPTY` -/
def isDirentEmpty (de : Nat → UInt8) : Bool := direntGetInoNum de == inoNumEmpty

/-- `IS_DIRENT_BLOCK_FULL` -/
def isDirentBlockFull (offset : Int) : Bool :=
  decide (fsBlockSize - calcOffsetInFileBlock offset < 256)

/-- `setDirstreamDirEntry` -/
def setDirstreamDirEntry (ds : DirstreamId) (de : Nat → UInt8) (offset : Int) : FsM σ Unit := do
  modifyTables fun s => s.setDirstream ds { s.dirstreams ds with de := de }
  modifyTables fun s => s.openFileSetOffset (s.dirstreams ds).fd (offset + direntGetLen de)

/-- `readDirStreamNextEntry` from the next block of the directory that is not empty. -/
def readNextBlockEntry (ds : DirstreamId) (offset : Int) : FsM σ Int := do
  let s ← get
  let next ← onStorage (Storage.findNextNonEmptySparseBlock (s.tables.dirstreams ds).inoAddr offset)
  if next.res ≠ 0 then return -1
  let (res, block) ← onStorage (Storage.fsReadBlock next.blockAddr)
  if res ≠ 0 then return -1
  setDirstreamDirEntry ds (direntAt block s.afterFsBuffer 0) next.offset
  return 0

def readDirStreamNextEntry (ds : DirstreamId) : FsM σ Int := do
  let s ← get
  let stream := s.tables.dirstreams ds
  let offset := (s.tables.openFiles stream.fd).offset
  if isDirentBlockFull offset then readNextBlockEntry ds offset
  else
    let read ← onStorage (Storage.readFileBlock (s.tables.getFileIdByFd stream.fd) offset
      stream.inoAddr tidEmpty)
    modifyTables fun s => s.setDirstream ds { s.dirstreams ds with inoAddr := read.inoAddr }
    if read.res ≠ 0 then return -1
    let de := direntAt read.block s.afterFsBuffer (calcOffsetInFileBlock offset)
    if isDirentEmpty de then readNextBlockEntry ds offset
    else
      setDirstreamDirEntry ds de offset
      return 0

def nandfsReaddir (dir : Option DirstreamId) : FsM σ StreamPtr :=
  fsMutexLock .minusOne do
  let s ← getTables
  match dir, s.verifyDirstream dir with
  | some ds, true =>
    if (← readDirStreamNextEntry ds) ≠ 0 then sysReturn .minusOne .null
    else sysReturn .minusOne (.stream ds)
  | _, _ => sysReturn .minusOne .null

/-! ### Scanning -/

/-- What the caller of `scandir` brings: the filter, and whether the allocation of each number
succeeds.  The comparison is never called, since only an empty list is sorted. -/
structure ScandirCallbacks where
  filter : (Nat → UInt8) → Bool
  reallocator : Nat → Bool

/-- The names collected so far, the last first, and the number of allocations made. -/
structure Namelist where
  names : List (List UInt8)
  allocations : Nat

/-- The entries of one block.  `none` is the exit on a failed allocation. -/
def scanBlock (cb : ScandirCallbacks) (block : Block) (after : Nat → UInt8) :
    (rounds : Nat) → (place : Int) → Namelist → FsM σ (Option Namelist)
  | 0, _, _ => throw .endless
  | rounds + 1, place, list => do
    let de := direntAt block after place
    if isDirentEmpty de then return some list
    if cb.filter de then
      if !cb.reallocator list.allocations then return none
      -- the second allocation is not checked: `arr` is, again
      if !cb.reallocator (list.allocations + 1) then throw (.halt .abort)
      scanBlock cb block after rounds (place + direntGetLen de)
        ⟨(List.range (direntGetLen de)).map de :: list.names, list.allocations + 2⟩
    else scanBlock cb block after rounds (place + direntGetLen de) list

/-- The loop of `nandfs_scandir` over the blocks of the directory.  The block read at the end
of a round is read again at the start of the next. -/
def scanBlocks (cb : ScandirCallbacks) (inoNum : BitVec 32) (fSize : Int) :
    (rounds : Nat) → (inoAddr : LogAddr) → (offset : Int) → Namelist →
    FsM σ (Int × List (List UInt8))
  | 0, _, _, _ => throw .endless
  | rounds + 1, inoAddr, offset, list => do
    if offset < fSize then
      let read ← onStorage (Storage.readFileBlock inoNum offset inoAddr tidEmpty)
      sysVerify (-1, []) (read.res == 0) do
      let after := (← get).afterFsBuffer
      match ← scanBlock cb read.block after rounds 0 list with
      | none => sysReturn (-1, []) (-1, [])
      | some list =>
        let next ← onStorage (Storage.findNextNonEmptySparseBlock read.inoAddr offset)
        if next.res = fsErrorOfstOvrflw then
          sysReturn (-1, []) (list.names.length, list.names.reverse)
        else if next.res ≠ 0 then sysReturn (-1, []) (-1, [])
        else
          let reread ← onStorage (Storage.fsReadBlock next.blockAddr)
          sysVerify (-1, []) (reread.1 == 0) do
          scanBlocks cb inoNum fSize rounds read.inoAddr next.offset list
    else sysReturn (-1, []) (list.names.length, list.names.reverse)

def nandfsScandir (rounds : Nat) (dir : Path) (cb : ScandirCallbacks) :
    FsM σ (Int × List (List UInt8)) :=
  fsMutexLock (-1, []) do
  let found ← onStorage (Storage.namei dir)
  sysVerify (-1, []) (!isNegative found.inoNum) do
  sysVerify (-1, []) (isDirectory found.fType) do
  let fSize ← onStorage (Storage.getFileSize found.inoNum)
  scanBlocks cb found.inoNum fSize rounds LogAddr.empty directoryFirstEntryOffset ⟨[], 0⟩

/-! ## A call with its arguments -/

inductive Call
  | open (pathname : Path) (flags : BitVec 32) (mode : Nat)
  | creat (pathname : Path) (mode : Nat)
  | close (fd : Int)
  | read (fd : Int) (buf : Nat → UInt8) (count : Int)
  | write (fd : Int) (buf : Nat → UInt8) (count : Int)
  | lseek (fd offset : Int) (whence : Whence)
  | fsync (fd : Int)
  | dup (oldFd : Int)
  | dup2 (oldFd newFd : Int)
  | stat (path : Path) (buf : FileStat)
  | mkdir (pathname : Path) (mode : Nat)
  | unlink (pathname : Path)
  | rmdir (pathname : Path)
  | opendir (name : Path)
  | readdir (dir : Option DirstreamId)
  | scandir (rounds : Nat) (dir : Path) (cb : ScandirCallbacks)
  | closedir (dir : Option DirstreamId)

/-- What a call returns, without what it puts into the caller's memory. -/
inductive Reply
  | int (res : Int)
  | ptr (res : StreamPtr)
  deriving DecidableEq, Repr

def Call.run : Call → FsM σ Reply
  | .open pathname flags mode => .int <$> nandfsOpen pathname flags mode
  | .creat pathname mode => .int <$> nandfsCreat pathname mode
  | .close fd => .int <$> nandfsClose fd
  | .read fd buf count => (fun r => .int r.1) <$> nandfsRead fd buf count
  | .write fd buf count => .int <$> nandfsWrite fd buf count
  | .lseek fd offset whence => .int <$> nandfsLseek fd offset whence
  | .fsync fd => .int <$> nandfsFsync fd
  | .dup oldFd => .int <$> nandfsDup oldFd
  | .dup2 oldFd newFd => .int <$> nandfsDup2 oldFd newFd
  | .stat path buf => (fun r => .int r.1) <$> nandfsStat path buf
  | .mkdir pathname mode => .int <$> nandfsMkdir pathname mode
  | .unlink pathname => .int <$> nandfsUnlink pathname
  | .rmdir pathname => .int <$> nandfsRmdir pathname
  | .opendir name => .ptr <$> nandfsOpendir name
  | .readdir dir => .ptr <$> nandfsReaddir dir
  | .scandir rounds dir cb => (fun r => .int r.1) <$> nandfsScandir rounds dir cb
  | .closedir dir => .int <$> nandfsClosedir dir

/-- A process of the user makes the call. -/
def Call.runBy (user : UserId) (c : Call) : FsM σ Reply := do
  modifyTables fun s => { s with currentUser := user }
  c.run

end NandFs
