import NandFs.FileApi

/-! # Reading the tree of a file

The offsets of `fs.h` at which the blocks of a file hang in the tree under its inode, and the
routines of `fsUtils.c` that walk the tree: `readFileBlock`, which reads the block at an
offset, and `findNextNonEmptySparseBlock`, which looks for the next block there is.
`StoredFiles` is a chip that nothing is written to, so every page reads as it did before.
-/
namespace NandFs

/-- The page sizes of the two chips.  With larger pages the sizes below overflow their 32 bits,
with smaller ones a block has no room for a `nandfs_dirent`. -/
class FsConfig extends Config where
  powPageSize_ge_nine : 9 ≤ powPageSize
  powPageSize_le : powPageSize ≤ 11

@[reducible] def smallPageFs : FsConfig where
  toConfig := smallPage
  powPageSize_ge_nine := by decide
  powPageSize_le := by decide

section Sizes
variable [Config]

open Config

/-! ## Sizes -/

/-- `LOG_ADDRESSES_PER_BLOCK` -/
def logAddressesPerBlock : Nat := pageSize / 4

/-- `DIRECT_INDEX_ENTRIES` -/
def directIndexEntries : Nat := 10

/-- `POWER_INODE_INDIRECT_DATA_SIZE` -/
def powInodeIndirectDataSize : Nat := powPageSize - 2 + powPageSize

/-- `POWER_INODE_DOUBLE_DATA_SIZE` -/
def powInodeDoubleDataSize : Nat := powInodeIndirectDataSize + (powPageSize - 2)

/-- `INODE_DIRECT_DATA_SIZE` -/
def inodeDirectDataSize : Int := directIndexEntries * fsBlockSize

/-- `INODE_INDIRECT_DATA_SIZE` -/
def inodeIndirectDataSize : Int := fsBlockSize / 4 * fsBlockSize

/-- `INODE_DOUBLE_DATA_SIZE` -/
def inodeDoubleDataSize : Int := inodeIndirectDataSize / 4 * fsBlockSize

/-- `INDIRECT_DATA_OFFSET` -/
def indirectDataOffset : Int := inodeFileDataSize + inodeDirectDataSize

/-- `DOUBLE_DATA_OFFSET` -/
def doubleDataOffset : Int := indirectDataOffset + inodeIndirectDataSize

/-- `TRIPLE_DATA_OFFSET` -/
def tripleDataOffset : Int := doubleDataOffset + inodeDoubleDataSize

/-- `CALC_OFFSET_FROM_INDIRECT` -/
def calcOffsetFromIndirect (offset : Int) : Int := offset - indirectDataOffset

/-- `CALC_OFFSET_FROM_DOUBLE` -/
def calcOffsetFromDouble (offset : Int) : Int :=
  calcOffsetFromIndirect offset - inodeIndirectDataSize

/-- `CALC_OFFSET_FROM_TRIPLE` -/
def calcOffsetFromTriple (offset : Int) : Int := calcOffsetFromDouble offset - inodeDoubleDataSize

/-- `CALC_IN_BLOCKS`, also `CALC_OFFSET_IN_INDIRECT_BLOCK` -/
def calcInBlocks (offset : Int) : Int := offset / 2 ^ powPageSize

/-- `CALC_OFFSET_IN_INDIRECT_SIZE` -/
def calcOffsetInIndirectSize (offset : Int) : Int := offset % 2 ^ powInodeIndirectDataSize

/-- `CALC_OFFSET_IN_DOUBLE_SIZE` -/
def calcOffsetInDoubleSize (offset : Int) : Int := offset % 2 ^ powInodeDoubleDataSize

/-- `CALC_OFFSET_IN_DOUBLE_BLOCK` -/
def calcOffsetInDoubleBlock (offset : Int) : Int := offset / 2 ^ powInodeIndirectDataSize

/-- `CALC_OFFSET_IN_TRIPLE_BLOCK` -/
def calcOffsetInTripleBlock (offset : Int) : Int := offset / 2 ^ powInodeDoubleDataSize

/-! ## Addresses kept in a block -/

/-- `IS_ADDR_EMPTY`, all of the twenty-four bits -/
def isAddrEmpty (a : LogAddr) : Bool := a == LogAddr.empty

omit [Config] in
@[simp] theorem isAddrEmpty_eq_true {a : LogAddr} : isAddrEmpty a = true ↔ a = LogAddr.empty :=
  beq_iff_eq

omit [Config] in
@[simp] theorem isAddrEmpty_eq_false {a : LogAddr} :
    isAddrEmpty a = false ↔ a ≠ LogAddr.empty := beq_eq_false_iff_ne

/-- `IS_ADDRESS_EMPTY`, which looks at the segment only -/
def isAddressEmpty (a : LogAddr) : Bool := a.segment == noSegmentNum

/-- `GET_LOGICAL_SEGMENT` and `GET_LOGICAL_OFFSET` of the address at byte `j`.  The bit of its
last byte that marks a hole is not looked at by what reads. -/
def logAddrAt (b : Block) (j : Nat) : LogAddr where
  segment := (b.byte (j + 2)).toNat * 16 + (b.byte (j + 1)).toNat / 16
  offset := (b.byte j).toNat + (b.byte (j + 1)).toNat % 16 * 256

/-- `BLOCK_GET_INDEX` -/
def blockGetIndex (b : Block) (num : Nat) : LogAddr := logAddrAt b (4 * num)

/-- `INODE_GET_DIRECT` -/
def inodeGetDirect (inode : Block) (num : Nat) : LogAddr := logAddrAt inode (pageSize - 52 + 4 * num)

/-- `INODE_GET_INDIRECT` -/
def inodeGetIndirect (inode : Block) : LogAddr := logAddrAt inode (pageSize - 12)

/-- `INODE_GET_DOUBLE` -/
def inodeGetDouble (inode : Block) : LogAddr := logAddrAt inode (pageSize - 8)

/-- `INODE_GET_TRIPLE` -/
def inodeGetTriple (inode : Block) : LogAddr := logAddrAt inode (pageSize - 4)

/-- A chip that is only read: its pages by logical address, the inode of inode 0, the inode
numbers of the files in transactions, what each path names, the sizes that the transactions
keep of their files, and the bytes that follow `fs_buffer`. -/
structure StoredFiles where
  page : LogAddr → Block
  ino0Addr : LogAddr
  involved : List (BitVec 32)
  names : List (Path × NameiResult)
  openSize : BitVec 32 → Int := fun _ => 0
  behindFsBuffer : Nat → UInt8 := fun _ => 0

namespace StoredFiles
variable (m : StoredFiles)

/-- `fsReadBlock`, with no buffers to cache in as `LRU_CACHE_SIZE` has it.  What has no address
reads as erased. -/
def fsReadBlock (logAddr : LogAddr) : Block :=
  if isAddressEmpty logAddr then initBuf.main else m.page logAddr

/-! ## The block at an offset -/

/-- `readIndirectToBuffer`: the block with the address of the block at an offset. -/
def readIndirectToBuffer (blockOffset : Int) (inoLogAddr : LogAddr) (buf : Block) : Block :=
  let inode := if isAddrEmpty inoLogAddr then buf else m.fsReadBlock inoLogAddr
  if blockOffset < indirectDataOffset then inode
  else if blockOffset < doubleDataOffset then m.fsReadBlock (inodeGetIndirect inode)
  else if blockOffset < tripleDataOffset then
    let blockOffset := blockOffset - doubleDataOffset
    let double := m.fsReadBlock (inodeGetDouble inode)
    m.fsReadBlock (blockGetIndex double (calcOffsetInDoubleBlock blockOffset).toNat)
  else
    let blockOffset := blockOffset - tripleDataOffset
    let triple := m.fsReadBlock (inodeGetTriple inode)
    let double := m.fsReadBlock (blockGetIndex triple (calcOffsetInTripleBlock blockOffset).toNat)
    let blockOffset := calcOffsetInDoubleSize blockOffset
    m.fsReadBlock (blockGetIndex double (calcOffsetInDoubleBlock blockOffset).toNat)

/-- `readFileBlock` once the inode is in the buffer. -/
def readFromInode (inode : Block) (inoNum : BitVec 32) (offset : Int) (inoLogAddr : LogAddr) :
    BlockRead :=
  if (inodeGetNbytes inode).toNat < offset then ⟨fsErrorOfstOvrflw, inode, inoLogAddr⟩
  else if offset < inodeFileDataSize then
    ⟨0, fun j => if (j : Int) < inodeFileDataSize then inode j else 0xff, inoLogAddr⟩
  else
    let logAddr :=
      if offset < indirectDataOffset then
        inodeGetDirect inode (calcInBlocks (offset - inodeFileDataSize)).toNat
      else
        blockGetIndex (m.readIndirectToBuffer (offset - calcOffsetInFileBlock offset) inoLogAddr inode)
          (calcInBlocks (calcOffsetInIndirectSize (calcOffsetFromIndirect offset))).toNat
    ⟨0, m.fsReadBlock logAddr,
      if inoNum = 0 ∧ isAddrEmpty logAddr = false then logAddr else inoLogAddr⟩

/-- `readFileBlock` outside of a transaction, given what `readInodeBlock` reads. -/
def readFileBlockOf (inode : BlockRead) (inoNum : BitVec 32) (offset : Int) : BlockRead :=
  if m.involved.contains inoNum then ⟨-1, inode.block, inode.inoAddr⟩
  -- a negative offset is greater still where it is compared without a sign
  else if offset < 0 ∨ fsMaxFilesize < offset then ⟨fsErrorOfstOvrflw, inode.block, inode.inoAddr⟩
  else if inode.res ≠ 0 then inode
  else m.readFromInode inode.block inoNum offset inode.inoAddr

/-- `readInodeBlock` of inode 0 -/
def readIno0 : BlockRead := ⟨0, m.fsReadBlock m.ino0Addr, m.ino0Addr⟩

/-- `readInodeBlock` outside of a transaction.  An inode whose address is not given is looked
up in the file of inode 0. -/
def readInodeBlock (inoNum : BitVec 32) (inoLogAddr : LogAddr) : BlockRead :=
  if inoNum = 0 then m.readIno0
  else if isAddressEmpty inoLogAddr then
    m.readFileBlockOf m.readIno0 0 (inodeFileDataSize + (inoNum.toInt - 1) * fsBlockSize)
  else ⟨0, m.fsReadBlock inoLogAddr, inoLogAddr⟩

def readFileBlock (inoNum : BitVec 32) (offset : Int) (inoLogAddr : LogAddr) : BlockRead :=
  m.readFileBlockOf (m.readInodeBlock inoNum inoLogAddr) inoNum offset

/-- What `getInode` leaves for the address of an inode. -/
def inodeAddr (inoNum : BitVec 32) : LogAddr :=
  (m.readFileBlock 0 (inodeFileDataSize + (inoNum.toInt - 1) * fsBlockSize) LogAddr.empty).inoAddr

/-- `getFileSize`: from the transaction that has the file, or from the inode. -/
def fileSize (inoNum : BitVec 32) : Int :=
  if m.involved.contains inoNum then m.openSize inoNum
  else
    let read := m.readFileBlock 0 (inodeFileDataSize + (inoNum.toInt - 1) * fsBlockSize)
      LogAddr.empty
    if read.res ≠ 0 then -1 else (inodeGetNbytes read.block).toInt

/-- What `namei` returns for a path. -/
def named (path : Path) : NameiResult := (m.names.lookup path).getD nameNotFound

/-! ## The next block there is -/

/-- What a search gives, an address with its offset in the file, or an error. -/
abbrev Search := Except Int (LogAddr × Int)

/-- The result of a search with what it leaves in the caller's variables. -/
def Search.result : Search → NextBlockResult
  | .ok (blockAddr, offset) => ⟨0, blockAddr, offset⟩
  | .error res => ⟨res, LogAddr.empty, 0⟩

/-- The loop over the entries of a block or of an inode from entry `i` on: the first that is
not empty. -/
def firstEntry (entry : Nat → LogAddr) (i n : Nat) : Option Nat :=
  (List.range' i (n - i)).find? fun j => !isAddrEmpty (entry j)

def findNonEmptyDirectEntry (blockAddr : LogAddr) (entryOffset : Int)
    (offset entryPointerSize : Int) : Search :=
  let fsBuffer := m.fsReadBlock blockAddr
  match firstEntry (blockGetIndex fsBuffer) entryOffset.toNat logAddressesPerBlock with
  | none => .error (-1)
  | some i =>
    let offset := offset + (i - entryOffset) * entryPointerSize
    if offset < fsMaxFilesize then .ok (blockGetIndex fsBuffer i, offset) else .error (-1)

/-- `findNextNonEmptySparseBlock` from its look at the triple entry on.  The tests after a
search that found an entry, whether it is empty, are left out. -/
def findFromTriple (inode : Block) (offset : Int) : Search :=
  if isAddrEmpty (inodeGetTriple inode) then .error fsErrorOfstOvrflw
  else do
    let tempOffset := calcOffsetFromTriple offset
    -- an offset in bytes taken for the number of an entry, here and for the next block
    let (doubleAddr, offset) ← m.findNonEmptyDirectEntry (inodeGetTriple inode)
      (calcOffsetInDoubleSize tempOffset) offset inodeDoubleDataSize
    let tempOffset := calcOffsetInDoubleSize tempOffset
    let (indirectAddr, offset) ← m.findNonEmptyDirectEntry doubleAddr
      (calcOffsetInIndirectSize tempOffset) offset inodeIndirectDataSize
    let tempOffset := calcOffsetInIndirectSize tempOffset
    m.findNonEmptyDirectEntry indirectAddr (calcInBlocks tempOffset) offset fsBlockSize

/-- `findNextNonEmptySparseBlock` from its look at the double entry on -/
def findFromDouble (inode : Block) (offset : Int) : Search :=
  if isAddrEmpty (inodeGetDouble inode) then m.findFromTriple inode tripleDataOffset
  else do
    let tempOffset := calcOffsetFromDouble offset
    let (indirectAddr, offset) ← m.findNonEmptyDirectEntry (inodeGetDouble inode)
      (calcOffsetInDoubleBlock tempOffset) offset inodeIndirectDataSize
    -- the place in the block the search came from, also where the block found is a later one
    let tempOffset := calcOffsetInIndirectSize tempOffset
    m.findNonEmptyDirectEntry indirectAddr (calcInBlocks tempOffset) offset fsBlockSize

/-- `findNextNonEmptySparseBlock` from its look at the indirect entry on.  The `FS_VERIFY` on
what the indirect block holds ends the search. -/
def findFromIndirect (inode : Block) (offset : Int) : Search :=
  if isAddrEmpty (inodeGetIndirect inode) then m.findFromDouble inode doubleDataOffset
  else
    m.findNonEmptyDirectEntry (inodeGetIndirect inode)
      (calcInBlocks (calcOffsetFromIndirect offset)) offset fsBlockSize

def findNextNonEmptySparseBlock (inoAddr : LogAddr) (offset : Int) : Search :=
  let inode := m.fsReadBlock inoAddr
  let offset := offset - calcOffsetInFileBlock offset + fsBlockSize
  if offset < indirectDataOffset then
    let blockOffset := calcInBlocks (offset - inodeFileDataSize)
    match firstEntry (inodeGetDirect inode) blockOffset.toNat directIndexEntries with
    | some i => .ok (inodeGetDirect inode i, offset + (i - blockOffset) * fsBlockSize)
    | none => m.findFromIndirect inode indirectDataOffset
  else if offset < doubleDataOffset then m.findFromIndirect inode offset
  else if offset < tripleDataOffset then m.findFromDouble inode offset
  else m.findFromTriple inode offset

/-! ## Whether a directory has entries -/

/-- `getInode` -/
def getInode (inoNum : BitVec 32) : BlockRead :=
  m.readFileBlock 0 (inodeFileDataSize + (inoNum.toInt - 1) * fsBlockSize) LogAddr.empty

/-- `verifyDirectoryEmpty`: the result and what is left in `isEmpty`, which `removeFile` sets to
0 before.  The bytes `after` are those behind `fs_buffer`. -/
def verifyDirectoryEmpty (after : Nat → UInt8) (inoNum : BitVec 32) : Int × Bool :=
  let read := m.getInode inoNum
  let inode := read.block
  if read.res ≠ 0 then (-1, false)
  else if (firstEntry (inodeGetDirect inode) 1 directIndexEntries).isSome then (0, false)
  else if ¬isAddrEmpty (inodeGetIndirect inode) then (0, false)
  else if ¬isAddrEmpty (inodeGetDouble inode) then (0, false)
  else if ¬isAddrEmpty (inodeGetTriple inode) then (0, false)
  else if isAddrEmpty (inodeGetDirect inode 0) then (-1, false)
  else
    let block := m.fsReadBlock (inodeGetDirect inode 0)
    let second := direntGetLen (direntAt block after 0)
    let third := second + direntGetLen (direntAt block after second)
    (0, isDirentEmpty (direntAt block after third))

end StoredFiles

end Sizes

/-- What the calls are told of a chip that is only read.  The routines that `opendir`, `readdir`,
`scandir` and the checks of `removeFile` do not use refuse. -/
instance storedFiles [FsConfig] : Storage StoredFiles where
  namei path := do return (← get).named path
  verifyPrefix _ _ := return ⟨-1, 0, 0⟩
  getFileSize inoNum := do return (← get).fileSize inoNum
  getFileBlocks _ := return -1
  nandReadID := return 0
  ino0Addr := do return (← get).ino0Addr
  findTidByFileId _ := return tidEmpty
  getTidByFileId _ := return tidEmpty
  getFreeTransactionId := return tidEmpty
  isTransactionEmpty _ := return false
  initTransaction _ := return
  transactionSet _ _ _ := return
  transactionGetInoAddr _ := return LogAddr.empty
  transactionSetInoAddr _ _ := return
  transactionGetWasCommited _ := return false
  transactionSetWasCommited _ _ := return
  abortTransaction _ := return -1
  commitTransaction _ _ := return -1
  readFileBlock inoNum offset inoLogAddr _ := do
    return (← get).readFileBlock inoNum offset inoLogAddr
  writeFileBlock _ _ _ _ := return -1
  fsReadBlock logAddr := do return (0, (← get).fsReadBlock logAddr)
  findEmptySparseBlock _ := return ⟨-1, 0, by
    have h : Config.powPageSize ≤ 31 := FsConfig.powPageSize_le.trans (by decide)
    have := Nat.pow_le_pow_right (show 0 < 2 by decide) h
    unfold inodeFileDataSize pageSize
    omega⟩
  findNextNonEmptySparseBlock inoAddr offset := do
    return ((← get).findNextNonEmptySparseBlock inoAddr offset).result
  setNewInode _ _ _ _ := return -1
  commitInode _ := return -1
  cacheFlushTransactionBlocks _ := return -1
  commitInodeToInode0 addr _ _ _ := return (-1, addr)
  writeDirEntry _ _ _ _ := return -1
  deleteDirEntry _ _ _ := return -1
  verifyDirectoryEmpty inoNum := do
    let m ← get
    return m.verifyDirectoryEmpty m.behindFsBuffer inoNum
  votFile _ := return -1

end NandFs
