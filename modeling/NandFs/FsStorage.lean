import NandFs.FsState
import NandFs.Counters

/-! # What the calls ask of the stored files

`Storage` is the interface of the calls to the inodes, directories and transactions: a state
and, for each routine of `fsUtils.c` and `transactions.c` that a call uses, the program that
stands for it.  A routine that fills a buffer or an out parameter returns it with its result.
-/
namespace NandFs

section
variable [Config]

/-! ## Sizes of `fs.h` -/

/-- `FS_BLOCK_SIZE` -/
def fsBlockSize : Int := pageSize

/-- `INODE_FILE_DATA_SIZE`: what the type, three counts and thirteen addresses leave of the
inode's page. -/
def inodeFileDataSize : Int := pageSize - 65

/-- `FS_MAX_FILESIZE` -/
def fsMaxFilesize : Int := pageCount * pageSize

/-- `CALC_OFFSET_IN_FILE_BLOCK` -/
def calcOffsetInFileBlock (offset : Int) : Int :=
  if inodeFileDataSize ≤ offset then (offset - inodeFileDataSize) % fsBlockSize else 0

/-- `DIRECTORY_FIRST_ENTRY_OFFSET` -/
def directoryFirstEntryOffset : Int := inodeFileDataSize

/-- `FS_MAX_NAME_LEN`: the 256 bytes of a `nandfs_dirent` but for its fields and the
terminator. -/
def fsMaxNameLen : Nat := 246

/-- `INODE_GET_NBYTES` -/
def inodeGetNbytes (inode : Block) : BitVec 32 := BitVec.ofNat 32 (getUint32 inode.byte (pageSize - 64))

/-! ## What the routines return -/

/-- The inode number `namei` returns, the type and the place of the entry. -/
structure NameiResult where
  inoNum : BitVec 32
  fType : Nat
  deOffset : Int

/-- The result of `readFileBlock`, the buffer it fills and the inode address it leaves. -/
structure BlockRead where
  res : Int
  block : Block
  inoAddr : LogAddr

/-- The result of `verifyPrefix`, the directory and the place of the name in the path. -/
structure PrefixResult where
  res : Int
  dirNum : BitVec 32
  nameOffset : Nat

/-- The result of `findEmptySparseBlock` on inode 0.  The offset it finds, an `int32_t`, is
`blocks` whole blocks after the data kept in the inode. -/
structure HoleResult where
  res : Int
  blocks : Nat
  offset_lt : inodeFileDataSize + blocks * fsBlockSize < 2 ^ 31

/-- The result of `findNextNonEmptySparseBlock`, the block and its offset in the file. -/
structure NextBlockResult where
  res : Int
  blockAddr : LogAddr
  offset : Int

/-- The record of a transaction as far as the calls set it. -/
inductive TransactionField
  | type
  | ino
  | fileOffset
  | fileSize
  | fType

/-- Which address of inode 0 a commit starts from: the global one, or the copy a call holds. -/
inductive Ino0Addr
  | global
  | copy (addr : LogAddr)

/-- `T_TYPE_WRITE` -/
def tTypeWrite : Int := 1

/-- `T_TYPE_UNLINK` -/
def tTypeUnlink : Int := 2

/-- The routines under the calls, over the state `σ` of the chip and the transactions. -/
class Storage (σ : Type) where
  namei : Path → EStateM Halt σ NameiResult
  verifyPrefix : Path → (tid : Int) → EStateM Halt σ PrefixResult
  getFileSize : (inoNum : BitVec 32) → EStateM Halt σ Int
  getFileBlocks : (inoNum : BitVec 32) → EStateM Halt σ Int
  nandReadID : EStateM Halt σ Nat
  ino0Addr : EStateM Halt σ LogAddr
  findTidByFileId : (inoNum : BitVec 32) → EStateM Halt σ Int
  getTidByFileId : (inoNum : BitVec 32) → EStateM Halt σ Int
  getFreeTransactionId : EStateM Halt σ Int
  isTransactionEmpty : (tid : Int) → EStateM Halt σ Bool
  initTransaction : (tid : Int) → EStateM Halt σ Unit
  transactionSet : TransactionField → (tid : Int) → (val : Int) → EStateM Halt σ Unit
  transactionGetInoAddr : (tid : Int) → EStateM Halt σ LogAddr
  transactionSetInoAddr : (tid : Int) → LogAddr → EStateM Halt σ Unit
  transactionGetWasCommited : (tid : Int) → EStateM Halt σ Bool
  transactionSetWasCommited : (tid : Int) → Bool → EStateM Halt σ Unit
  abortTransaction : (tid : Int) → EStateM Halt σ Int
  commitTransaction : (tid : Int) → Ino0Addr → EStateM Halt σ Int
  readFileBlock : (inoNum : BitVec 32) → (offset : Int) → (inoLogAddr : LogAddr) → (tid : Int) →
    EStateM Halt σ BlockRead
  /-- `writeFileBlock` of regular data, from the transaction's buffer -/
  writeFileBlock : (blockOffset len : Int) → (tid : Int) → Block → EStateM Halt σ Int
  fsReadBlock : LogAddr → EStateM Halt σ (Int × Block)
  findEmptySparseBlock : (tid : Int) → EStateM Halt σ HoleResult
  findNextNonEmptySparseBlock : (inoAddr : LogAddr) → (offset : Int) →
    EStateM Halt σ NextBlockResult
  setNewInode : (fId parentFId : BitVec 32) → (fType : Nat) → (tid : Int) → EStateM Halt σ Int
  commitInode : (tid : Int) → EStateM Halt σ Int
  cacheFlushTransactionBlocks : (tid : Int) → EStateM Halt σ Int
  commitInodeToInode0 : (ino0LogAddr : LogAddr) → (inoNum : BitVec 32) → (inoLogAddr : LogAddr) →
    (tid : Int) → EStateM Halt σ (Int × LogAddr)
  writeDirEntry : (inoNum : BitVec 32) → (name : Path) → (fType : Nat) → (tid : Int) →
    EStateM Halt σ Int
  deleteDirEntry : (inoNum : BitVec 32) → (deOffset : Int) → (tid : Int) → EStateM Halt σ Int
  verifyDirectoryEmpty : (inoNum : BitVec 32) → EStateM Halt σ (Int × Bool)
  votFile : (tid : Int) → EStateM Halt σ Int

variable {σ α : Type}

/-- A routine under the calls, which leaves the tables and the mutex alone. -/
def onStorage (m : EStateM Halt σ α) : FsM σ α := fun s =>
  match m s.storage with
  | .ok a t => .ok a { s with storage := t }
  | .error e t => .error (.halt e) { s with storage := t }

/-- `getInode`: the block of inode 0's file that holds the inode. -/
def getInode [Storage σ] (inoNum : BitVec 32) (inoLogAddr : LogAddr) : EStateM Halt σ BlockRead :=
  Storage.readFileBlock 0 (inodeFileDataSize + (inoNum.toInt - 1) * fsBlockSize) inoLogAddr tidEmpty

end

/-! ## A tree that only looks up

The names of a chip that is never written to: what a name refers to is looked up in a list,
every block reads as erased, and no transaction is free.
-/

section FixedFiles

attribute [local instance] smallPage

/-- `FS_ERROR_NON_EXISTING_HOLE`, for a name that is not there -/
def nameNotFound : NameiResult := ⟨BitVec.ofInt 32 (-12), ftypeDir, 0⟩

abbrev FixedFiles := List (Path × NameiResult)

instance fixedFiles : Storage FixedFiles where
  namei path := do return ((← get).lookup path).getD nameNotFound
  verifyPrefix _ _ := return ⟨-1, 0, 0⟩
  getFileSize _ := return 0
  getFileBlocks _ := return 1
  nandReadID := return 0
  ino0Addr := return ⟨0, 1⟩
  findTidByFileId _ := return tidEmpty
  getTidByFileId _ := return tidEmpty
  getFreeTransactionId := return tidEmpty
  isTransactionEmpty _ := return false
  initTransaction _ := return
  transactionSet _ _ _ := return
  transactionGetInoAddr _ := return LogAddr.empty
  transactionSetInoAddr _ _ := return
  transactionGetWasCommited _ := return false
  transactionSetWasCommited _ _ := return
  abortTransaction _ := return 0
  commitTransaction _ _ := return -1
  readFileBlock _ _ inoAddr _ := return ⟨0, initBuf.main, inoAddr⟩
  writeFileBlock _ _ _ _ := return -1
  fsReadBlock _ := return (0, initBuf.main)
  findEmptySparseBlock _ := return ⟨-1, 0, by decide⟩
  findNextNonEmptySparseBlock inoAddr offset := return ⟨fsErrorOfstOvrflw, inoAddr, offset⟩
  setNewInode _ _ _ _ := return -1
  commitInode _ := return -1
  cacheFlushTransactionBlocks _ := return 0
  commitInodeToInode0 addr _ _ _ := return (-1, addr)
  writeDirEntry _ _ _ _ := return -1
  deleteDirEntry _ _ _ := return -1
  verifyDirectoryEmpty _ := return (-1, false)
  votFile _ := return -1

end FixedFiles

end NandFs
