import NandFs.State
import NandFs.Program

/-! # The state of the file system calls

The globals of `globals.c` behind the calls of `fs.c`: the mutex, the vnodes, the open-file
entries and the directory streams.  An index of `vnodes` and `open_files` is an integer, as in
the source, which does reach past the tables: `open_files[-2]` lies in the last vnodes, and what
else lies outside a table (`vnodes[-1]`) is memory of its own here.

What the calls ask of the inodes, directories and transactions goes through `Storage`, one
field for each routine of `fsUtils.c` and `transactions.c`.  These never touch the tables or
the mutex, and nothing is assumed of what they answer, so a result holds whatever is stored.
-/
namespace NandFs

/-- `FS_MAX_VNODES` -/
def fsMaxVnodes : Nat := 6

/-- `FS_MAX_OPEN_FILES` -/
def fsMaxOpenFiles : Nat := 8

/-- `FS_MAX_OPEN_DIRESTREAMS` -/
def fsMaxOpenDirestreams : Nat := 2

/-- `INO_NUM_EMPTY` -/
def inoNumEmpty : BitVec 32 := 0xffffffff#32

/-- `IS_NEGATIVE` of an inode number -/
def isNegative (inoNum : BitVec 32) : Bool := inoNum.msb

/-- `VNODE_EMPTY` -/
def vnodeEmpty : Int := -1

/-- `FD_EMPTY` -/
def fdEmpty : Int := -1

/-- `FS_ERROR_FENTRY_MAX` -/
def fsErrorFentryMax : Int := -2

/-- `FS_ERROR_IO` -/
def fsErrorIo : Int := -1

/-- `FS_ERROR_OFST_OVRFLW` -/
def fsErrorOfstOvrflw : Int := -4

/-- `TID_EMPTY` -/
def tidEmpty : Int := -1

/-- A user, `user_id`. -/
abbrev UserId := Nat

/-- `UID_EMPTY` -/
def uidEmpty : UserId := 0

/-- `FTYPE_EMPTY` -/
def ftypeEmpty : Nat := 0

/-- `FTYPE_DIR` -/
def ftypeDir : Nat := 1

/-- `FTYPE_FILE` -/
def ftypeFile : Nat := 2

/-- `IS_DIRECTORY` -/
def isDirectory (fType : Nat) : Bool := fType == ftypeDir

/-! ## Open flags -/

/-- `NANDFS_O_RDONLY` -/
def oRdonly : BitVec 32 := 0x00000001#32

/-- `NANDFS_O_WRONLY` -/
def oWronly : BitVec 32 := 0x00000010#32

/-- `NANDFS_O_APPEND` -/
def oAppend : BitVec 32 := 0x00000100#32

/-- `NANDFS_O_CREAT` -/
def oCreat : BitVec 32 := 0x00001000#32

/-- `NANDFS_O_EXCL` -/
def oExcl : BitVec 32 := 0x00010000#32

/-- `CREAT_FLAGS` -/
def creatFlags : BitVec 32 := oCreat ||| oWronly

/-- `IS_RDONLY` -/
def isRdonly (flags : BitVec 32) : Bool := flags &&& oRdonly != 0

/-- `IS_WRONLY` -/
def isWronly (flags : BitVec 32) : Bool := flags &&& oWronly != 0

/-- `IS_APPEND` -/
def isAppend (flags : BitVec 32) : Bool := flags &&& oAppend != 0

/-- `IS_CREAT` -/
def isCreat (flags : BitVec 32) : Bool := flags &&& oCreat != 0

/-- `IS_EXCL` -/
def isExcl (flags : BitVec 32) : Bool := flags &&& oExcl != 0

/-- `IS_CREAT_EXCL` -/
def isCreatExcl (flags : BitVec 32) : Bool := isExcl flags && isCreat flags

/-! ## The tables -/

/-- `vnode_t` -/
structure Vnode where
  inoNum : BitVec 32
  nReferences : Nat

/-- `init_vnode` -/
def initVnode : Vnode := ⟨inoNumEmpty, 0⟩

/-- `open_file_t` -/
structure OpenFile where
  flags : BitVec 32
  uid : UserId
  offset : Int
  vnode : Int
  fType : Nat

/-- `init_file_entry` -/
def initFileEntry : OpenFile := ⟨0, uidEmpty, 0, vnodeEmpty, ftypeEmpty⟩

/-- `fs_dirstream`, with the bytes of its `nandfs_dirent`. -/
structure DirStream where
  fd : Int
  inoAddr : LogAddr
  de : Nat → UInt8

/-- What `init_struct` leaves of a directory stream. -/
def initDirStream : DirStream := ⟨fdEmpty, LogAddr.empty, fun _ => 0xff⟩

/-- The pointers to the entries of `dirstreams`; a call may also be given `NULL`. -/
abbrev DirstreamId := Fin fsMaxOpenDirestreams

/-- The three tables, with the user of the running process. -/
structure FileTables where
  vnodes : Int → Vnode
  openFiles : Int → OpenFile
  dirstreams : DirstreamId → DirStream
  currentUser : UserId

/-- The globals of the calls.  `strayUnlock` is not in the source: it records that
`FS_MUTEX_UNLOCK` was reached with the mutex free.  `afterFsBuffer` is the memory that follows
`fs_buffer`. -/
structure FileSystem (σ : Type) where
  tables : FileTables
  mutex : Bool
  strayUnlock : Bool
  afterFsBuffer : Nat → UInt8
  storage : σ

/-- Why a call does not return: something under it stopped, or a loop has gone round more
often than it was given rounds. -/
inductive Stop
  | halt (h : Halt)
  | endless
  deriving DecidableEq, Repr

abbrev FsM (σ : Type) := EStateM Stop (FileSystem σ)

variable {σ : Type}

def getTables : FsM σ FileTables := do return (← get).tables

def modifyTables (f : FileTables → FileTables) : FsM σ Unit :=
  modify fun s => { s with tables := f s.tables }

/-- A path name, without the terminator. -/
abbrev Path := List UInt8

end NandFs
