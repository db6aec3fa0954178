import NandFs.FsStorage

/-! # Vnodes, open-file entries and directory streams

The routines of `fsUtils.c` that keep the three tables: how an entry is opened, shared by
`dup`, released by `close`, and held by a directory stream.
-/
namespace NandFs

/-- The loop by which a table is searched: the first of the indices below `n` at which `test`
holds, or -1. -/
def firstIndex (n : Nat) (test : Int → Bool) : Int :=
  match (List.range n).find? fun i : Nat => test i with
  | some i => i
  | none => -1

namespace FileTables

/-- `IS_OPEN_FILE_ENTRY_EMPTY` -/
def isOpenFileEntryEmpty (s : FileTables) (fd : Int) : Bool :=
  (s.openFiles fd).vnode == vnodeEmpty

/-- `IS_USER_LEGAL` -/
def isUserLegal (s : FileTables) (fd : Int) : Bool := (s.openFiles fd).uid == s.currentUser

/-- `GET_FILE_ID_BY_FD` -/
def getFileIdByFd (s : FileTables) (fd : Int) : BitVec 32 :=
  if s.isOpenFileEntryEmpty fd then inoNumEmpty else (s.vnodes (s.openFiles fd).vnode).inoNum

/-- `IS_FD_LEGAL` -/
def isFdLegal (fd : Int) : Bool := decide (0 ≤ fd) && decide (fd < fsMaxOpenFiles)

def setVnode (s : FileTables) (vnodeIdx : Int) (v : Vnode) : FileTables :=
  { s with vnodes := Function.update s.vnodes vnodeIdx v }

/-- `open_files[fd]`.  The table lies behind `vnodes`, from the next multiple of 32 bytes on, so
that `open_files[-2]` is `vnodes[3]`, `vnodes[4]` and the inode number of `vnodes[5]`. -/
def openFile (s : FileTables) (fd : Int) : OpenFile :=
  if fd = fsErrorFentryMax then
    ⟨(s.vnodes 3).inoNum, (s.vnodes 3).nReferences, (s.vnodes 4).inoNum.toInt,
      (BitVec.ofNat 32 (s.vnodes 4).nReferences).toInt, (s.vnodes 5).inoNum.toNat⟩
  else s.openFiles fd

/-- Writes `open_files[fd]`. -/
def setOpenFile (s : FileTables) (fd : Int) (f : OpenFile) : FileTables :=
  if fd = fsErrorFentryMax then
    let s := s.setVnode 3 ⟨f.flags, f.uid⟩
    let s := s.setVnode 4 ⟨BitVec.ofInt 32 f.offset, (BitVec.ofInt 32 f.vnode).toNat⟩
    s.setVnode 5 { s.vnodes 5 with inoNum := BitVec.ofNat 32 f.fType }
  else { s with openFiles := Function.update s.openFiles fd f }

def setDirstream (s : FileTables) (ds : DirstreamId) (d : DirStream) : FileTables :=
  { s with dirstreams := Function.update s.dirstreams ds d }

/-- `OPEN_FILE_SET_OFFSET` -/
def openFileSetOffset (s : FileTables) (fd : Int) (val : Int) : FileTables :=
  s.setOpenFile fd { s.openFile fd with offset := val }

/-- `OPEN_FILE_INC_OFFSET` -/
def openFileIncOffset (s : FileTables) (fd : Int) (val : Int) : FileTables :=
  s.openFileSetOffset fd ((s.openFile fd).offset + val)

/-- `VNODE_DECREMENT_NREFS`, in 32 bits -/
def vnodeDecrementNrefs (s : FileTables) (vnodeIdx : Int) : FileTables :=
  s.setVnode vnodeIdx
    { s.vnodes vnodeIdx with nReferences := ((s.vnodes vnodeIdx).nReferences + 0xffffffff) % 2 ^ 32 }

/-- `VNODE_INCREMENT_NREFS`, in 32 bits -/
def vnodeIncrementNrefs (s : FileTables) (vnodeIdx : Int) : FileTables :=
  s.setVnode vnodeIdx
    { s.vnodes vnodeIdx with nReferences := ((s.vnodes vnodeIdx).nReferences + 1) % 2 ^ 32 }

/-- `VNODE_SET_INO_NUM` -/
def vnodeSetInoNum (s : FileTables) (vnodeIdx : Int) (inoNum : BitVec 32) : FileTables :=
  s.setVnode vnodeIdx { s.vnodes vnodeIdx with inoNum := inoNum }

def verifyFd (s : FileTables) (fd : Int) : Int :=
  if !isFdLegal fd then -1
  else if s.isOpenFileEntryEmpty fd then -1
  else if !s.isUserLegal fd then -1
  else 0

def getVnodeByInodeNum (s : FileTables) (inoNum : BitVec 32) : Int :=
  firstIndex fsMaxVnodes fun i => (s.vnodes i).inoNum == inoNum

/-- `getFreeVnode` -/
def getFreeVnode (s : FileTables) : Int := s.getVnodeByInodeNum inoNumEmpty

def getFreeOpenFileEntry (s : FileTables) : Int :=
  firstIndex fsMaxOpenFiles fun i => s.isOpenFileEntryEmpty i

/-- What `isFlagsConflict` asks of one entry of the vnode. -/
def conflictsWith (s : FileTables) (flags : BitVec 32) (entry : OpenFile) : Bool :=
  -- reading a file that another user is writing
  (isRdonly flags && isWronly entry.flags && s.currentUser != entry.uid) ||
  -- writing a file open by another user, or already open for writing
  (isWronly flags && (s.currentUser != entry.uid || isWronly entry.flags))

def isFlagsConflict (s : FileTables) (vnodeIdx : Int) (flags : BitVec 32) : Bool :=
  (List.range fsMaxOpenFiles).any fun i : Nat =>
    (s.openFiles i).vnode == vnodeIdx && s.conflictsWith flags (s.openFiles i)

/-- `verifyFileNotOpen`: 0 if no entry is open on the file, -1 otherwise. -/
def verifyFileNotOpen (s : FileTables) (inoNum : BitVec 32) : Int :=
  if (List.range fsMaxOpenFiles).all fun i : Nat =>
    s.isOpenFileEntryEmpty i || s.getFileIdByFd i != inoNum then 0 else -1

def setFentry (s : FileTables) (fd : Int) (flags : BitVec 32) (offset vnodeIdx : Int)
    (fType : Nat) (inoNum : BitVec 32) : FileTables :=
  let s := s.setOpenFile fd ⟨flags, s.currentUser, offset, vnodeIdx, fType⟩
  let s := s.vnodeSetInoNum vnodeIdx inoNum
  s.vnodeIncrementNrefs vnodeIdx

/-- The end of `closeUtil`: the entry gives up its reference, and the vnode is initialised
with the last one. -/
def releaseFentry (s : FileTables) (fd : Int) : FileTables :=
  let vnodeIdx := (s.openFiles fd).vnode
  let s := s.vnodeDecrementNrefs vnodeIdx
  let s := if (s.vnodes vnodeIdx).nReferences = 0 then s.setVnode vnodeIdx initVnode else s
  s.setOpenFile fd initFileEntry

/-- `init_dirstream` -/
def closeDirstream (s : FileTables) (ds : DirstreamId) : FileTables :=
  let fd := (s.dirstreams ds).fd
  let s :=
    if fd = fdEmpty then s
    else
      let vnodeIdx := (s.openFile fd).vnode
      let s :=
        if (s.vnodes vnodeIdx).nReferences = 1 then s.setVnode vnodeIdx initVnode
        else s.vnodeDecrementNrefs vnodeIdx
      s.setOpenFile fd initFileEntry
  s.setDirstream ds initDirStream

/-- `getFreeDirstreamId`: the first stream whose descriptor is negative. -/
def getFreeDirstreamId (s : FileTables) : Option DirstreamId :=
  (List.finRange fsMaxOpenDirestreams).find? fun ds => decide ((s.dirstreams ds).fd < 0)

/-- `verifyDirstream`; `none` is `NULL`. -/
def verifyDirstream (s : FileTables) (ds : Option DirstreamId) : Bool :=
  match ds with
  | none => false
  | some ds => !decide ((s.dirstreams ds).fd < 0) && s.isUserLegal (s.dirstreams ds).fd

/-! ## The tables after booting -/

/-- `init_file_entries` -/
def initFileEntries (s : FileTables) : FileTables :=
  { s with openFiles := fun fd => if isFdLegal fd then initFileEntry else s.openFiles fd }

/-- `init_vnodes` -/
def initVnodes (s : FileTables) : FileTables :=
  { s with vnodes := fun v =>
      if decide (0 ≤ v) && decide (v < fsMaxVnodes) then initVnode else s.vnodes v }

/-- `init_distreams` -/
def initDistreams (s : FileTables) : FileTables :=
  (List.finRange fsMaxOpenDirestreams).foldl closeDirstream s

/-- The tables as `initializeRamStructs` leaves them. -/
def initializeRamStructs (s : FileTables) : FileTables :=
  s.initFileEntries.initVnodes.initDistreams

/-- The globals before the first call: all zero. -/
def zeroed : FileTables where
  vnodes _ := ⟨0, 0⟩
  openFiles _ := ⟨0, 0, 0, 0, 0⟩
  dirstreams _ := ⟨0, ⟨0, 0⟩, fun _ => 0⟩
  currentUser := 0

/-! ## Entries of the table -/

section Legal
variable {s : FileTables} {fd : Int}

theorem ne_fentryMax (hfd : isFdLegal fd = true) : fd ≠ fsErrorFentryMax := by
  rintro rfl
  cases hfd

theorem ne_fdEmpty (hfd : isFdLegal fd = true) : fd ≠ fdEmpty := by
  rintro rfl
  cases hfd

/-- But for the one that lies over the vnodes an entry is memory of its own. -/
theorem openFile_of_ne (hfd : fd ≠ fsErrorFentryMax) : s.openFile fd = s.openFiles fd := if_neg hfd

theorem setOpenFile_of_ne (hfd : fd ≠ fsErrorFentryMax) (f : OpenFile) :
    s.setOpenFile fd f = { s with openFiles := Function.update s.openFiles fd f } := if_neg hfd

theorem openFileSetOffset_of_ne (hfd : fd ≠ fsErrorFentryMax) (val : Int) :
    s.openFileSetOffset fd val = { s with
      openFiles := Function.update s.openFiles fd { s.openFiles fd with offset := val } } := by
  rw [openFileSetOffset, setOpenFile_of_ne hfd, openFile_of_ne hfd]

theorem openFileIncOffset_of_ne (hfd : fd ≠ fsErrorFentryMax) (val : Int) :
    s.openFileIncOffset fd val = s.openFileSetOffset fd ((s.openFiles fd).offset + val) := by
  rw [openFileIncOffset, openFile_of_ne hfd]

/-- Nor does the descriptor of a stream that is open lie there. -/
theorem ne_fentryMax_of_verifyDirstream {ds : DirstreamId}
    (h : s.verifyDirstream (some ds) = true) : (s.dirstreams ds).fd ≠ fsErrorFentryMax := by
  intro hfd
  simp only [verifyDirstream, hfd] at h
  cases h

theorem verifyFd_eq_zero (h : s.verifyFd fd = 0) :
    isFdLegal fd = true ∧ s.isOpenFileEntryEmpty fd = false ∧ s.isUserLegal fd = true := by
  unfold verifyFd at h
  cases hlegal : isFdLegal fd <;> cases hempty : s.isOpenFileEntryEmpty fd <;>
    cases huser : s.isUserLegal fd <;> simp_all

end Legal

end FileTables

/-- The file system as booting leaves it, on the given storage. -/
def FileSystem.booted {σ : Type} (storage : σ) : FileSystem σ where
  tables := FileTables.zeroed.initializeRamStructs
  mutex := false
  strayUnlock := false
  afterFsBuffer _ := 0
  storage := storage

section
variable {σ : Type} [Config] [Storage σ]

open FileTables

/-- The vnode an open of the file will use, or `VNODE_EMPTY` with the error to return: `-1`
for a conflict with the entries there are, and for a table with no free vnode. -/
def chooseVnode (s : FileTables) (inoNum : BitVec 32) (flags : BitVec 32) : Int :=
  let vnodeIdx := s.getVnodeByInodeNum inoNum
  if vnodeIdx ≠ vnodeEmpty then
    if s.isFlagsConflict vnodeIdx flags then vnodeEmpty else vnodeIdx
  else s.getFreeVnode

/-- `setOpenFentry`; the mode is not looked at. -/
def setOpenFentry (inoNum : BitVec 32) (flags : BitVec 32) (_mode : Nat) (fType : Nat) :
    FsM σ Int := do
  if isCreatExcl flags then return fdEmpty
  if isDirectory fType && isWronly flags then return fdEmpty
  if isAppend flags && !isWronly flags then return -1
  let s ← getTables
  let vnodeIdx := chooseVnode s inoNum flags
  if vnodeIdx = vnodeEmpty then return -1
  let fd := s.getFreeOpenFileEntry
  if fd = fdEmpty then return fsErrorFentryMax
  modifyTables fun s => s.setFentry fd flags 0 vnodeIdx fType inoNum
  if isAppend flags then
    let offset ← onStorage (Storage.getFileSize inoNum)
    modifyTables fun s => s.openFileSetOffset fd offset
    return fd
  else return fd

/-- The commit in `closeUtil`: of the file's transaction, if the entry may write. -/
def commitWritten (fd : Int) : FsM σ Int := do
  let s ← getTables
  if isWronly (s.openFiles fd).flags then
    let tid ← onStorage (Storage.findTidByFileId (s.getFileIdByFd fd))
    if tid = tidEmpty then pure 0 else onStorage (Storage.commitTransaction tid .global)
  else pure 0

def closeUtil (fd : Int) : FsM σ Int := do
  if (← getTables).verifyFd fd ≠ 0 then return -1
  if (← commitWritten fd) ≠ 0 then return -1
  modifyTables fun s => s.releaseFentry fd
  return 0

/-- "make empty new_fd" of `dupUtil` -/
def makeEmpty (newFd : Int) : FsM σ Int := do
  if (← getTables).isOpenFileEntryEmpty newFd then return 0 else closeUtil newFd

/-- `dupUtil` from where the new descriptor is known. -/
def dupOnto (oldFd newFd : Int) : FsM σ Int := do
  let s ← getTables
  if s.verifyFd oldFd ≠ 0 then return -1
  if !isFdLegal newFd then return -1
  if s.isFlagsConflict (s.openFiles oldFd).vnode (s.openFiles oldFd).flags then return -1
  if (← makeEmpty newFd) ≠ 0 then return -1
  -- the old entry is read again, after the new one has been closed
  modifyTables fun s => s.setFentry newFd (s.openFiles oldFd).flags (s.openFiles oldFd).offset
    (s.openFiles oldFd).vnode (s.openFiles oldFd).fType (s.getFileIdByFd oldFd)
  return newFd

def dupUtil (oldFd newFd : Int) (isDup2 : Bool) : FsM σ Int := do
  if isDup2 then dupOnto oldFd newFd
  else
    let s ← getTables
    if s.getFreeOpenFileEntry = fdEmpty then return -1
    dupOnto oldFd s.getFreeOpenFileEntry

def fsyncUtil (fd : Int) : FsM σ Int := do
  let s ← getTables
  if s.verifyFd fd ≠ 0 then return -1
  let tid ← onStorage (Storage.findTidByFileId (s.getFileIdByFd fd))
  if tid = tidEmpty then return 0
  if (← onStorage (Storage.commitTransaction tid .global)) ≠ 0 then return -1
  return 0

end

end NandFs
