import NandFs.NextBlock
import NandFs.Cursor
import NandFs.FsRules

/-! # Directories and the stream that reads them

What a block of a directory holds, what `readdir` answers with as a cursor over the offsets of
the directory, and that the calls of `nandfs_readdir` on an open stream are the answers of
that cursor.
-/
namespace NandFs

open Program

section Entries
variable [Config]

/-- The bytes of an entry, its fields and the name with the terminator. -/
abbrev Record := List UInt8

/-- The bytes `DIRENT_GET_LEN` says there are. -/
def recordOf (de : Nat → UInt8) : Record := (List.range (direntGetLen de)).map de

omit [Config] in
theorem length_recordOf (de : Nat → UInt8) : (recordOf de).length = direntGetLen de := by
  rw [recordOf, List.length_map, List.length_range]

/-- The bytes of a block from a place on. -/
def blockAt (b : Block) (p : Nat) : Nat → UInt8 := fun j => b.byte (p + j)

/-- The block holds these entries from place `p` on and is erased after them.  Entries are
added where a `nandfs_dirent` is left after them, and removed by moving up what follows. -/
inductive HoldsEntries (b : Block) : Nat → List Record → Prop
  | erased {p : Nat} (hp : p < pageSize) (h : ∀ k, p ≤ k → k < pageSize → b.byte k = 0xff) :
      HoldsEntries b p []
  | entry {p : Nat} {es : List Record} (hne : isDirentEmpty (blockAt b p) = false)
      (hpos : 0 < direntGetLen (blockAt b p)) (hlen : direntGetLen (blockAt b p) ≤ 256)
      (hp : p + 256 < pageSize) (hrest : HoldsEntries b (p + direntGetLen (blockAt b p)) es) :
      HoldsEntries b p (recordOf (blockAt b p) :: es)

omit [Config] in
theorem getUint32_congr {f g : Nat → UInt8} {i : Nat} (h : ∀ j, i ≤ j → j < i + 4 → f j = g j) :
    getUint32 f i = getUint32 g i := by
  rw [getUint32, getUint32, h i (by omega) (by omega), h (i + 1) (by omega) (by omega),
    h (i + 2) (by omega) (by omega), h (i + 3) (by omega) (by omega)]

variable {b : Block} {after : Nat → UInt8} {p : Nat}

theorem direntAt_eq {j : Nat} (h : p + j < pageSize) : direntAt b after p j = blockAt b p j := by
  have hk : ((p : Int) + j).toNat = p + j := by omega
  simp only [direntAt, hk, if_pos h, blockAt]

variable (after) in
theorem direntGetLen_direntAt (hp : p + 256 ≤ pageSize) :
    direntGetLen (direntAt b after p) = direntGetLen (blockAt b p) :=
  getUint32_congr fun j _ hj => direntAt_eq (by omega)

theorem isDirentEmpty_direntAt (hp : p + 5 ≤ pageSize) :
    isDirentEmpty (direntAt b after p) = isDirentEmpty (blockAt b p) := by
  have hino : getUint32 (direntAt b after p) 1 = getUint32 (blockAt b p) 1 :=
    getUint32_congr fun j _ hj => direntAt_eq (by omega)
  rw [isDirentEmpty, direntGetInoNum, hino, isDirentEmpty, direntGetInoNum]

variable (after) in
theorem recordOf_direntAt (hp : p + 256 ≤ pageSize) (hlen : direntGetLen (blockAt b p) ≤ 256) :
    recordOf (direntAt b after p) = recordOf (blockAt b p) := by
  rw [recordOf, direntGetLen_direntAt after hp, recordOf]
  refine List.map_congr_left fun j hj => direntAt_eq ?_
  have := List.mem_range.mp hj
  omega

theorem isDirentEmpty_erased (h : ∀ k, p ≤ k → k < pageSize → b.byte k = 0xff) :
    isDirentEmpty (blockAt b p) = true := by
  have hbyte : ∀ j, blockAt b p j = 0xff := by
    intro j
    rcases Nat.lt_or_ge (p + j) pageSize with hlt | hge
    · exact h _ (Nat.le_add_right p j) hlt
    · exact dif_neg (Nat.not_lt_of_le hge)
  rw [isDirentEmpty, direntGetInoNum, getUint32, hbyte, hbyte, hbyte, hbyte]
  decide

end Entries

variable [FsConfig]

namespace StoredFiles
variable (m : StoredFiles) (after : Nat → UInt8) (inoNum : BitVec 32) (a : LogAddr)

/-- What `readDirStreamNextEntry` answers with from the next block, and the offset after it. -/
def fromNextBlock (offset : Int) : Option (Record × Int) :=
  match m.findNextNonEmptySparseBlock a offset with
  | .error _ => none
  | .ok (blockAddr, offset) =>
    let de := direntAt (m.fsReadBlock blockAddr) after 0
    some (recordOf de, offset + direntGetLen de)

/-- What `readDirStreamNextEntry` answers with at an offset, and the offset after it. -/
def nextEntry (offset : Int) : Option (Record × Int) :=
  if isDirentBlockFull offset then m.fromNextBlock after a offset
  else
    let read := m.readFileBlock inoNum offset a
    if read.res ≠ 0 then none
    else
      let de := direntAt read.block after (calcOffsetInFileBlock offset)
      if isDirentEmpty de then m.fromNextBlock after a offset
      else some (recordOf de, offset + direntGetLen de)

theorem readFileBlock_inoAddr {m : StoredFiles} {inoNum : BitVec 32} {a : LogAddr} {offset : Int}
    (hino : inoNum ≠ 0) (ha : isAddressEmpty a = false) :
    (m.readFileBlock inoNum offset a).inoAddr = a := by
  rw [readFileBlock, readInodeBlock, if_neg hino, ha, if_neg Bool.false_ne_true, readFileBlockOf]
  split
  · rfl
  · split
    · rfl
    · rw [if_neg (by simp), readFromInode]
      split
      · rfl
      · split
        · rfl
        · exact if_neg fun hand => hino hand.1

/-- The errors of a search are not taken for success. -/
def Search.Fine : Search → Prop
  | .ok _ => True
  | .error res => res ≠ 0

section Fine
variable {m : StoredFiles} {a : LogAddr} {offset : Int}

theorem fine_find (blockAddr : LogAddr) (entryOffset offset size : Int) :
    (m.findNonEmptyDirectEntry blockAddr entryOffset offset size).Fine := by
  unfold findNonEmptyDirectEntry
  dsimp only
  split
  · exact Int.neg_ne_zero.mpr one_ne_zero
  · split
    · trivial
    · exact Int.neg_ne_zero.mpr one_ne_zero

omit [FsConfig] in
theorem fine_bind {s : Search} {next : LogAddr × Int → Search} (h : s.Fine)
    (hnext : ∀ found, (next found).Fine) : Search.Fine (s >>= next) := by
  cases s with
  | error res => exact h
  | ok found => exact hnext found

theorem fine_findFromTriple (inode : Block) (offset : Int) :
    (m.findFromTriple inode offset).Fine := by
  unfold findFromTriple
  split
  · exact (by decide : fsErrorOfstOvrflw ≠ 0)
  · exact fine_bind (fine_find ..) fun _ => fine_bind (fine_find ..) fun _ => fine_find ..

theorem fine_findFromDouble (inode : Block) (offset : Int) :
    (m.findFromDouble inode offset).Fine := by
  unfold findFromDouble
  split
  · exact fine_findFromTriple ..
  · exact fine_bind (fine_find ..) fun _ => fine_find ..

theorem fine_findFromIndirect (inode : Block) (offset : Int) :
    (m.findFromIndirect inode offset).Fine := by
  unfold findFromIndirect
  split
  · exact fine_findFromDouble ..
  · exact fine_find ..

theorem fine_findNext : (m.findNextNonEmptySparseBlock a offset).Fine := by
  unfold findNextNonEmptySparseBlock
  dsimp only
  split
  · split
    · trivial
    · exact fine_findFromIndirect ..
  · split
    · exact fine_findFromIndirect ..
    · split
      · exact fine_findFromDouble ..
      · exact fine_findFromTriple ..

theorem error_ne_zero {res : Int} (h : m.findNextNonEmptySparseBlock a offset = .error res) :
    res ≠ 0 := by
  have hfine : (m.findNextNonEmptySparseBlock a offset).Fine := fine_findNext
  rw [h] at hfine
  exact hfine

end Fine

end StoredFiles

/-! ## The calls -/

/-- One call of `nandfs_readdir`, with the entry it leaves in the stream. -/
def readdirRecord (ds : DirstreamId) : FsM StoredFiles (Option Record) := do
  match ← nandfsReaddir (some ds) with
  | .stream ds => return some (recordOf ((← getTables).dirstreams ds).de)
  | _ => return none

/-- As many calls of `nandfs_readdir`, one after the other. -/
def readdirs (ds : DirstreamId) : Nat → FsM StoredFiles (List (Option Record))
  | 0 => return []
  | n + 1 => do
    let entry ← readdirRecord ds
    return entry :: (← readdirs ds n)

/-- The stream reads the directory whose inode is at `a`, and is at an offset. -/
structure AtOffset (m : StoredFiles) (after : Nat → UInt8) (inoNum : BitVec 32) (a : LogAddr)
    (ds : DirstreamId) (offset : Int) (s : FileSystem StoredFiles) : Prop where
  storage : s.storage = m
  afterFsBuffer : s.afterFsBuffer = after
  verified : s.tables.verifyDirstream (some ds) = true
  fileId : s.tables.getFileIdByFd (s.tables.dirstreams ds).fd = inoNum
  inoAddr : (s.tables.dirstreams ds).inoAddr = a
  at_offset : (s.tables.openFiles (s.tables.dirstreams ds).fd).offset = offset

namespace AtOffset
variable {m : StoredFiles} {after : Nat → UInt8} {inoNum : BitVec 32} {a : LogAddr}
  {ds : DirstreamId} {offset : Int} {s : FileSystem StoredFiles}

theorem mutex (h : AtOffset m after inoNum a ds offset s) (b : Bool) :
    AtOffset m after inoNum a ds offset { s with mutex := b } :=
  ⟨h.storage, h.afterFsBuffer, h.verified, h.fileId, h.inoAddr, h.at_offset⟩

/-- Writing the address back to the stream that it was read from changes nothing. -/
theorem setDirstream_self (h : AtOffset m after inoNum a ds offset s) :
    s.tables.setDirstream ds { s.tables.dirstreams ds with inoAddr := a } = s.tables := by
  rw [← h.inoAddr]
  exact congrArg (fun d => { s.tables with dirstreams := d }) (Function.update_eq_self ds _)

/-- `setDirstreamDirEntry` leaves the entry in the stream, with the offset after it. -/
theorem setDirstreamDirEntry (h : AtOffset m after inoNum a ds offset s) (de : Nat → UInt8)
    (at_ : Int) : ∃ t, setDirstreamDirEntry ds de at_ s = .ok () t ∧
      AtOffset m after inoNum a ds (at_ + direntGetLen de) t ∧ t.mutex = s.mutex ∧
      (t.tables.dirstreams ds).de = de := by
  have hfd := FileTables.ne_fentryMax_of_verifyDirstream h.verified
  refine ⟨_, rfl, ⟨h.storage, h.afterFsBuffer, ?_, ?_, ?_, ?_⟩, rfl, ?_⟩
  · have hv := h.verified
    simp only [FileTables.verifyDirstream, FileTables.isUserLegal] at hv ⊢
    simpa [FileTables.setDirstream, FileTables.openFileSetOffset_of_ne, hfd] using hv
  · have hf := h.fileId
    simp only [FileTables.getFileIdByFd, FileTables.isOpenFileEntryEmpty] at hf ⊢
    simpa [FileTables.setDirstream, FileTables.openFileSetOffset_of_ne, hfd] using hf
  · simpa [FileTables.setDirstream, FileTables.openFileSetOffset_of_ne, hfd] using h.inoAddr
  · simp [FileTables.setDirstream, FileTables.openFileSetOffset_of_ne, hfd]
  · simp [FileTables.setDirstream, FileTables.openFileSetOffset_of_ne, hfd]

/-- What a routine that reads an entry does to the stream, by what the cursor answers. -/
def Answered (m : StoredFiles) (after : Nat → UInt8) (inoNum : BitVec 32) (a : LogAddr)
    (ds : DirstreamId) (offset : Int) (s : FileSystem StoredFiles) (res : Int)
    (t : FileSystem StoredFiles) : Option (Record × Int) → Prop
  | none => res ≠ 0 ∧ AtOffset m after inoNum a ds offset t ∧ t.mutex = s.mutex
  | some (entry, offset') => res = 0 ∧ AtOffset m after inoNum a ds offset' t ∧
      t.mutex = s.mutex ∧ recordOf (t.tables.dirstreams ds).de = entry

theorem answered_dirent (h : AtOffset m after inoNum a ds offset s) (de : Nat → UInt8) (at_ : Int) :
    ∃ t, (NandFs.setDirstreamDirEntry ds de at_ >>= fun _ => (pure 0 : FsM StoredFiles Int)) s
        = .ok 0 t ∧
      Answered m after inoNum a ds offset s 0 t (some (recordOf de, at_ + direntGetLen de)) := by
  obtain ⟨t, hrun, hat, hmutex, hde⟩ := h.setDirstreamDirEntry de at_
  exact ⟨t, bind_ok hrun, rfl, hat, hmutex, by rw [hde]⟩

theorem readNextBlockEntry (h : AtOffset m after inoNum a ds offset s) :
    ∃ res t, readNextBlockEntry ds offset s = .ok res t ∧
      Answered m after inoNum a ds offset s res t (m.fromNextBlock after a offset) := by
  have hsearch : onStorage
      (Storage.findNextNonEmptySparseBlock (s.tables.dirstreams ds).inoAddr offset) s =
        .ok (m.findNextNonEmptySparseBlock a offset).result s := by
    rw [h.inoAddr, ← h.storage]
    rfl
  rw [NandFs.readNextBlockEntry, bind_ok (show (get : FsM StoredFiles _) s = .ok s s from rfl),
    bind_ok hsearch, StoredFiles.fromNextBlock]
  cases hfound : m.findNextNonEmptySparseBlock a offset with
  | error res =>
    have hres : res ≠ 0 := StoredFiles.error_ne_zero hfound
    refine ⟨-1, s, ?_, by decide, h, rfl⟩
    exact congrFun (if_pos hres) s
  | ok found =>
    obtain ⟨blockAddr, offset'⟩ := found
    have hread : onStorage (Storage.fsReadBlock blockAddr) s = .ok (0, m.fsReadBlock blockAddr) s := by
      rw [← h.storage]
      rfl
    obtain ⟨t, hrun, hans⟩ := h.answered_dirent (direntAt (m.fsReadBlock blockAddr) after 0) offset'
    refine ⟨0, t, ?_, hans⟩
    rw [← h.afterFsBuffer] at hrun
    exact (congrFun (if_neg (by simp [StoredFiles.Search.result])) s).trans
      ((bind_ok hread).trans ((congrFun (if_neg (by simp)) s).trans hrun))

/-- One step of the stream, with the mutex taken or free. -/
theorem readDirStreamNextEntry (h : AtOffset m after inoNum a ds offset s) (hino : inoNum ≠ 0)
    (ha : isAddressEmpty a = false) :
    ∃ res t, readDirStreamNextEntry ds s = .ok res t ∧
      Answered m after inoNum a ds offset s res t (m.nextEntry after inoNum a offset) := by
  have hread : onStorage (Storage.readFileBlock
      (s.tables.getFileIdByFd (s.tables.dirstreams ds).fd) offset
        (s.tables.dirstreams ds).inoAddr tidEmpty) s = .ok (m.readFileBlock inoNum offset a) s := by
    rw [h.fileId, h.inoAddr, ← h.storage]
    rfl
  have hset : (modifyTables fun s : FileTables => s.setDirstream ds { s.dirstreams ds with
      inoAddr := (m.readFileBlock inoNum offset a).inoAddr } : FsM StoredFiles Unit) s
        = .ok () s := by
    rw [StoredFiles.readFileBlock_inoAddr hino ha]
    exact congrArg (fun tables => EStateM.Result.ok () { s with tables := tables })
      h.setDirstream_self
  rw [NandFs.readDirStreamNextEntry, bind_ok (show (get : FsM StoredFiles _) s = .ok s s from rfl),
    h.at_offset, StoredFiles.nextEntry]
  dsimp only
  by_cases hfull : isDirentBlockFull offset = true
  · rw [if_pos hfull, if_pos hfull]
    exact h.readNextBlockEntry
  · rw [if_neg hfull, if_neg hfull, bind_ok hread, bind_ok hset]
    by_cases hres : (m.readFileBlock inoNum offset a).res ≠ 0
    · rw [if_pos hres, if_pos hres]
      exact ⟨-1, s, rfl, by decide, h, rfl⟩
    · rw [if_neg hres, if_neg hres, h.afterFsBuffer]
      split
      · exact h.readNextBlockEntry
      · obtain ⟨t, hrun, hans⟩ := h.answered_dirent (direntAt (m.readFileBlock inoNum offset a).block
          after (calcOffsetInFileBlock offset)) offset
        exact ⟨0, t, hrun, hans⟩

/-- A call of `nandfs_readdir` answers as the cursor does. -/
theorem readdirRecord (h : AtOffset m after inoNum a ds offset s) (hfree : s.mutex = false)
    (hino : inoNum ≠ 0) (ha : isAddressEmpty a = false) :
    ∃ t, readdirRecord ds s =
        .ok ((m.nextEntry after inoNum a offset).map Prod.fst) t ∧ t.mutex = false ∧
      AtOffset m after inoNum a ds
        (((m.nextEntry after inoNum a offset).map Prod.snd).getD offset) t := by
  obtain ⟨res, u, hrun, hans⟩ := (h.mutex true).readDirStreamNextEntry hino ha
  have hcall : nandfsReaddir (some ds) s =
      (if res ≠ 0 then sysReturn StreamPtr.minusOne .null
        else sysReturn StreamPtr.minusOne (.stream ds) : FsM StoredFiles StreamPtr) u := by
    rw [nandfsReaddir, fsMutexLock_free hfree,
      bind_ok (show (getTables : FsM StoredFiles _) _ = .ok _ _ from rfl)]
    simp only [h.verified]
    exact bind_ok hrun
  cases hnext : m.nextEntry after inoNum a offset with
  | none =>
    rw [hnext] at hans
    obtain ⟨hres, hat, hmutex⟩ := hans
    rw [if_pos hres, sysReturn, fsMutexUnlock_held hmutex] at hcall
    exact ⟨_, bind_ok hcall, rfl, hat.mutex false⟩
  | some found =>
    rw [hnext] at hans
    obtain ⟨hres, hat, hmutex, hde⟩ := hans
    rw [if_neg (not_not.mpr hres), sysReturn, fsMutexUnlock_held hmutex] at hcall
    refine ⟨_, (bind_ok hcall).trans ?_, rfl, hat.mutex false⟩
    rw [Option.map_some, ← hde]
    rfl

/-- The calls on an open stream are the answers of the cursor. -/
theorem readdirs (hino : inoNum ≠ 0) (ha : isAddressEmpty a = false) (n : Nat)
    (h : AtOffset m after inoNum a ds offset s) (hfree : s.mutex = false) :
    ∃ t, readdirs ds n s = .ok (Cursor.answers (m.nextEntry after inoNum a) n offset) t := by
  induction n generalizing offset s with
  | zero => exact ⟨s, rfl⟩
  | succ n ih =>
    obtain ⟨t, hrun, hfree', hat⟩ := h.readdirRecord hfree hino ha
    rw [NandFs.readdirs, bind_ok hrun, Cursor.answers]
    cases hnext : m.nextEntry after inoNum a offset with
    | none =>
      rw [hnext] at hat
      obtain ⟨u, hu⟩ := ih hat hfree'
      exact ⟨u, bind_ok hu⟩
    | some found =>
      rw [hnext] at hat
      obtain ⟨u, hu⟩ := ih hat hfree'
      exact ⟨u, bind_ok hu⟩

end AtOffset

end NandFs
