import NandFs.FsRules
import NandFs.TablesConsistent

/-! # What a call can do to the tables

One lemma for each routine and call that opens or closes descriptors, saying all it can have
done to the tables when it returns.  What the routines under the calls answer is left open, so
these are disjunctions: the call failed and left the tables, or it did what it is for.
-/
namespace NandFs

open Program FileTables

variable {σ : Type}

/-! ## The routines -/

section Routines

/-- `t` is `s` with a free entry opened on the file. -/
structure Opened (s : FileTables) (inoNum flags : BitVec 32) (fType : Nat) (fd : Int)
    (t : FileTables) : Prop where
  fd_eq : fd = s.getFreeOpenFileEntry
  fd_ne : fd ≠ fdEmpty
  vnode_ne : chooseVnode s inoNum flags ≠ vnodeEmpty
  tables_eq : ∃ offset,
    t = s.setFentry fd flags offset (chooseVnode s inoNum flags) fType inoNum

/-- Setting the offset after an entry has been filled is filling it with that offset. -/
theorem openFileSetOffset_setFentry {fd : Int} (hfd : isFdLegal fd = true) (s : FileTables)
    (flags : BitVec 32) (offset offset' v : Int) (fType : Nat) (inoNum : BitVec 32) :
    (s.setFentry fd flags offset v fType inoNum).openFileSetOffset fd offset' =
      s.setFentry fd flags offset' v fType inoNum := by
  simp [openFileSetOffset_of_ne (ne_fentryMax hfd), FileTables.setFentry,
    setOpenFile_of_ne (ne_fentryMax hfd), vnodeIncrementNrefs, vnodeSetInoNum, setVnode]

variable [Config] [Storage σ]

theorem returns_setOpenFentry (inoNum flags : BitVec 32) (mode fType : Nat) (s : FileSystem σ) :
    Returns (setOpenFentry inoNum flags mode fType) s fun r t =>
      t.tables = s.tables ∧ (r = -1 ∨ r = fsErrorFentryMax ∧
        s.tables.getFreeOpenFileEntry = fdEmpty ∧ chooseVnode s.tables inoNum flags ≠ vnodeEmpty) ∨
      Opened s.tables inoNum flags fType r t.tables := by
  unfold setOpenFentry
  refine returns_ite (fun _ => .inl ⟨rfl, .inl rfl⟩) fun _ => ?_
  refine returns_ite (fun _ => .inl ⟨rfl, .inl rfl⟩) fun _ => ?_
  refine returns_ite (fun _ => .inl ⟨rfl, .inl rfl⟩) fun _ => ?_
  simp only [returns_bind, returns_getTables]
  refine returns_ite (fun _ => .inl ⟨rfl, .inl rfl⟩) fun hv => ?_
  refine returns_ite (fun hfd => .inl ⟨rfl, .inr ⟨rfl, hfd, hv⟩⟩) fun hfd => ?_
  simp only [returns_bind, returns_modifyTables]
  refine returns_ite (fun _ => ?_) fun _ => ?_
  · simp only [returns_bind, returns_modifyTables, returns_pure]
    refine returns_onStorage _ fun offset st => .inr ⟨rfl, hfd, hv, offset, ?_⟩
    exact openFileSetOffset_setFentry (getFreeOpenFileEntry_spec hfd).1 ..
  · exact .inr ⟨rfl, hfd, hv, 0, rfl⟩

theorem returns_commitWritten (fd : Int) (s : FileSystem σ) :
    Returns (commitWritten fd) s fun _ t => t.tables = s.tables := by
  unfold commitWritten
  simp only [returns_bind, returns_getTables]
  refine returns_ite (fun _ => ?_) fun _ => rfl
  rw [returns_bind]
  refine returns_onStorage _ fun tid st => ?_
  refine returns_ite (fun _ => rfl) fun _ => ?_
  exact returns_onStorage _ fun _ _ => rfl

/-- The descriptor has been released by the user who had it. -/
structure Released (s : FileTables) (fd : Int) (t : FileTables) : Prop where
  verified : s.verifyFd fd = 0
  tables_eq : t = s.releaseFentry fd

theorem returns_closeUtil (fd : Int) (s : FileSystem σ) :
    Returns (closeUtil fd) s fun r t =>
      r = -1 ∧ t.tables = s.tables ∨ r = 0 ∧ Released s.tables fd t.tables := by
  unfold closeUtil
  rw [returns_bind, returns_getTables]
  refine returns_ite (fun _ => .inl ⟨rfl, rfl⟩) fun hfd => ?_
  rw [returns_bind]
  refine (returns_commitWritten fd s).mono fun r t ht => ?_
  refine returns_ite (fun _ => .inl ⟨rfl, ht⟩) fun _ => ?_
  rw [returns_bind, returns_modifyTables, returns_pure]
  exact .inr ⟨rfl, not_not.mp hfd, by rw [ht]⟩

/-- The new descriptor was free, or has been released. -/
def Emptied (s : FileTables) (newFd : Int) (t : FileTables) : Prop :=
  s.isOpenFileEntryEmpty newFd = true ∧ t = s ∨
    s.isOpenFileEntryEmpty newFd = false ∧ Released s newFd t

theorem returns_makeEmpty (newFd : Int) (s : FileSystem σ) :
    Returns (makeEmpty newFd) s fun r t =>
      r ≠ 0 ∧ t.tables = s.tables ∨ r = 0 ∧ Emptied s.tables newFd t.tables := by
  unfold makeEmpty
  rw [returns_bind, returns_getTables]
  refine returns_ite (fun h => .inr ⟨rfl, .inl ⟨h, rfl⟩⟩) fun h => ?_
  refine (returns_closeUtil newFd s).mono fun r t ht => ?_
  rcases ht with ⟨rfl, hs⟩ | ⟨rfl, hr⟩
  · exact .inl ⟨by decide, hs⟩
  · exact .inr ⟨rfl, .inr ⟨by simpa using h, hr⟩⟩

/-- `t` is `s` with the new descriptor emptied and filled like the old one. -/
structure Duplicated (s : FileTables) (oldFd newFd : Int) (t : FileTables) : Prop where
  verified : s.verifyFd oldFd = 0
  legal : isFdLegal newFd = true
  no_conflict : s.isFlagsConflict (s.openFiles oldFd).vnode (s.openFiles oldFd).flags = false
  tables_eq : ∃ u, Emptied s newFd u ∧
    t = u.setFentry newFd (u.openFiles oldFd).flags (u.openFiles oldFd).offset
      (u.openFiles oldFd).vnode (u.openFiles oldFd).fType (u.getFileIdByFd oldFd)

theorem returns_dupOnto (oldFd newFd : Int) (s : FileSystem σ) :
    Returns (dupOnto oldFd newFd) s fun r t =>
      r = -1 ∧ t.tables = s.tables ∨ r = newFd ∧ Duplicated s.tables oldFd newFd t.tables := by
  unfold dupOnto
  rw [returns_bind, returns_getTables]
  refine returns_ite (fun _ => .inl ⟨rfl, rfl⟩) fun hold => ?_
  refine returns_ite (fun _ => .inl ⟨rfl, rfl⟩) fun hnew => ?_
  refine returns_ite (fun _ => .inl ⟨rfl, rfl⟩) fun hconf => ?_
  rw [returns_bind]
  refine (returns_makeEmpty newFd s).mono fun r u hu => ?_
  rcases hu with ⟨hr, hs⟩ | ⟨rfl, he⟩
  · rw [if_pos hr]
    exact .inl ⟨rfl, hs⟩
  · rw [if_neg (not_not_intro rfl), returns_bind, returns_modifyTables, returns_pure]
    exact .inr ⟨rfl, not_not.mp hold, by simpa using hnew, by simpa using hconf, u.tables, he, rfl⟩

/-! ### What a duplicate is -/

section Duplicates
variable {s u t : FileTables} {oldFd newFd : Int}

omit [Config] [Storage σ] in
theorem Emptied.openFiles_of_ne (he : Emptied s newFd u) {fd : Int} (hne : fd ≠ newFd) :
    u.openFiles fd = s.openFiles fd := by
  rcases he with ⟨-, rfl⟩ | ⟨-, hr⟩
  · rfl
  · rw [hr.tables_eq, openFiles_releaseFentry (verifyFd_eq_zero hr.verified).1,
      Function.update_of_ne hne]

omit [Config] [Storage σ] in
theorem Emptied.opens_eq_none (he : Emptied s newFd u) : u.opens newFd = none := by
  rcases he with ⟨hempty, rfl⟩ | ⟨-, hr⟩
  · exact FileTables.opens_eq_none.mpr fun _ => hempty
  · rw [hr.tables_eq, opens_releaseFentry (verifyFd_eq_zero hr.verified).1, Function.update_self]

omit [Config] [Storage σ] in
/-- An entry that is duplicated is open. -/
theorem Duplicated.opens_old (hd : Duplicated s oldFd newFd t) : s.opens oldFd =
    some ⟨(s.openFiles oldFd).vnode, (s.openFiles oldFd).uid,
      isWronly (s.openFiles oldFd).flags⟩ := by
  obtain ⟨hlegal, hempty, -⟩ := verifyFd_eq_zero hd.verified
  exact opens_eq_some hlegal hempty

omit [Config] [Storage σ] in
/-- A descriptor duplicated onto itself has been released, then filled from the empty entry. -/
theorem Duplicated.self (hd : Duplicated s oldFd oldFd t) :
    Released s oldFd (s.releaseFentry oldFd) ∧
      t = (s.releaseFentry oldFd).setFentry oldFd 0 0 vnodeEmpty ftypeEmpty inoNumEmpty := by
  obtain ⟨u, he, rfl⟩ := hd.tables_eq
  obtain ⟨-, hempty, -⟩ := verifyFd_eq_zero hd.verified
  rcases he with ⟨hfree, -⟩ | ⟨-, hr⟩
  · rw [hempty] at hfree
    cases hfree
  · obtain rfl := hr.tables_eq
    have hentry : (s.releaseFentry oldFd).openFiles oldFd = initFileEntry := by
      rw [openFiles_releaseFentry hd.legal, Function.update_self]
    have hfile : (s.releaseFentry oldFd).getFileIdByFd oldFd = inoNumEmpty := by
      unfold getFileIdByFd isOpenFileEntryEmpty
      rw [hentry]
      rfl
    rw [hentry, hfile]
    exact ⟨hr, rfl⟩

omit [Config] [Storage σ] in
/-- Otherwise the old entry is still open when it is copied, and so is its vnode. -/
theorem Duplicated.other (hd : Duplicated s oldFd newFd t) (hne : oldFd ≠ newFd) :
    ∃ u, Emptied s newFd u ∧ u.opens oldFd = s.opens oldFd ∧
      t = u.setFentry newFd (s.openFiles oldFd).flags (s.openFiles oldFd).offset
        (s.openFiles oldFd).vnode (s.openFiles oldFd).fType
        (u.vnodes (s.openFiles oldFd).vnode).inoNum := by
  obtain ⟨u, he, rfl⟩ := hd.tables_eq
  have hold := he.openFiles_of_ne hne
  obtain ⟨-, hempty, -⟩ := verifyFd_eq_zero hd.verified
  refine ⟨u, he, by unfold opens; rw [hold], ?_⟩
  have hu : u.isOpenFileEntryEmpty oldFd = false := by
    unfold isOpenFileEntryEmpty at hempty ⊢
    rwa [hold]
  unfold getFileIdByFd
  rw [hu, if_neg Bool.false_ne_true, hold]

end Duplicates

theorem returns_dupUtil (oldFd newFd : Int) (isDup2 : Bool) (s : FileSystem σ) :
    Returns (dupUtil oldFd newFd isDup2) s fun r t =>
      r = -1 ∧ t.tables = s.tables ∨
        (r = if isDup2 then newFd else s.tables.getFreeOpenFileEntry) ∧
          Duplicated s.tables oldFd r t.tables := by
  unfold dupUtil
  cases isDup2 with
  | true =>
    refine (returns_dupOnto oldFd newFd s).mono fun r t ht => ht.imp_right ?_
    rintro ⟨rfl, hd⟩
    exact ⟨rfl, hd⟩
  | false =>
    rw [if_neg Bool.false_ne_true, returns_bind, returns_getTables]
    refine returns_ite (fun _ => .inl ⟨rfl, rfl⟩) fun _ => ?_
    refine (returns_dupOnto oldFd _ s).mono fun r t ht => ht.imp_right ?_
    rintro ⟨rfl, hd⟩
    exact ⟨rfl, hd⟩

/-! ### Creating and removing -/

theorem returns_emptyTrVerify {Q : Int → FileSystem σ → Prop} {s : FileSystem σ} (tid : Int)
    (test : Bool) {next : FsM σ Int} (hfail : ∀ st, Q (-1) { s with storage := st })
    (hnext : Returns next s Q) : Returns (emptyTrVerify tid test next) s Q := by
  unfold emptyTrVerify
  refine returns_ite (fun _ => hnext) fun _ => ?_
  rw [returns_bind]
  exact returns_onStorage _ fun _ st => hfail st

theorem returns_trResVerify {Q : Int → FileSystem σ → Prop} {s : FileSystem σ} (tid res : Int)
    {next : FsM σ Int} (hfail : ∀ r st, Q r { s with storage := st }) (hnext : Returns next s Q) :
    Returns (trResVerify tid res next) s Q := by
  unfold trResVerify
  refine returns_ite (fun _ => hnext) fun _ => ?_
  rw [returns_bind]
  refine returns_onStorage _ fun _ st => ?_
  exact returns_ite (fun _ => hfail _ st) fun _ => hfail _ st

theorem returns_writeNewFile (newType : Nat) (name : Path) (dirNum inoNum : BitVec 32) (tid : Int)
    (s : FileSystem σ) :
    Returns (writeNewFile newType name dirNum inoNum tid) s fun r t =>
      t.tables = s.tables ∨ Opened s.tables inoNum creatFlags ftypeFile r t.tables := by
  unfold writeNewFile
  rw [returns_bind]
  refine returns_onStorage _ fun _ _ => ?_
  rw [returns_bind]
  refine returns_onStorage _ fun _ _ => returns_trResVerify _ _ (fun _ _ => .inl rfl) ?_
  rw [returns_bind]
  refine returns_onStorage _ fun _ _ => returns_trResVerify _ _ (fun _ _ => .inl rfl) ?_
  rw [returns_bind]
  refine returns_onStorage _ fun _ _ => returns_ite (fun _ => .inl rfl) fun _ => ?_
  rw [returns_bind]
  refine returns_onStorage _ fun _ _ => ?_
  rw [returns_bind]
  refine returns_onStorage _ fun _ _ => ?_
  rw [returns_bind]
  refine returns_onStorage _ fun _ _ => returns_trResVerify _ _ (fun _ _ => .inl rfl) ?_
  rw [returns_bind]
  refine returns_onStorage _ fun _ _ => returns_trResVerify _ _ (fun _ _ => .inl rfl) ?_
  rw [returns_bind]
  refine returns_onStorage _ fun _ _ => returns_trResVerify _ _ (fun _ _ => .inl rfl) ?_
  rw [returns_bind]
  refine returns_onStorage _ fun _ _ => returns_trResVerify _ _ (fun _ _ => .inl rfl) ?_
  refine returns_ite (fun _ => .inl rfl) fun _ => ?_
  exact (returns_setOpenFentry ..).mono fun _ _ h => h.imp_left And.left

/-- The inode number of a hole is a proper one. -/
theorem inoNum_ne_empty (hole : HoleResult) :
    BitVec.ofNat 32 (hole.blocks + 1) ≠ inoNumEmpty := by
  have hoff := hole.offset_lt
  have hsize : (16 : Int) ≤ fsBlockSize := by
    have h : 2 ^ 4 ≤ pageSize := Nat.pow_le_pow_right (by decide) Config.powPageSize_ge
    exact Int.ofNat_le.mpr h
  have hblocks : (16 * hole.blocks : Int) ≤ hole.blocks * fsBlockSize := by
    rw [Int.mul_comm]
    exact Int.mul_le_mul_of_nonneg_left hsize (Int.natCast_nonneg _)
  have hdata : -49 ≤ inodeFileDataSize := by
    unfold inodeFileDataSize
    unfold fsBlockSize at hsize
    omega
  intro heq
  have hnat := congrArg BitVec.toNat heq
  rw [BitVec.toNat_ofNat, inoNumEmpty] at hnat
  simp only [BitVec.toNat_ofNat] at hnat
  omega

theorem returns_createNewFile (newType : Nat) (pathname : Path) (s : FileSystem σ) :
    Returns (createNewFile newType pathname) s fun r t => t.tables = s.tables ∨
      ∃ inoNum, inoNum ≠ inoNumEmpty ∧ Opened s.tables inoNum creatFlags ftypeFile r t.tables := by
  unfold createNewFile
  rw [returns_bind]
  refine returns_onStorage _ fun tid _ => ?_
  rw [returns_bind]
  refine returns_onStorage _ fun _ _ => returns_emptyTrVerify _ _ (fun _ => .inl rfl) ?_
  rw [returns_bind]
  refine returns_onStorage _ fun found _ => returns_emptyTrVerify _ _ (fun _ => .inl rfl) ?_
  rw [returns_bind]
  refine returns_onStorage _ fun pre _ => returns_emptyTrVerify _ _ (fun _ => .inl rfl) ?_
  refine returns_emptyTrVerify _ _ (fun _ => .inl rfl) ?_
  rw [returns_bind, returns_getTables]
  refine returns_emptyTrVerify _ _ (fun _ => .inl rfl) ?_
  rw [returns_bind]
  refine returns_onStorage _ fun hole _ => returns_emptyTrVerify _ _ (fun _ => .inl rfl) ?_
  refine (returns_writeNewFile ..).mono fun r t ht => ht.imp_right fun h => ?_
  exact ⟨_, inoNum_ne_empty hole, h⟩

/-! ## The calls -/

omit [Config] [Storage σ] in
/-- A quiet routine, then an unlocking exit. -/
theorem returns_bind_sysReturn {α β : Type} {m : FsM σ β} (hm : Quiet m) {s : FileSystem σ}
    (hs : s.mutex = true) {R : β → FileSystem σ → Prop} (hr : Returns m s R) {err : α} {g : β → α}
    {Q : α → FileSystem σ → Prop} (hq : ∀ b t, R b t → Q (g b) { t with mutex := false }) :
    Returns (m >>= fun b => sysReturn err (g b)) s Q := by
  rw [returns_bind]
  refine (hm.returns hr).mono fun b t ht => returns_sysReturn ?_ (hq b t ht.1)
  have hlock := congrArg Prod.fst ht.2
  exact hlock.trans hs

/-- `t` is `s` with a file opened under flags that read or write it. -/
def OpenedFile (s : FileTables) (fd : Int) (t : FileTables) : Prop :=
  ∃ inoNum flags fType, inoNum ≠ inoNumEmpty ∧ (isWronly flags || isRdonly flags) = true ∧
    Opened s inoNum flags fType fd t

theorem returns_nandfsCreat (pathname : Path) (mode : Nat) (s : FileSystem σ) :
    Returns (nandfsCreat pathname mode) s fun r t =>
      t.tables = s.tables ∨ OpenedFile s.tables r t.tables := by
  refine returns_fsMutexLock (.inl rfl) ?_
  refine returns_bind_sysReturn (quiet_createNewFile ..) rfl (returns_createNewFile ..)
    fun r t ht => ht.imp_right ?_
  rintro ⟨inoNum, hino, hopened⟩
  exact ⟨inoNum, creatFlags, ftypeFile, hino, by decide, hopened⟩

theorem returns_nandfsOpen (pathname : Path) (flags : BitVec 32) (mode : Nat) (s : FileSystem σ) :
    Returns (nandfsOpen pathname flags mode) s fun r t =>
      t.tables = s.tables ∨ OpenedFile s.tables r t.tables := by
  refine returns_fsMutexLock (.inl rfl) (returns_ite (fun _ => .inl rfl) fun hflags => ?_)
  rw [returns_bind]
  refine returns_onStorage _ fun found st => ?_
  refine returns_ite (fun _ => returns_sysReturn rfl (.inl rfl)) fun _ => ?_
  refine returns_ite (fun _ => ?_) fun hpos => ?_
  · rw [returns_congr (fsMutexUnlock_held rfl)]
    exact returns_nandfsCreat pathname 0 _
  · have hino : found.inoNum ≠ inoNumEmpty := by
      intro he
      rw [he] at hpos
      exact hpos (by decide)
    refine returns_bind_sysReturn (quiet_setOpenFentry ..) rfl (returns_setOpenFentry ..)
      fun r t ht => ht.imp And.left fun ho => ?_
    rw [Bool.not_eq_true', Bool.not_eq_false] at hflags
    exact ⟨_, flags, _, hino, hflags, ho⟩

theorem returns_nandfsClose (fd : Int) (s : FileSystem σ) :
    Returns (nandfsClose fd) s fun _ t => t.tables = s.tables ∨ Released s.tables fd t.tables := by
  refine returns_fsMutexLock (.inl rfl) ?_
  exact returns_bind_sysReturn (quiet_closeUtil fd) rfl (returns_closeUtil fd _)
    fun r t ht => ht.imp And.right And.right

theorem returns_nandfsDup (oldFd : Int) (s : FileSystem σ) :
    Returns (nandfsDup oldFd) s fun r t => t.tables = s.tables ∨
      r = s.tables.getFreeOpenFileEntry ∧ Duplicated s.tables oldFd r t.tables := by
  refine returns_fsMutexLock (.inl rfl) ?_
  exact returns_bind_sysReturn (quiet_dupUtil ..) rfl (returns_dupUtil ..)
    fun r t ht => ht.imp_left And.right

theorem returns_nandfsDup2 (oldFd newFd : Int) (s : FileSystem σ) :
    Returns (nandfsDup2 oldFd newFd) s fun r t => t.tables = s.tables ∨
      r = newFd ∧ Duplicated s.tables oldFd newFd t.tables := by
  refine returns_fsMutexLock (.inl rfl) ?_
  refine returns_bind_sysReturn (quiet_dupUtil ..) rfl (returns_dupUtil ..) fun r t ht => ?_
  rcases ht with ⟨-, hs⟩ | ⟨rfl, hd⟩
  · exact .inl hs
  · exact .inr ⟨rfl, hd⟩

/-- The stream has given up its descriptor. -/
structure StreamClosed (s : FileTables) (ds : DirstreamId) (t : FileTables) : Prop where
  verified : s.verifyDirstream (some ds) = true
  tables_eq : t = s.closeDirstream ds

omit [Config] [Storage σ] in
theorem returns_nandfsClosedir (dir : Option DirstreamId) (s : FileSystem σ) :
    Returns (nandfsClosedir dir) s fun _ t => t.tables = s.tables ∨
      ∃ ds, dir = some ds ∧ StreamClosed s.tables ds t.tables := by
  refine returns_fsMutexLock (.inl rfl) ?_
  rw [returns_bind, returns_getTables]
  split
  · rename_i ds hv
    rw [returns_bind, returns_modifyTables]
    exact returns_sysReturn rfl (.inr ⟨ds, rfl, hv, rfl⟩)
  · exact returns_sysReturn rfl (.inl rfl)

/-- What is left of opening a stream once its descriptor is known, which may be
`FS_ERROR_FENTRY_MAX`. -/
def setStream (s : FileTables) (ds : DirstreamId) (fd : Int) : FileTables :=
  (s.setDirstream ds { s.dirstreams ds with fd := fd }).openFileSetOffset fd
    directoryFirstEntryOffset

/-- The tables after an `opendir` that found a directory and a free stream. -/
inductive StreamOpened (s : FileTables) (ds : DirstreamId) : StreamPtr → FileTables → Prop
  /-- the stream is initialised again -/
  | failed : StreamOpened s ds .null (s.closeDirstream ds)
  /-- no entry is free, which is not taken for a failure -/
  | full {inoNum : BitVec 32} (inoAddr : LogAddr) (hfull : s.getFreeOpenFileEntry = fdEmpty)
      (hvnode : chooseVnode s inoNum oRdonly ≠ vnodeEmpty) :
      StreamOpened s ds (.stream ds)
        (setStream (s.setDirstream ds { s.dirstreams ds with inoAddr := inoAddr }) ds
          fsErrorFentryMax)
  | opened {inoNum : BitVec 32} {fd : Int} {u : FileTables} (inoAddr : LogAddr)
      (hino : inoNum ≠ inoNumEmpty) (hopened : Opened
        (s.setDirstream ds { s.dirstreams ds with inoAddr := inoAddr }) inoNum oRdonly ftypeDir fd u) :
      StreamOpened s ds (.stream ds) (setStream u ds fd)

omit [Config] [Storage σ] in
theorem setOpenFile_setDirstream (s : FileTables) (ds : DirstreamId) (d : DirStream) (fd : Int)
    (f : OpenFile) :
    (s.setDirstream ds d).setOpenFile fd f = (s.setOpenFile fd f).setDirstream ds d := by
  unfold setOpenFile
  split <;> rfl

omit [Config] [Storage σ] in
/-- A stream is closed by its descriptor, wherever its directory is. -/
theorem closeDirstream_setDirstream (s : FileTables) (ds : DirstreamId) (inoAddr : LogAddr) :
    (s.setDirstream ds { s.dirstreams ds with inoAddr := inoAddr }).closeDirstream ds =
      s.closeDirstream ds := by
  have hsame : ∀ (u : FileTables) (d : DirStream),
      (u.setDirstream ds d).setDirstream ds initDirStream = u.setDirstream ds initDirStream := by
    intro u d
    simp [setDirstream]
  generalize hd : ({ s.dirstreams ds with inoAddr := inoAddr } : DirStream) = d
  have hclosed : ∀ u : FileTables,
      ((u.setDirstream ds d).setOpenFile (s.dirstreams ds).fd initFileEntry).setDirstream ds
        initDirStream = (u.setOpenFile (s.dirstreams ds).fd initFileEntry).setDirstream ds
          initDirStream := by
    intro u
    rw [setOpenFile_setDirstream, hsame]
  have hfd : ((s.setDirstream ds d).dirstreams ds).fd = (s.dirstreams ds).fd := by simp [← hd]
  have hopen : (s.setDirstream ds d).openFile (s.dirstreams ds).fd =
      s.openFile (s.dirstreams ds).fd := rfl
  unfold closeDirstream
  by_cases he : (s.dirstreams ds).fd = fdEmpty
  · simp only [hfd, if_pos he, hsame]
  · simp only [hfd, if_neg he, hopen, vnodes_setDirstream]
    by_cases hone : (s.vnodes (s.openFile (s.dirstreams ds).fd).vnode).nReferences = 1
    · rw [if_pos hone, if_pos hone]
      exact hclosed (s.setVnode _ initVnode)
    · rw [if_neg hone, if_neg hone]
      exact hclosed (s.vnodeDecrementNrefs _)

theorem returns_openStream (ds : DirstreamId) {inoNum : BitVec 32} (hino : inoNum ≠ inoNumEmpty)
    (s : FileSystem σ) (hs : s.mutex = true) :
    Returns (openStream ds inoNum) s fun r t => StreamOpened s.tables ds r t.tables := by
  unfold openStream
  rw [returns_bind]
  refine returns_onStorage _ fun read st => returns_ite (fun _ => ?_) fun _ => ?_
  · rw [returns_bind, returns_modifyTables]
    exact returns_sysReturn hs .failed
  · rw [returns_bind, returns_modifyTables, returns_bind]
    refine ((quiet_setOpenFentry ..).returns (returns_setOpenFentry ..)).mono fun fd t ht => ?_
    have hmutex : t.mutex = true := (congrArg Prod.fst ht.2).trans hs
    refine returns_ite (fun hfd => ?_) fun hfd => ?_
    · rw [returns_bind, returns_modifyTables]
      rcases ht.1 with ⟨htables, -⟩ | hopened
      · refine returns_sysReturn hmutex ?_
        rw [htables, closeDirstream_setDirstream]
        exact .failed
      · exact absurd hfd hopened.fd_ne
    · simp only [returns_bind, returns_modifyTables]
      rcases ht.1 with ⟨htables, rfl | ⟨rfl, hfull, hvnode⟩⟩ | hopened
      · exact absurd rfl hfd
      · refine returns_sysReturn hmutex ?_
        rw [htables]
        exact .full read.inoAddr hfull hvnode
      · exact returns_sysReturn hmutex (.opened read.inoAddr hino hopened)

theorem returns_nandfsOpendir (name : Path) (s : FileSystem σ) :
    Returns (nandfsOpendir name) s fun r t => (t.tables = s.tables ∧ ∀ ds, r ≠ .stream ds) ∨
      ∃ ds, s.tables.getFreeDirstreamId = some ds ∧ StreamOpened s.tables ds r t.tables := by
  refine returns_fsMutexLock (.inl ⟨rfl, by simp⟩) ?_
  rw [returns_bind]
  refine returns_onStorage _ fun found st => ?_
  refine returns_ite (fun _ => returns_sysReturn rfl (.inl ⟨rfl, by simp⟩)) fun hfound => ?_
  have hino : found.inoNum ≠ inoNumEmpty := by
    intro he
    rw [he] at hfound
    exact hfound (by rfl)
  rw [returns_bind, returns_getTables]
  cases hds : s.tables.getFreeDirstreamId with
  | none => exact returns_sysReturn rfl (.inl ⟨rfl, by simp⟩)
  | some ds => exact (returns_openStream ds hino _ rfl).mono fun r t ht => .inr ⟨ds, rfl, ht⟩

end Routines

end NandFs
