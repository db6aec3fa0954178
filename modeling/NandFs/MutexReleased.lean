import NandFs.FsRules

/-! # The mutex after a call

Every exit of a call unlocks the mutex but two: `nandfs_open` verifies its flags by
`FS_VERIFY`, and `nandfs_write` leaves through `WRITE_VERIFY` when a block after the first
fails; both return with the mutex locked.  `Call.Leaks` says when a call comes to such an exit,
and the mutex is free after a call exactly when it does not.
-/
namespace NandFs

open Program

variable {σ α β : Type}

/-! ## Exits that unlock -/

/-- Made with the mutex free, `m` leaves it free, and never unlocks it while it is. -/
structure KeepsFree (m : FsM σ α) : Prop where
  returns : ∀ s, s.lock = (false, false) → Returns m s fun _ t => t.lock = (false, false)

/-- Entered with the mutex, `m` gives it back whichever way it returns. -/
structure Frees (m : FsM σ α) : Prop where
  returns : ∀ s, s.lock = (true, false) → Returns m s fun _ t => t.lock = (false, false)

theorem frees_fsMutexUnlock (err : α) {next : FsM σ α} (h : KeepsFree next) :
    Frees (fsMutexUnlock err next) := by
  refine ⟨fun s hs => ?_⟩
  have hlocked : s.mutex = true := congrArg Prod.fst hs
  have hstray : s.strayUnlock = false := congrArg Prod.snd hs
  rw [returns_congr (fsMutexUnlock_held hlocked)]
  exact h.returns _ (congrArg (Prod.mk false) hstray)

/-- A call whose body gives the mutex back. -/
theorem keepsFree_fsMutexLock (err : α) {next : FsM σ α} (h : Frees next) :
    KeepsFree (fsMutexLock err next) := by
  refine ⟨fun s hs => ?_⟩
  have hfree : s.mutex = false := congrArg Prod.fst hs
  have hstray : s.strayUnlock = false := congrArg Prod.snd hs
  rw [returns_congr (fsMutexLock_free hfree)]
  exact h.returns _ (congrArg (Prod.mk true) hstray)

theorem frees_sysReturn (err res : α) : Frees (sysReturn err res : FsM σ α) :=
  frees_fsMutexUnlock err ⟨fun _ hs => hs⟩

theorem frees_sysVerify (err : α) (test : Bool) {next : FsM σ α} (h : Frees next) :
    Frees (sysVerify err test next) := by
  unfold sysVerify
  by_cases ht : test = true
  · rw [if_pos ht]
    exact h
  · rw [if_neg ht]
    exact frees_sysReturn err err

theorem frees_bind {m : FsM σ β} {f : β → FsM σ α} (hm : Quiet m) (hf : ∀ b, Frees (f b)) :
    Frees (m >>= f) := by
  refine ⟨fun s hs => ?_⟩
  rw [returns_bind]
  have hany : Returns m s fun _ _ => True := by
    unfold Returns wp
    split <;> trivial
  exact (hm.returns hany).mono fun b t ht => (hf b).returns t (ht.2.trans hs)

theorem frees_ite {c : Prop} [Decidable c] {m k : FsM σ α} (hm : Frees m) (hk : Frees k) :
    Frees (if c then m else k) := by
  by_cases h : c
  · rw [if_pos h]; exact hm
  · rw [if_neg h]; exact hk

theorem KeepsFree.map {m : FsM σ β} (h : KeepsFree m) (f : β → α) : KeepsFree (f <$> m) :=
  ⟨fun s hs => (wp_map m f).mpr (h.returns s hs)⟩

/-! ## The calls -/

section Calls
variable [Config] [Storage σ]

theorem keepsFree_nandfsCreat (pathname : Path) (mode : Nat) :
    KeepsFree (nandfsCreat pathname mode : FsM σ Int) :=
  keepsFree_fsMutexLock _
    (frees_bind (quiet_createNewFile _ _) fun _ => frees_sysReturn _ _)

theorem keepsFree_nandfsOpen (pathname : Path) {flags : BitVec 32} (mode : Nat)
    (h : (isWronly flags || isRdonly flags) = true) :
    KeepsFree (nandfsOpen pathname flags mode : FsM σ Int) := by
  refine keepsFree_fsMutexLock _ ?_
  rw [h, Bool.not_true, if_neg Bool.false_ne_true]
  refine frees_bind (quiet_onStorage _) fun found => ?_
  refine frees_ite (frees_sysReturn _ _) (frees_ite ?_ ?_)
  · exact frees_fsMutexUnlock _ (keepsFree_nandfsCreat pathname 0)
  · exact frees_bind (quiet_setOpenFentry ..) fun _ => frees_sysReturn _ _

theorem keepsFree_nandfsLseek (fd offset : Int) (whence : Whence) :
    KeepsFree (nandfsLseek fd offset whence : FsM σ Int) := by
  refine keepsFree_fsMutexLock _ (frees_bind quiet_getTables fun s => ?_)
  refine frees_ite (frees_sysReturn _ _) (frees_ite (frees_sysReturn _ _) ?_)
  refine frees_bind (quiet_onStorage _) fun fileSize => frees_ite (frees_sysReturn _ _) ?_
  have hseek : ∀ newOffset : Int, Frees (sysVerify (-1) (decide (newOffset ≤ fsMaxFilesize)) do
      sysVerify (-1) (decide (newOffset ≤ fileSize)) do
      modifyTables fun s => s.openFileSetOffset fd newOffset
      sysReturn (-1) newOffset : FsM σ Int) := by
    intro newOffset
    refine frees_sysVerify _ _ (frees_sysVerify _ _ ?_)
    exact frees_bind (quiet_modifyTables _) fun _ => frees_sysReturn _ _
  cases whence
  · exact hseek _
  · exact hseek _
  · exact hseek _
  · exact frees_sysReturn _ _

theorem keepsFree_nandfsClose (fd : Int) : KeepsFree (nandfsClose fd : FsM σ Int) :=
  keepsFree_fsMutexLock _ (frees_bind (quiet_closeUtil fd) fun _ => frees_sysReturn _ _)

theorem frees_readLast (fd tid : Int) (inoNum : BitVec 32) (inoAddr : LogAddr) (buf : Nat → UInt8)
    (bytesRead tempCount readSize : Int) :
    Frees (readLast fd tid inoNum inoAddr buf bytesRead tempCount readSize : FsM σ _) := by
  unfold readLast
  refine frees_bind quiet_getTables fun _ => frees_ite (frees_sysReturn _ _) ?_
  refine frees_bind (quiet_onStorage _) fun _ => frees_sysVerify _ _ ?_
  exact frees_bind (quiet_modifyTables _) fun _ => frees_sysReturn _ _

/-- By induction on the bytes left: a round of the loop takes a block of them. -/
theorem frees_readBlocks (fd tid : Int) (inoNum : BitVec 32) (fSize : Int) (inoAddr : LogAddr)
    (buf : Nat → UInt8) (bytesRead tempCount readSize : Int) :
    Frees (readBlocks fd tid inoNum fSize inoAddr buf bytesRead tempCount readSize : FsM σ _) := by
  induction hn : tempCount.toNat using Nat.strong_induction_on
    generalizing inoAddr buf bytesRead tempCount readSize with
  | _ n ih =>
    rw [readBlocks]
    by_cases hc : fsBlockSize < tempCount ∧ readSize = fsBlockSize
    · rw [dif_pos hc]
      have hpos := fsBlockSize_pos
      refine frees_bind quiet_getTables fun _ => ?_
      refine frees_bind (quiet_onStorage _) fun _ => frees_sysVerify _ _ ?_
      exact frees_bind (quiet_modifyTables _) fun _ => ih _ (by omega) _ _ _ _ _ rfl
    · rw [dif_neg hc]
      exact frees_readLast ..

theorem keepsFree_nandfsRead (fd : Int) (buf : Nat → UInt8) (count : Int) :
    KeepsFree (nandfsRead fd buf count : FsM σ _) := by
  refine keepsFree_fsMutexLock _ (frees_bind quiet_getTables fun s => ?_)
  refine frees_sysVerify _ _ (frees_sysVerify _ _ (frees_sysVerify _ _ (frees_sysVerify _ _ ?_)))
  refine frees_bind (quiet_onStorage _) fun fSize => frees_sysVerify _ _ ?_
  refine frees_bind (quiet_onStorage _) fun tid => ?_
  refine frees_bind (quiet_onStorage _) fun read => frees_sysVerify _ _ ?_
  exact frees_bind (quiet_modifyTables _) fun _ => frees_readBlocks ..

theorem keepsFree_nandfsUnlink (pathname : Path) :
    KeepsFree (nandfsUnlink pathname : FsM σ Int) :=
  keepsFree_fsMutexLock _ (frees_bind (quiet_removeFile _ _) fun _ => frees_sysReturn _ _)

theorem keepsFree_nandfsMkdir (pathname : Path) (mode : Nat) :
    KeepsFree (nandfsMkdir pathname mode : FsM σ Int) :=
  keepsFree_fsMutexLock _ (frees_bind (quiet_createNewFile _ _) fun _ => frees_sysReturn _ _)

theorem keepsFree_nandfsRmdir (pathname : Path) :
    KeepsFree (nandfsRmdir pathname : FsM σ Int) :=
  keepsFree_fsMutexLock _ (frees_bind (quiet_removeFile _ _) fun _ => frees_sysReturn _ _)

theorem keepsFree_nandfsStat (path : Path) (buf : FileStat) :
    KeepsFree (nandfsStat path buf : FsM σ _) := by
  refine keepsFree_fsMutexLock _ (frees_bind (quiet_onStorage _) fun found => ?_)
  refine frees_sysVerify _ _ (frees_bind (quiet_onStorage _) fun devId => ?_)
  refine frees_bind (quiet_onStorage _) fun blocks => frees_sysVerify _ _ ?_
  refine frees_bind (quiet_onStorage _) fun size => frees_sysVerify _ _ ?_
  exact frees_sysReturn _ _

theorem keepsFree_nandfsFsync (fd : Int) : KeepsFree (nandfsFsync fd : FsM σ Int) :=
  keepsFree_fsMutexLock _
    (frees_bind (quiet_fsyncUtil fd) fun _ => frees_sysVerify _ _ (frees_sysReturn _ _))

theorem keepsFree_nandfsDup2 (oldFd newFd : Int) :
    KeepsFree (nandfsDup2 oldFd newFd : FsM σ Int) :=
  keepsFree_fsMutexLock _ (frees_bind (quiet_dupUtil _ _ _) fun _ => frees_sysReturn _ _)

theorem keepsFree_nandfsDup (oldFd : Int) : KeepsFree (nandfsDup oldFd : FsM σ Int) :=
  keepsFree_fsMutexLock _ (frees_bind (quiet_dupUtil _ _ _) fun _ => frees_sysReturn _ _)

theorem frees_openStream (ds : DirstreamId) (inoNum : BitVec 32) :
    Frees (openStream ds inoNum : FsM σ StreamPtr) := by
  have hgiveUp : Frees (do
      modifyTables fun s => s.closeDirstream ds
      sysReturn .minusOne .null : FsM σ StreamPtr) :=
    frees_bind (quiet_modifyTables _) fun _ => frees_sysReturn _ _
  unfold openStream
  refine frees_bind (quiet_onStorage _) fun read => frees_ite hgiveUp ?_
  refine frees_bind (quiet_modifyTables _) fun _ => ?_
  refine frees_bind (quiet_setOpenFentry ..) fun fd => frees_ite hgiveUp ?_
  refine frees_bind (quiet_modifyTables _) fun _ => ?_
  exact frees_bind (quiet_modifyTables _) fun _ => frees_sysReturn _ _

theorem keepsFree_nandfsOpendir (name : Path) :
    KeepsFree (nandfsOpendir name : FsM σ StreamPtr) := by
  refine keepsFree_fsMutexLock _ (frees_bind (quiet_onStorage _) fun found => ?_)
  refine frees_ite (frees_sysReturn _ _) (frees_bind quiet_getTables fun s => ?_)
  cases s.getFreeDirstreamId with
  | none => exact frees_sysReturn _ _
  | some ds => exact frees_openStream ds _

omit [Config] [Storage σ] in
theorem keepsFree_nandfsClosedir (dir : Option DirstreamId) :
    KeepsFree (nandfsClosedir dir : FsM σ Int) := by
  refine keepsFree_fsMutexLock _ (frees_bind quiet_getTables fun s => ?_)
  split
  · exact frees_bind (quiet_modifyTables _) fun _ => frees_sysReturn _ _
  · exact frees_sysReturn _ _

theorem keepsFree_nandfsReaddir (dir : Option DirstreamId) :
    KeepsFree (nandfsReaddir dir : FsM σ StreamPtr) := by
  refine keepsFree_fsMutexLock _ (frees_bind quiet_getTables fun s => ?_)
  split
  · exact frees_bind (quiet_readDirStreamNextEntry _) fun _ =>
      frees_ite (frees_sysReturn _ _) (frees_sysReturn _ _)
  · exact frees_sysReturn _ _

theorem frees_scanBlocks (cb : ScandirCallbacks) (inoNum : BitVec 32) (fSize : Int)
    (rounds : Nat) : ∀ inoAddr offset list,
      Frees (scanBlocks cb inoNum fSize rounds inoAddr offset list : FsM σ _) := by
  induction rounds with
  | zero => exact fun _ _ _ => ⟨fun _ _ => trivial⟩
  | succ rounds ih =>
    intro inoAddr offset list
    refine frees_ite ?_ (frees_sysReturn _ _)
    refine frees_bind (quiet_onStorage _) fun read => frees_sysVerify _ _ ?_
    refine frees_bind quiet_get fun s => frees_bind (quiet_scanBlock ..) fun found => ?_
    cases found with
    | none => exact frees_sysReturn _ _
    | some list =>
      refine frees_bind (quiet_onStorage _) fun next => ?_
      refine frees_ite (frees_sysReturn _ _) (frees_ite (frees_sysReturn _ _) ?_)
      exact frees_bind (quiet_onStorage _) fun reread => frees_sysVerify _ _ (ih _ _ _)

theorem keepsFree_nandfsScandir (rounds : Nat) (dir : Path) (cb : ScandirCallbacks) :
    KeepsFree (nandfsScandir rounds dir cb : FsM σ _) := by
  refine keepsFree_fsMutexLock _ (frees_bind (quiet_onStorage _) fun found => ?_)
  refine frees_sysVerify _ _ (frees_sysVerify _ _ ?_)
  exact frees_bind (quiet_onStorage _) fun fSize => frees_scanBlocks ..

/-! ## A write that leaves through `WRITE_VERIFY` -/

/-- A block could not be written: the transaction is aborted. -/
def givenUp (tid : Int) : EStateM Halt σ Bool := do
  let _ ← Storage.abortTransaction tid
  return false

/-- What `writeBlocks` asks of the storage: does every block after the first get written? -/
def laterBlocksWritten (tid : Int) (inoNum : BitVec 32) (buf : Nat → UInt8)
    (fileOffset bytesWritten tempCount : Int) : EStateM Halt σ Bool := do
  if _h : fsBlockSize < tempCount then
    let res ← Storage.writeFileBlock fileOffset fsBlockSize tid
      fun j => buf (bytesWritten + j).toNat
    if res ≠ 0 then givenUp tid
    else
      let _ ← takeWasCommited tid
      laterBlocksWritten tid inoNum buf (fileOffset + fsBlockSize) (bytesWritten + fsBlockSize)
        (tempCount - fsBlockSize)
  else if tempCount = 0 then return true
  else
    let inoAddr ← Storage.transactionGetInoAddr tid
    let read ← Storage.readFileBlock inoNum fileOffset inoAddr tid
    Storage.transactionSetInoAddr tid read.inoAddr
    if read.res ≠ 0 then givenUp tid
    else
      let res ← Storage.writeFileBlock fileOffset tempCount tid
        (read.block.copyFrom 0 buf bytesWritten tempCount)
      if res ≠ 0 then givenUp tid else return true
termination_by tempCount.toNat
decreasing_by
  have := fsBlockSize_pos
  omega

/-- What `nandfs_write` asks of the storage: `false` if it gets past the first block and a
later one fails. -/
def noLaterBlockFails (s : FileTables) (fd : Int) (buf : Nat → UInt8) (count : Int) :
    EStateM Halt σ Bool := do
  let inoNum := s.getFileIdByFd fd
  let fileOffset := (s.openFiles fd).offset
  if s.verifyFd fd ≠ 0 then return true
  if ¬0 ≤ count then return true
  if isWronly (s.openFiles fd).flags = false then return true
  if count = 0 then return true
  let fSize ← Storage.getFileSize inoNum
  if ¬fileOffset ≤ fSize then return true
  let tid ← Storage.getTidByFileId inoNum
  if tid = tidEmpty then return true
  setWriteDetails tid fSize
  let read ← Storage.readFileBlock inoNum fileOffset LogAddr.empty tid
  if read.res ≠ 0 then return true
  let first := firstBlock fileOffset count
  let res ← Storage.writeFileBlock first.blockOffset (first.offsetInBlock + first.writeSize) tid
    (read.block.copyFrom first.offsetInBlock buf 0 first.writeSize)
  if res ≠ 0 then return true
  let _ ← takeWasCommited tid
  laterBlocksWritten tid inoNum buf (fileOffset + first.writeSize) first.writeSize
    (count - first.writeSize)

/-- `m`, entered with the mutex, keeps it if `p` answers `false` for the storage, and gives it
back otherwise. -/
structure Tracks (m : FsM σ Int) (p : EStateM Halt σ Bool) (s : FileSystem σ) : Prop where
  leaks : ∀ st, p s.storage = .ok false st → ∃ a t, m s = .ok a t ∧ t.lock = (true, false)
  frees : (∀ st, p s.storage ≠ .ok false st) → Returns m s fun _ t => t.lock = (false, false)

section Tracks
omit [Config] [Storage σ]
variable {m next : FsM σ Int} {p : EStateM Halt σ Bool} {s : FileSystem σ}

theorem tracks_of_frees (h : Frees m) (hs : s.lock = (true, false)) : Tracks m (pure true) s where
  leaks st hp := by cases hp
  frees _ := h.returns s hs

theorem tracks_onStorage {q : EStateM Halt σ β} {f : β → FsM σ Int} {g : β → EStateM Halt σ Bool}
    (h : ∀ b st, Tracks (f b) (g b) { s with storage := st }) :
    Tracks (onStorage q >>= f) (q >>= g) s := by
  cases hq : q s.storage with
  | ok b st =>
    have hm : onStorage q s = .ok b { s with storage := st } := by simp only [onStorage, hq]
    refine ⟨fun st' hp => ?_, fun hp => ?_⟩
    · rw [bind_ok hm]
      exact (h b st).leaks st' (by rwa [bind_ok hq] at hp)
    · unfold Returns wp
      rw [bind_ok hm]
      exact (h b st).frees fun st' => by rw [← bind_ok (f := g) hq]; exact hp st'
  | error e st =>
    have hm : onStorage q s = .error (.halt e) { s with storage := st } := by
      simp only [onStorage, hq]
    refine ⟨fun st' hp => ?_, fun _ => ?_⟩
    · rw [bind_error hq] at hp
      cases hp
    · unfold Returns wp
      rw [bind_error hm]
      trivial

theorem tracks_getTables {f : FileTables → FsM σ Int} (h : Tracks (f s.tables) p s) :
    Tracks (getTables >>= f) p s := ⟨h.leaks, h.frees⟩

theorem tracks_modifyTables {f : FileTables → FileTables} {k : Unit → FsM σ Int}
    (h : Tracks (k ()) p { s with tables := f s.tables }) :
    Tracks (modifyTables f >>= k) p s := ⟨h.leaks, h.frees⟩

theorem tracks_fsMutexLock {err : Int} (hs : s.lock = (false, false))
    (h : Tracks next p { s with mutex := true }) : Tracks (fsMutexLock err next) p s := by
  have hfree : s.mutex = false := congrArg Prod.fst hs
  refine ⟨fun st hp => ?_, fun hp => ?_⟩
  · rw [fsMutexLock_free hfree]
    exact h.leaks st hp
  · rw [returns_congr (fsMutexLock_free hfree)]
    exact h.frees hp

theorem tracks_ite {c : Prop} [Decidable c] {k : FsM σ Int} {q : EStateM Halt σ Bool}
    (hm : c → Tracks m p s) (hk : ¬c → Tracks k q s) :
    Tracks (if c then m else k) (if c then p else q) s := by
  by_cases h : c
  · rw [if_pos h, if_pos h]; exact hm h
  · rw [if_neg h, if_neg h]; exact hk h

theorem tracks_sysVerify {test : Bool} {c : Prop} [Decidable c] (hc : test = true ↔ ¬c)
    (hs : s.lock = (true, false)) (h : ¬c → Tracks next p s) :
    Tracks (sysVerify (-1) test next) (if c then pure true else p) s := by
  unfold sysVerify
  by_cases ht : c
  · rw [if_pos ht, if_neg fun h => hc.mp h ht]
    exact tracks_of_frees (frees_sysReturn _ _) hs
  · rw [if_neg ht, if_pos (hc.mpr ht)]
    exact h ht

end Tracks

theorem tracks_sysTrVerify {next : FsM σ Int} {p : EStateM Halt σ Bool}
    {s : FileSystem σ} {tid res : Int} (hs : s.lock = (true, false)) (h : Tracks next p s) :
    Tracks (sysTrVerify tid res next) (if res ≠ 0 then pure true else p) s := by
  unfold sysTrVerify
  by_cases hr : res = 0
  · rw [if_pos hr, if_neg (not_not_intro hr)]
    exact h
  · rw [if_neg hr, if_pos hr]
    exact tracks_of_frees
      (frees_bind (quiet_onStorage _) fun _ => frees_sysVerify _ _ (frees_sysReturn _ _)) hs

theorem tracks_writeVerify {next : FsM σ Int} {p : EStateM Halt σ Bool}
    {s : FileSystem σ} {tid commitedBytes res : Int} (hs : s.lock = (true, false))
    (h : Tracks next p s) :
    Tracks (writeVerify tid commitedBytes res next) (if res ≠ 0 then givenUp tid else p) s := by
  unfold writeVerify
  by_cases hr : res = 0
  · rw [if_pos hr, if_neg (not_not_intro hr)]
    exact h
  · rw [if_neg hr, if_pos hr]
    refine tracks_onStorage fun b st => ⟨fun _ _ => ?_, fun hp => absurd rfl (hp st)⟩
    by_cases hb : b ≠ 0
    · rw [if_pos hb]
      exact ⟨_, _, rfl, hs⟩
    · rw [if_neg hb]
      exact ⟨_, _, rfl, hs⟩

theorem tracks_writeLast (fd tid : Int) (inoNum : BitVec 32) (buf : Nat → UInt8)
    (bytesWritten commited tempCount : Int) (s : FileSystem σ) (hs : s.lock = (true, false))
    (htemp : ¬fsBlockSize < tempCount) :
    Tracks (writeLast fd tid inoNum buf bytesWritten commited tempCount)
      (laterBlocksWritten tid inoNum buf (s.tables.openFiles fd).offset bytesWritten tempCount)
      s := by
  rw [laterBlocksWritten, dif_neg htemp]
  unfold writeLast
  refine tracks_ite (fun _ => tracks_of_frees (frees_sysReturn _ _) hs) fun _ => ?_
  refine tracks_getTables (tracks_onStorage fun inoAddr _ => tracks_onStorage fun read _ => ?_)
  refine tracks_onStorage fun _ _ => tracks_writeVerify hs ?_
  refine tracks_onStorage fun res _ => tracks_writeVerify hs (tracks_modifyTables ?_)
  exact tracks_of_frees (frees_sysReturn _ _) hs

omit [Config] [Storage σ] in
theorem offset_openFileIncOffset {s : FileTables} {fd : Int} (hfd : fd ≠ fsErrorFentryMax)
    (val : Int) :
    ((s.openFileIncOffset fd val).openFiles fd).offset = (s.openFiles fd).offset + val := by
  simp [FileTables.openFileIncOffset_of_ne hfd, FileTables.openFileSetOffset_of_ne hfd]

/-- By induction on the bytes left, as the loop runs. -/
theorem tracks_writeBlocks {fd : Int} (hfd : fd ≠ fsErrorFentryMax) (tid : Int)
    (inoNum : BitVec 32) (buf : Nat → UInt8) (bytesWritten commited tempCount offset : Int)
    (s : FileSystem σ) (hs : s.lock = (true, false))
    (hoff : (s.tables.openFiles fd).offset = offset) :
    Tracks (writeBlocks fd tid inoNum buf bytesWritten commited tempCount)
      (laterBlocksWritten tid inoNum buf offset bytesWritten tempCount) s := by
  induction hn : tempCount.toNat using Nat.strong_induction_on
    generalizing bytesWritten commited tempCount offset s with
  | _ n ih =>
    subst hoff
    rw [writeBlocks]
    by_cases hc : fsBlockSize < tempCount
    · rw [dif_pos hc, laterBlocksWritten, dif_pos hc]
      have hpos := fsBlockSize_pos
      refine tracks_getTables (tracks_onStorage fun res st => ?_)
      refine tracks_writeVerify hs (tracks_modifyTables (tracks_onStorage fun _ st' => ?_))
      refine ih (tempCount - fsBlockSize).toNat ?_ _ _ _ _ _ ?_ ?_ rfl
      · omega
      · exact hs
      · exact offset_openFileIncOffset hfd fsBlockSize
    · rw [dif_neg hc]
      exact tracks_writeLast fd tid inoNum buf bytesWritten commited tempCount s hs hc

theorem tracks_nandfsWrite (fd : Int) (buf : Nat → UInt8) (count : Int) (s : FileSystem σ)
    (hfree : s.lock = (false, false)) :
    Tracks (nandfsWrite fd buf count) (noLaterBlockFails s.tables fd buf count) s := by
  have hs : (true, s.strayUnlock) = (true, false) := congrArg (Prod.mk true ∘ Prod.snd) hfree
  unfold nandfsWrite noLaterBlockFails
  refine tracks_fsMutexLock hfree (tracks_getTables (tracks_sysVerify (by simp) hs fun hfd => ?_))
  have hne := FileTables.ne_fentryMax (FileTables.verifyFd_eq_zero (not_not.mp hfd)).1
  refine tracks_sysVerify (by simp) hs fun _ => tracks_sysVerify (by simp) hs fun _ => ?_
  refine tracks_ite (fun _ => tracks_of_frees (frees_sysReturn _ _) hs) fun _ => ?_
  refine tracks_onStorage fun fSize _ => tracks_sysVerify (by simp) hs fun _ => ?_
  refine tracks_onStorage fun tid _ => ?_
  refine tracks_ite (fun _ => tracks_of_frees (frees_sysReturn _ _) hs) fun _ => ?_
  unfold writeFirst
  refine tracks_onStorage fun _ _ => tracks_onStorage fun read _ => tracks_sysTrVerify hs ?_
  refine tracks_onStorage fun res _ => tracks_sysTrVerify hs (tracks_modifyTables ?_)
  refine tracks_onStorage fun _ st => ?_
  refine tracks_writeBlocks hne tid _ buf _ _ _ _ _ ?_ ?_
  · exact hs
  · exact offset_openFileIncOffset hne _

/-! ## When a call leaks the mutex -/

/-- The call returns with the mutex locked: `open` with neither access flag, and `write` when a
block after the first cannot be read or written. -/
def Call.Leaks (s : FileSystem σ) : Call → Prop
  | .open _ flags _ => (isWronly flags || isRdonly flags) = false
  | .write fd buf count => ∃ st, noLaterBlockFails s.tables fd buf count s.storage = .ok false st
  | _ => False

theorem nandfsOpen_leaks (pathname : Path) {flags : BitVec 32} (mode : Nat) {s : FileSystem σ}
    (hfree : s.lock = (false, false)) (h : (isWronly flags || isRdonly flags) = false) :
    nandfsOpen pathname flags mode s = .ok (-1) { s with mutex := true } := by
  have hmutex : s.mutex = false := congrArg Prod.fst hfree
  unfold nandfsOpen
  rw [fsMutexLock_free hmutex, h]
  rfl

omit [Config] [Storage σ] in
/-- A call that returns with the mutex locked does not return with it free. -/
theorem not_returns_of_leaks {m : FsM σ α} {s : FileSystem σ}
    (h : ∃ a t, m s = .ok a t ∧ t.lock = (true, false)) :
    ¬Returns m s fun _ t => t.lock = (false, false) := by
  obtain ⟨a, t, hm, ht⟩ := h
  intro hr
  have hfree := hr.of_ok hm
  rw [ht] at hfree
  exact absurd hfree (by decide)

/-- Made with the mutex free, a call returns with it free, and unlocks it only while it holds
it, exactly when the call does not come to one of the two leaking exits. -/
theorem mutexReleased_iff (c : Call) (s : FileSystem σ) (hfree : s.mutex = false)
    (hstray : s.strayUnlock = false) :
    Returns c.run s (fun _ t => t.mutex = false ∧ t.strayUnlock = false) ↔ ¬c.Leaks s := by
  have hs : s.lock = (false, false) := Prod.ext hfree hstray
  have hlock : ∀ m : FsM σ Reply,
      Returns m s (fun _ t => t.mutex = false ∧ t.strayUnlock = false) ↔
        Returns m s fun _ t => t.lock = (false, false) := by
    intro m
    exact ⟨fun h => h.mono fun _ _ ht => Prod.ext ht.1 ht.2,
      fun h => h.mono fun _ _ ht => ⟨congrArg Prod.fst ht, congrArg Prod.snd ht⟩⟩
  rw [hlock]
  have hkeeps : KeepsFree (c.run : FsM σ Reply) → ¬c.Leaks s →
      (Returns c.run s (fun _ t => t.lock = (false, false)) ↔ ¬c.Leaks s) :=
    fun hk hn => ⟨fun _ => hn, fun _ => hk.returns s hs⟩
  cases c with
  | «open» pathname flags mode =>
    cases h : isWronly flags || isRdonly flags with
    | true =>
      have hn : ¬(Call.open pathname flags mode).Leaks s := by simp [Call.Leaks, h]
      exact hkeeps ((keepsFree_nandfsOpen pathname mode h).map _) hn
    | false =>
      have hl : (Call.open pathname flags mode).Leaks s := h
      refine ⟨fun hr => absurd hr (not_returns_of_leaks ?_), fun hn => absurd hl hn⟩
      refine ⟨.int (-1), { s with mutex := true }, ?_, congrArg (Prod.mk true) hstray⟩
      have hrun := nandfsOpen_leaks pathname mode hs h
      simp only [Call.run, Functor.map, EStateM.map, hrun]
  | creat pathname mode => exact hkeeps ((keepsFree_nandfsCreat pathname mode).map _) id
  | close fd => exact hkeeps ((keepsFree_nandfsClose fd).map _) id
  | read fd buf count => exact hkeeps ((keepsFree_nandfsRead fd buf count).map _) id
  | write fd buf count =>
    have htracks := tracks_nandfsWrite fd buf count s hs
    refine Iff.trans (wp_map (nandfsWrite fd buf count) Reply.int) ⟨fun hr => ?_, fun hn => ?_⟩
    · rintro ⟨st, hst⟩
      exact not_returns_of_leaks (htracks.leaks st hst) hr
    · exact htracks.frees fun st hst => hn ⟨st, hst⟩
  | lseek fd offset whence => exact hkeeps ((keepsFree_nandfsLseek fd offset whence).map _) id
  | fsync fd => exact hkeeps ((keepsFree_nandfsFsync fd).map _) id
  | dup oldFd => exact hkeeps ((keepsFree_nandfsDup oldFd).map _) id
  | dup2 oldFd newFd => exact hkeeps ((keepsFree_nandfsDup2 oldFd newFd).map _) id
  | stat path buf => exact hkeeps ((keepsFree_nandfsStat path buf).map _) id
  | mkdir pathname mode => exact hkeeps ((keepsFree_nandfsMkdir pathname mode).map _) id
  | unlink pathname => exact hkeeps ((keepsFree_nandfsUnlink pathname).map _) id
  | rmdir pathname => exact hkeeps ((keepsFree_nandfsRmdir pathname).map _) id
  | opendir name => exact hkeeps ((keepsFree_nandfsOpendir name).map _) id
  | readdir dir => exact hkeeps ((keepsFree_nandfsReaddir dir).map _) id
  | scandir rounds dir cb => exact hkeeps ((keepsFree_nandfsScandir rounds dir cb).map _) id
  | closedir dir => exact hkeeps ((keepsFree_nandfsClosedir dir).map _) id

end Calls

section Examples

attribute [local instance] smallPage

theorem mutexReleased_close :
    Returns (Call.close 0).run (FileSystem.booted ([] : FixedFiles))
      (fun _ t => t.mutex = false ∧ t.strayUnlock = false) :=
  (mutexReleased_iff (.close 0) (FileSystem.booted ([] : FixedFiles)) rfl rfl).mpr id

/-- `open("/", 0)` leaves the mutex locked. -/
theorem open_leaves_mutex_locked :
    ¬∀ (c : Call) (s : FileSystem FixedFiles), s.mutex = false → s.strayUnlock = false →
      Returns c.run s (fun _ t => t.mutex = false ∧ t.strayUnlock = false) := by
  intro hall
  have h := hall (.open [0x2f] 0 0) (FileSystem.booted []) rfl rfl
  have hrun : (Call.open [0x2f] 0 0).run (FileSystem.booted ([] : FixedFiles)) =
      .ok (.int (-1)) { FileSystem.booted ([] : FixedFiles) with mutex := true } := rfl
  exact absurd (h.of_ok hrun).1 (by decide)

end Examples

end NandFs
