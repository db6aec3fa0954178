import NandFs.CallRuns

/-! # Descriptors and vnodes over runs

The calls keep the vnode table in step with the open-file entries, with directory streams that
hold a descriptor of their own, unless an `opendir` finds the open-file table full: it takes
`FS_ERROR_FENTRY_MAX` for a descriptor then, and writes over the vnodes.  A descriptor is
released by the call that closes it or takes it, unless a stream is closed whose descriptor has
been closed under it and opened anew: nothing ties a stream to the entry that was opened for it.
-/
namespace NandFs

open Program DescriptorTable FileTables

/-- What the calls keep of the tables: a stream has no descriptor or one of the table. -/
structure TablesInv (s : FileTables) : Prop where
  consistent : s.Consistent
  stream_fd : ∀ ds, (s.dirstreams ds).fd = fdEmpty ∨ isFdLegal (s.dirstreams ds).fd = true

/-- Descriptors that are open stay open as they are, but for those that are `closed`. -/
def KeepsOpen (closed : Int → Prop) (s t : FileTables) : Prop :=
  ∀ fd o, s.opens fd = some o → closed fd ∨ t.opens fd = some o

theorem keepsOpen_of_eq {closed : Int → Prop} {s t : FileTables} (h : t.opens = s.opens) :
    KeepsOpen closed s t := fun fd o ho => .inr (by rw [h]; exact ho)

theorem KeepsOpen.mono {closed closed' : Int → Prop} {s t : FileTables} (h : KeepsOpen closed s t)
    (hc : ∀ fd, closed fd → closed' fd) : KeepsOpen closed' s t :=
  fun fd o ho => (h fd o ho).imp_left (hc fd)

theorem KeepsOpen.trans {closed : Int → Prop} {s u t : FileTables} (h : KeepsOpen closed s u)
    (h' : KeepsOpen closed u t) : KeepsOpen closed s t :=
  fun fd o ho => (h fd o ho).elim .inl fun hu => h' fd o hu

/-! ## One step -/

namespace TablesInv
variable {s t : FileTables} (h : TablesInv s)
include h

theorem withUser (user : UserId) : TablesInv { s with currentUser := user } where
  consistent := h.consistent.of_eq (fun _ _ => rfl) rfl
  stream_fd := h.stream_fd

theorem setDirstream {ds : DirstreamId} {d : DirStream}
    (hd : d.fd = fdEmpty ∨ isFdLegal d.fd = true) :
    TablesInv (s.setDirstream ds d) where
  consistent := h.consistent.setDirstream ds d
  stream_fd e := by
    by_cases he : e = ds
    · simpa [he] using hd
    · simpa [he] using h.stream_fd e

theorem opened {inoNum flags : BitVec 32} {fType : Nat} {fd : Int} (hino : inoNum ≠ inoNumEmpty)
    (ho : Opened s inoNum flags fType fd t) :
    TablesInv t ∧ KeepsOpen (fun _ => False) s t ∧ isFdLegal fd = true := by
  obtain ⟨offset, rfl⟩ := ho.tables_eq
  obtain ⟨hv, hhold⟩ := chooseVnode_spec ho.vnode_ne
  have hne := ho.fd_ne
  rw [ho.fd_eq] at hne ⊢
  obtain ⟨hfd, hempty⟩ := getFreeOpenFileEntry_spec hne
  have hfree : s.opens s.getFreeOpenFileEntry = none := opens_eq_none.mpr fun _ => hempty
  refine ⟨⟨?_, ?_⟩, fun e o he => .inr ?_, hfd⟩
  · exact h.consistent.setFentry hfd hfree hv hino (hhold.imp_left And.left)
  · rw [dirstreams_setFentry]
    exact h.stream_fd
  · have hefd : e ≠ s.getFreeOpenFileEntry := by
      rintro rfl
      rw [hfree] at he
      cases he
    rw [opens_setFentry hfd flags offset hv.ne_empty, Function.update_of_ne hefd]
    exact he

theorem releaseFentry {fd : Int} {o : Open Int UserId} (ho : s.opens fd = some o) :
    TablesInv (s.releaseFentry fd) ∧ KeepsOpen (· = fd) s (s.releaseFentry fd) := by
  refine ⟨⟨h.consistent.releaseFentry ho, ?_⟩, fun e p hp => ?_⟩
  · rw [dirstreams_releaseFentry]
    exact h.stream_fd
  · by_cases he : e = fd
    · exact .inl he
    · rw [opens_releaseFentry (isFdLegal_of_opens ho), Function.update_of_ne he]
      exact .inr hp

theorem released {fd : Int} (hr : Released s fd t) :
    TablesInv t ∧ KeepsOpen (· = fd) s t := by
  obtain ⟨hlegal, hempty, -⟩ := verifyFd_eq_zero hr.verified
  rw [hr.tables_eq]
  exact h.releaseFentry (opens_eq_some hlegal hempty)

theorem emptied {fd : Int} (he : Emptied s fd t) : TablesInv t ∧ KeepsOpen (· = fd) s t := by
  rcases he with ⟨-, rfl⟩ | ⟨-, hr⟩
  · exact ⟨h, keepsOpen_of_eq rfl⟩
  · exact h.released hr

theorem duplicated {oldFd newFd : Int} (hd : Duplicated s oldFd newFd t) :
    TablesInv t ∧ KeepsOpen (· = newFd) s t := by
  by_cases hne : oldFd = newFd
  · subst hne
    obtain ⟨hr, rfl⟩ := hd.self
    obtain ⟨hu, hkeeps⟩ := h.released hr
    have hfree : (s.releaseFentry oldFd).opens oldFd = none := by
      rw [opens_releaseFentry hd.legal, Function.update_self]
    refine ⟨⟨hu.consistent.setFentry_empty hd.legal hfree _ _ _ _, ?_⟩, ?_⟩
    · rw [dirstreams_setFentry]
      exact hu.stream_fd
    · exact hkeeps.trans (keepsOpen_of_eq (opens_setFentry_empty hd.legal hfree _ _ _ _))
  · obtain ⟨u, he, hopens, rfl⟩ := hd.other hne
    obtain ⟨hu, hkeeps⟩ := h.emptied he
    have hold := hopens.trans hd.opens_old
    have hv := hu.consistent.vnode_of_open _ _ hold
    have hino : (u.vnodes (s.openFiles oldFd).vnode).inoNum ≠ inoNumEmpty := by
      intro heq
      have h0 := (hu.consistent.inoNum_empty _ hv).mp heq
      have hpos := hu.consistent.nReferences_pos hold
      omega
    refine ⟨⟨?_, ?_⟩, hkeeps.trans fun e o ho => ?_⟩
    · exact hu.consistent.setFentry hd.legal he.opens_eq_none hv hino (.inl rfl)
    · rw [dirstreams_setFentry]
      exact hu.stream_fd
    · by_cases hefd : e = newFd
      · exact .inl hefd
      · refine .inr ?_
        rw [opens_setFentry hd.legal _ _ hv.ne_empty, Function.update_of_ne hefd]
        exact ho

/-- A stream gives up the entry it names, if that is open, and touches no other. -/
theorem closeDirstream (ds : DirstreamId) :
    TablesInv (s.closeDirstream ds) ∧ KeepsOpen (· = (s.dirstreams ds).fd) s (s.closeDirstream ds) := by
  cases hopen : s.opens (s.dirstreams ds).fd with
  | some o =>
    rw [h.consistent.closeDirstream_eq hopen]
    obtain ⟨hr, hkeeps⟩ := h.releaseFentry hopen
    exact ⟨hr.setDirstream (.inl rfl), hkeeps⟩
  | none =>
    rcases h.stream_fd ds with hfd | hlegal
    · have heq : s.closeDirstream ds = s.setDirstream ds initDirStream := by
        unfold FileTables.closeDirstream
        simp only [if_pos hfd]
      rw [heq]
      exact ⟨h.setDirstream (.inl rfl), keepsOpen_of_eq rfl⟩
    · -- nothing is open there, so what is taken for its vnode lies outside the table
      have hout : ¬IsVnode (s.openFiles (s.dirstreams ds).fd).vnode := by
        have hempty := opens_eq_none.mp hopen hlegal
        intro hv
        exact hv.ne_empty (by simpa [isOpenFileEntryEmpty] using hempty)
      obtain ⟨vn, heq⟩ := closeDirstream_writes hlegal
      have hopens : (s.closeDirstream ds).opens = s.opens := by
        rw [heq, opens_setDirstream, opens_setOpenFile hlegal, openOf_initFileEntry, opens_setVnode,
          ← hopen, Function.update_eq_self]
      refine ⟨⟨h.consistent.of_eq (fun v hv => ?_) hopens, ?_⟩, keepsOpen_of_eq hopens⟩
      · have hne : v ≠ (s.openFiles (s.dirstreams ds).fd).vnode := by
          rintro rfl
          exact hout hv
        rw [heq, setOpenFile_of_ne (ne_fentryMax hlegal)]
        simp [hne]
      · intro e
        rw [dirstreams_closeDirstream]
        by_cases he : e = ds
        · exact .inl (by rw [he, Function.update_self]; rfl)
        · rw [Function.update_of_ne he]
          exact h.stream_fd e

theorem setStream [Config] {ds : DirstreamId} {fd : Int} (hfd : isFdLegal fd = true) :
    TablesInv (NandFs.setStream s ds fd) := by
  have hd : TablesInv (s.setDirstream ds { s.dirstreams ds with fd := fd }) :=
    h.setDirstream (.inr hfd)
  refine ⟨hd.consistent.openFileSetOffset hfd directoryFirstEntryOffset, ?_⟩
  unfold NandFs.setStream
  rw [openFileSetOffset_of_ne (ne_fentryMax hfd)]
  exact hd.stream_fd

theorem setInoAddr (ds : DirstreamId) (inoAddr : LogAddr) :
    TablesInv (s.setDirstream ds { s.dirstreams ds with inoAddr := inoAddr }) :=
  h.setDirstream (h.stream_fd ds)

/-- Nothing that is open is released by opening a stream that is free. -/
theorem streamOpened [Config] {ds : DirstreamId} {r : StreamPtr} (hfree : (s.dirstreams ds).fd < 0)
    (hroom : s.getFreeOpenFileEntry ≠ fdEmpty) (ho : StreamOpened s ds r t) :
    TablesInv t ∧ KeepsOpen (fun _ => False) s t := by
  cases ho with
  | failed =>
    obtain ⟨ht, hkeeps⟩ := h.closeDirstream ds
    refine ⟨ht, fun fd o ho => (hkeeps fd o ho).imp_left fun heq => ?_⟩
    have hlegal := isFdLegal_of_opens ho
    simp only [isFdLegal, Bool.and_eq_true, decide_eq_true_eq] at hlegal
    omega
  | full inoAddr hfull hvnode => exact absurd hfull hroom
  | opened inoAddr hino hopened =>
    obtain ⟨hu, hkeeps, hlegal⟩ := (h.setInoAddr ds inoAddr).opened hino hopened
    refine ⟨hu.setStream hlegal, fun fd o ho => .inr ?_⟩
    refine (congrFun (opens_openFileSetOffset hlegal _) fd).trans ?_
    exact (hkeeps fd o ho).resolve_left id

end TablesInv

/-! ## Runs -/

/-- The calls that open and close descriptors. -/
def Call.opensTables : Call → Bool
  | .open .. | .creat .. | .close .. | .dup .. | .dup2 .. | .opendir .. | .closedir .. => true
  | _ => false

/-- The call closes the descriptor: as the one it is given, the one it takes, or the one that
the directory stream it is given was opened with. -/
def Call.Closes (owner : Owners) (fd : Int) : Call → Prop
  | .close fd' => fd = fd'
  | .dup2 _ newFd => fd = newFd
  | .closedir (some ds) => owner fd = some ds
  | _ => False

/-- A stream is closed that still has its descriptor or none that is open, and is opened while an
open-file entry is free. -/
def Call.StreamSafe (s : FileTables) (owner : Owners) : Call → Prop
  | .closedir (some ds) => s.verifyDirstream (some ds) = true →
      s.isOpenFileEntryEmpty (s.dirstreams ds).fd = true ∨ owner (s.dirstreams ds).fd = some ds
  | .opendir _ => s.getFreeDirstreamId ≠ none → s.getFreeOpenFileEntry ≠ fdEmpty
  | _ => True

theorem FileTables.getFreeDirstreamId_spec {s : FileTables} {ds : DirstreamId}
    (h : s.getFreeDirstreamId = some ds) : (s.dirstreams ds).fd < 0 := by
  simpa using List.find?_some h

theorem TablesInv.streamClosed {s t : FileTables} {owner : Owners} {ds : DirstreamId}
    (h : TablesInv s) (hsafe : (Call.closedir (some ds)).StreamSafe s owner)
    (hc : StreamClosed s ds t) :
    TablesInv t ∧ KeepsOpen (fun fd => owner fd = some ds) s t := by
  obtain ⟨ht, hkeeps⟩ := h.closeDirstream ds
  rw [hc.tables_eq]
  refine ⟨ht, fun fd o ho => (hkeeps fd o ho).imp_left fun heq => ?_⟩
  rw [heq] at ho ⊢
  refine (hsafe hc.verified).resolve_left fun hempty => ?_
  rw [opens_eq_none.mpr fun _ => hempty] at ho
  cases ho

section
variable {σ : Type} [Config] [Storage σ]

/-- What a call keeps, whether it fails or does what it is for. -/
theorem returns_tablesInv {s : FileSystem σ} {c : Call} {owner : Owners}
    (hc : c.opensTables = true) (hsafe : c.StreamSafe s.tables owner) (h : TablesInv s.tables) :
    Returns c.run s fun _ t =>
      TablesInv t.tables ∧ KeepsOpen (c.Closes owner ·) s.tables t.tables := by
  have hsame : ∀ {t : FileTables} {closed : Int → Prop}, t = s.tables →
      TablesInv t ∧ KeepsOpen closed s.tables t := fun heq => by
    rw [heq]
    exact ⟨h, keepsOpen_of_eq rfl⟩
  have hopened : ∀ {fd : Int} {t : FileTables} {closed : Int → Prop}, OpenedFile s.tables fd t →
      TablesInv t ∧ KeepsOpen closed s.tables t := by
    rintro fd t closed ⟨inoNum, flags, fType, hino, -, ho⟩
    obtain ⟨ht, hkeeps, -⟩ := h.opened hino ho
    exact ⟨ht, hkeeps.mono fun _ hf => hf.elim⟩
  cases c with
  | «open» pathname flags mode =>
    refine returns_map ((returns_nandfsOpen pathname flags mode s).mono fun r t ht => ?_)
    exact ht.elim hsame hopened
  | creat pathname mode =>
    refine returns_map ((returns_nandfsCreat pathname mode s).mono fun r t ht => ?_)
    exact ht.elim hsame hopened
  | close fd =>
    refine returns_map ((returns_nandfsClose fd s).mono fun r t ht => ?_)
    exact ht.elim hsame h.released
  | dup oldFd =>
    refine returns_map ((returns_nandfsDup oldFd s).mono fun r t ht => ht.elim hsame ?_)
    rintro ⟨rfl, hd⟩
    -- the descriptor that is taken was free
    obtain ⟨ht', hkeeps⟩ := h.duplicated hd
    refine ⟨ht', fun fd o ho => (hkeeps fd o ho).imp_left fun heq => ?_⟩
    have hne : s.tables.getFreeOpenFileEntry ≠ fdEmpty := by
      intro he
      rw [heq, he] at ho
      exact absurd (isFdLegal_of_opens ho) (by decide)
    have hempty := (getFreeOpenFileEntry_spec hne).2
    rw [heq, opens_eq_none.mpr fun _ => hempty] at ho
    cases ho
  | dup2 oldFd newFd =>
    refine returns_map ((returns_nandfsDup2 oldFd newFd s).mono fun r t ht => ?_)
    exact ht.elim hsame fun hd => h.duplicated hd.2
  | opendir name =>
    refine returns_map ((returns_nandfsOpendir name s).mono fun r t ht => ?_)
    rcases ht with ⟨heq, -⟩ | ⟨ds, hds, ho⟩
    · exact hsame heq
    · have hroom := hsafe fun hnone => Option.some_ne_none ds (hds.symm.trans hnone)
      exact h.streamOpened (getFreeDirstreamId_spec hds) hroom ho
  | closedir dir =>
    refine returns_map ((returns_nandfsClosedir dir s).mono fun r t ht => ?_)
    rcases ht with heq | ⟨ds, rfl, ho⟩
    · exact hsame heq
    · exact h.streamClosed hsafe ho
  | _ => cases hc

theorem Run.tablesInv {s : FileSystem σ} {owner : Owners}
    (h : Run (fun s owner c => c.opensTables = true ∧ c.StreamSafe s owner) s owner) :
    TablesInv s.tables := by
  induction h with
  | booted before _ hzero htables =>
    obtain ⟨hfresh, hstreams⟩ := fresh_initializeRamStructs hzero
    rw [htables]
    exact ⟨hfresh.consistent, fun ds => .inl (hstreams ds)⟩
  | call _ user c r hallowed hrun ih =>
    obtain ⟨hc, hsafe⟩ := hallowed
    exact ((returns_runBy.mpr (returns_tablesInv hc hsafe (ih.withUser user))).of_ok hrun).1

end

/-! ## The tables -/

/-- The tables agree: a vnode's references are the entries that point to it, it holds an inode
when there are any, and no other holds the same. -/
structure FileTables.Agree (s : FileTables) : Prop where
  nReferences : ∀ v, IsVnode v → (s.vnodes v).nReferences =
    (fdTable.filter fun fd => (s.openFiles fd).vnode = v).card
  inoNum_empty : ∀ v, IsVnode v →
    ((s.vnodes v).inoNum = inoNumEmpty ↔ (s.vnodes v).nReferences = 0)
  inoNum_inj : ∀ v w, IsVnode v → IsVnode w → (s.vnodes v).inoNum ≠ inoNumEmpty →
    (s.vnodes v).inoNum = (s.vnodes w).inoNum → v = w

/-- The call leaves every open descriptor open, on the same file for the same user, but for the
one it closes. -/
def OnlyCloses (owner : Owners) (c : Call) (s t : FileTables) : Prop :=
  ∀ fd, isFdLegal fd = true → s.isOpenFileEntryEmpty fd = false →
    c.Closes owner fd ∨ (t.openFiles fd).vnode = (s.openFiles fd).vnode ∧
      (t.openFiles fd).uid = (s.openFiles fd).uid

theorem FileTables.Consistent.agree {s : FileTables} (h : s.Consistent) : s.Agree where
  nReferences v hv := by
    rw [h.nReferences v hv, refs]
    congr 1
    refine Finset.filter_congr fun fd hfd => ?_
    have hlegal := mem_fdTable.mp hfd
    by_cases hempty : s.isOpenFileEntryEmpty fd = true
    · rw [opens_eq_none.mpr fun _ => hempty]
      have hne : (s.openFiles fd).vnode ≠ v := by
        rintro rfl
        exact hv.ne_empty (by simpa [isOpenFileEntryEmpty] using hempty)
      simp [hne]
    · rw [opens_eq_some hlegal (by simpa using hempty), isOn_some]
  inoNum_empty := h.inoNum_empty
  inoNum_inj := h.inoNum_inj

theorem KeepsOpen.onlyCloses {owner : Owners} {c : Call} {s t : FileTables}
    (h : KeepsOpen (c.Closes owner ·) s t) : OnlyCloses owner c s t := by
  intro fd hlegal hempty
  refine (h fd _ (opens_eq_some hlegal hempty)).imp_right fun ht => ?_
  refine ⟨file_of_opens ht, ?_⟩
  unfold opens openOf at ht
  rw [if_pos hlegal] at ht
  split at ht
  · cases ht
  · exact congrArg Open.user (Option.some.inj ht)

section
attribute [local instance] smallPage

/-- A root directory with one file, `/f`. -/
def rootAndFile : FileSystem FixedFiles :=
  .booted [([47], ⟨1, ftypeDir, 0⟩), ([47, 102], ⟨2, ftypeFile, 0⟩)]

/-- The root has been opened as a stream, with descriptor 0. -/
def streamOpened : FileSystem FixedFiles := afterCall 1 (.opendir [47]) rootAndFile

/-- That descriptor has been closed. -/
def streamStale : FileSystem FixedFiles := afterCall 1 (.close 0) streamOpened

/-- The file has been opened, with descriptor 0. -/
def descriptorReused : FileSystem FixedFiles :=
  afterCall 1 (.open [47, 102] oRdonly 0) streamStale

/-- The open-file table is full: the file has been opened on each entry. -/
def entriesUsedUp : FileSystem FixedFiles :=
  (fun s => afterCall 1 (.open [47, 102] oRdonly 0) s)^[fsMaxOpenFiles] rootAndFile

/-- An `opendir` that finds no entry free writes the offset of its stream over a vnode that nothing
points to. -/
theorem opendir_not_agree : ∃ (s : FileSystem FixedFiles) (owner : Owners),
    Run (fun _ _ c => c.opensTables = true) s owner ∧ ¬s.tables.Agree := by
  have hopened : ∀ n ≤ fsMaxOpenFiles, ∃ owner, Run (fun _ _ c => c.opensTables = true)
      ((fun s => afterCall 1 (.open [47, 102] oRdonly 0) s)^[n] rootAndFile) owner := by
    intro n hn
    induction n with
    | zero => exact ⟨fun _ => none, .booted zeroed rfl (fun _ => rfl) rfl⟩
    | succ n ih =>
      obtain ⟨owner, hrun⟩ := ih (Nat.le_of_succ_le hn)
      rw [Function.iterate_succ_apply']
      have hreply : ∀ k < fsMaxOpenFiles, replyTo 1 (.open [47, 102] oRdonly 0)
          ((fun s => afterCall 1 (.open [47, 102] oRdonly 0) s)^[k] rootAndFile) =
            some (.int (k : Int)) := by decide
      exact ⟨_, hrun.call 1 (.open [47, 102] oRdonly 0) (.int n) rfl
        (runBy_of_reply (hreply n (by omega)))⟩
  obtain ⟨owner, hfull⟩ := hopened fsMaxOpenFiles le_rfl
  have hstream := hfull.call 1 (.opendir [47]) (.ptr (.stream (0 : Fin 2))) rfl
    (runBy_of_reply rfl)
  refine ⟨_, _, hstream, fun h => ?_⟩
  have hempty := (h.inoNum_empty 4 ⟨by decide, by decide⟩).mpr rfl
  exact absurd hempty (by decide)

end

end NandFs
