import NandFs.CallRuns

/-! # One writer for a file

`setOpenFentry` asks `isFlagsConflict` of every entry there is, `dupUtil` asks it of the entry
to be copied itself, so an entry that may write is never copied.  Over any calls of `open`,
`creat`, `dup`, `dup2` and `close`, by any users, a file that is open for writing is open for
one user and through one writing entry.
-/
namespace NandFs

open DescriptorTable FileTables

/-! ## What the checks say -/

section Checks
variable {s : FileTables} {flags : BitVec 32}

theorem conflictsWith_eq_false {v fd : Int} (h : s.isFlagsConflict v flags = false)
    (hfd : isFdLegal fd = true) (hv : (s.openFiles fd).vnode = v) :
    s.conflictsWith flags (s.openFiles fd) = false := by
  unfold isFlagsConflict at h
  simp only [isFdLegal, Bool.and_eq_true, decide_eq_true_eq] at hfd
  obtain ⟨n, rfl⟩ := Int.eq_ofNat_of_zero_le hfd.1
  have hmem : n ∈ List.range fsMaxOpenFiles := List.mem_range.mpr (by omega)
  have hn := List.any_eq_false.mp h n hmem
  simpa [hv] using hn

/-- No conflict means that the new entry may stand beside the others of its vnode. -/
theorem compatible_of_no_conflict {v fd : Int} (h : s.isFlagsConflict v flags = false)
    (hflags : (isWronly flags || isRdonly flags) = true) {o : Open Int UserId}
    (ho : s.opens fd = some o) (hv : o.file = v) :
    Compatible ⟨v, s.currentUser, isWronly flags⟩ o := by
  have hfd := isFdLegal_of_opens ho
  have hfile := file_of_opens ho
  have hconf := conflictsWith_eq_false h hfd (hfile.trans hv)
  have hempty : s.isOpenFileEntryEmpty fd = false := by
    by_contra he
    have hnone : s.opens fd = none := opens_eq_none.mpr fun _ => by simpa using he
    rw [hnone] at ho
    cases ho
  rw [opens_eq_some hfd hempty] at ho
  cases ho
  intro _ hwrites
  simp only [conflictsWith, Bool.or_eq_false_iff] at hconf
  obtain ⟨hread, hwrite⟩ := hconf
  cases hw : isWronly flags with
  | true =>
    -- to write, the other entry must be this user's and must not write
    rw [hw, Bool.true_and, Bool.or_eq_false_iff] at hwrite
    exact ⟨by simpa using hwrite.1, fun hboth => absurd hboth.2 (by simp [hwrite.2])⟩
  | false =>
    -- to read, a writer must be this user
    rw [hw, Bool.false_or] at hflags
    have hother : isWronly (s.openFiles fd).flags = true := hwrites.resolve_left (by simp [hw])
    rw [hflags, hother, Bool.true_and, Bool.true_and] at hread
    exact ⟨by simpa using hread, fun hboth => by simp at hboth⟩

/-- Emptying a descriptor makes no conflict. -/
theorem Emptied.no_conflict {u : FileTables} {newFd v : Int} (he : Emptied s newFd u)
    (hv : IsVnode v) (h : s.isFlagsConflict v flags = false) :
    u.isFlagsConflict v flags = false := by
  rcases he with ⟨-, rfl⟩ | ⟨-, hr⟩
  · exact h
  · have hempty : ∀ i : Nat, i ∈ List.range fsMaxOpenFiles →
        ((u.openFiles i).vnode == v && u.conflictsWith flags (u.openFiles i)) = false := by
      intro i hi
      rw [hr.tables_eq, openFiles_releaseFentry (verifyFd_eq_zero hr.verified).1]
      by_cases hfd : (i : Int) = newFd
      · rw [hfd, Function.update_self]
        have hne : (initFileEntry.vnode == v) = false := beq_false_of_ne hv.ne_empty.symm
        rw [hne, Bool.false_and]
      · rw [Function.update_of_ne hfd]
        unfold conflictsWith
        rw [currentUser_releaseFentry]
        exact Bool.eq_false_iff.mpr (List.any_eq_false.mp h i hi)
    exact List.any_eq_false.mpr fun i hi => Bool.eq_false_iff.mp (hempty i hi)

end Checks

/-! ## The invariant -/

/-- What the calls on files keep: besides consistency and the single writer, every entry in use
was opened to read or to write. -/
structure WriterInv (s : FileTables) : Prop where
  consistent : s.Consistent
  single : SingleWriter s.opens
  flags : ∀ fd, isFdLegal fd = true → s.isOpenFileEntryEmpty fd = false →
    (isWronly (s.openFiles fd).flags || isRdonly (s.openFiles fd).flags) = true

namespace WriterInv
variable {s t : FileTables} (h : WriterInv s)
include h

/-- Filling a free entry on a vnode that holds the file or is free for it. -/
theorem setFentry {fd v offset : Int} {flags : BitVec 32} {fType : Nat} {inoNum : BitVec 32}
    (hfd : isFdLegal fd = true) (hfree : s.opens fd = none) (hv : IsVnode v)
    (hino : inoNum ≠ inoNumEmpty) (hflags : (isWronly flags || isRdonly flags) = true)
    (hhold : (s.vnodes v).inoNum = inoNum ∧ s.isFlagsConflict v flags = false ∨
      (s.vnodes v).inoNum = inoNumEmpty ∧ ∀ w, IsVnode w → (s.vnodes w).inoNum ≠ inoNum) :
    WriterInv (s.setFentry fd flags offset v fType inoNum) where
  consistent := h.consistent.setFentry hfd hfree hv hino (hhold.imp_left And.left)
  single := by
    rw [opens_setFentry hfd flags offset hv.ne_empty fType inoNum]
    refine h.single.open fun e _ o ho => ?_
    rcases hhold with ⟨-, hconf⟩ | ⟨hempty, -⟩
    · by_cases hfile : o.file = v
      · exact compatible_of_no_conflict hconf hflags ho hfile
      · exact fun heq => absurd heq.symm hfile
    · exact fun heq => absurd heq.symm (h.consistent.file_ne_of_empty hv hempty ho)
  flags e he hne := by
    by_cases hefd : e = fd
    · subst hefd
      simpa [openFiles_setFentry hfd] using hflags
    · simp only [openFiles_setFentry hfd, Function.update_of_ne hefd] at hne ⊢
      refine h.flags e he ?_
      simpa [isOpenFileEntryEmpty, openFiles_setFentry hfd, Function.update_of_ne hefd] using hne

theorem opened {inoNum flags : BitVec 32} {fType : Nat} {fd : Int} (hino : inoNum ≠ inoNumEmpty)
    (hflags : (isWronly flags || isRdonly flags) = true) (ho : Opened s inoNum flags fType fd t) :
    WriterInv t := by
  obtain ⟨offset, rfl⟩ := ho.tables_eq
  obtain ⟨hv, hhold⟩ := chooseVnode_spec ho.vnode_ne
  have hfree := ho.fd_ne
  rw [ho.fd_eq] at hfree ⊢
  obtain ⟨hfd, hempty⟩ := getFreeOpenFileEntry_spec hfree
  exact h.setFentry hfd (opens_eq_none.mpr fun _ => hempty) hv hino hflags hhold

theorem releaseFentry {fd : Int} {o : Open Int UserId} (ho : s.opens fd = some o) :
    WriterInv (s.releaseFentry fd) where
  consistent := h.consistent.releaseFentry ho
  single := by
    rw [opens_releaseFentry (isFdLegal_of_opens ho)]
    exact h.single.close fd
  flags e he hne := by
    unfold isOpenFileEntryEmpty at hne
    rw [openFiles_releaseFentry (isFdLegal_of_opens ho)] at hne ⊢
    by_cases hefd : e = fd
    · subst hefd
      rw [Function.update_self] at hne
      cases hne
    · rw [Function.update_of_ne hefd] at hne ⊢
      exact h.flags e he hne

theorem released {fd : Int} (hr : Released s fd t) : WriterInv t := by
  obtain ⟨hlegal, hempty, -⟩ := verifyFd_eq_zero hr.verified
  rw [hr.tables_eq]
  exact h.releaseFentry (opens_eq_some hlegal hempty)

theorem emptied {fd : Int} (he : Emptied s fd t) : WriterInv t := by
  rcases he with ⟨-, rfl⟩ | ⟨-, hr⟩
  · exact h
  · exact h.released hr

/-- A descriptor is duplicated only if it reads, and onto one that no longer conflicts. -/
theorem duplicated {oldFd newFd : Int} (hd : Duplicated s oldFd newFd t) : WriterInv t := by
  by_cases hne : oldFd = newFd
  · subst hne
    obtain ⟨hr, rfl⟩ := hd.self
    have hu := h.released hr
    have hfree : (s.releaseFentry oldFd).opens oldFd = none := by
      rw [opens_releaseFentry hd.legal, Function.update_self]
    refine ⟨hu.consistent.setFentry_empty hd.legal hfree _ _ _ _, ?_, fun e he hopen => ?_⟩
    · rw [opens_setFentry_empty hd.legal hfree]
      exact hu.single
    · unfold isOpenFileEntryEmpty at hopen
      rw [openFiles_setFentry hd.legal] at hopen ⊢
      by_cases hefd : e = oldFd
      · subst hefd
        rw [Function.update_self] at hopen
        cases hopen
      · rw [Function.update_of_ne hefd] at hopen ⊢
        exact hu.flags e he hopen
  · obtain ⟨u, he, hopens, rfl⟩ := hd.other hne
    have hu := h.emptied he
    have hold := hopens.trans hd.opens_old
    have hv := hu.consistent.vnode_of_open _ _ hold
    have hino : (u.vnodes (s.openFiles oldFd).vnode).inoNum ≠ inoNumEmpty := by
      intro heq
      have h0 := (hu.consistent.inoNum_empty _ hv).mp heq
      have hpos := hu.consistent.nReferences_pos hold
      omega
    obtain ⟨hlegal, hempty, -⟩ := verifyFd_eq_zero hd.verified
    exact hu.setFentry hd.legal he.opens_eq_none hv hino (h.flags oldFd hlegal hempty)
      (.inl ⟨rfl, he.no_conflict hv hd.no_conflict⟩)

theorem openedFile {fd : Int} (ho : OpenedFile s fd t) : WriterInv t := by
  obtain ⟨inoNum, flags, fType, hino, hflags, hopened⟩ := ho
  exact h.opened hino hflags hopened

/-- The user of the running process is not part of the invariant. -/
theorem withUser (user : UserId) : WriterInv { s with currentUser := user } where
  consistent := h.consistent.of_eq (fun _ _ => rfl) rfl
  single := h.single
  flags := h.flags

omit h in
theorem fresh (h : s.Fresh) : WriterInv s where
  consistent := h.consistent
  single := by
    intro d e _ o p ho
    rw [h.opens_eq_none d] at ho
    cases ho
  flags fd hfd hopen := by
    unfold isOpenFileEntryEmpty at hopen
    rw [h.openFiles fd hfd] at hopen
    cases hopen

end WriterInv

/-! ## Runs -/

/-- The calls on files that open and close descriptors. -/
def Call.opensFiles : Call → Bool
  | .open .. | .creat .. | .close .. | .dup .. | .dup2 .. => true
  | _ => false

section
variable {σ : Type} [Config] [Storage σ]

theorem returns_writerInv {s : FileSystem σ} {c : Call} (hc : c.opensFiles = true)
    (h : WriterInv s.tables) : Returns c.run s fun _ t => WriterInv t.tables := by
  cases c with
  | «open» pathname flags mode =>
    refine returns_map ((returns_nandfsOpen pathname flags mode s).mono fun r t ht => ?_)
    exact ht.elim (fun heq => heq ▸ h) h.openedFile
  | creat pathname mode =>
    refine returns_map ((returns_nandfsCreat pathname mode s).mono fun r t ht => ?_)
    exact ht.elim (fun heq => heq ▸ h) h.openedFile
  | close fd =>
    refine returns_map ((returns_nandfsClose fd s).mono fun r t ht => ?_)
    exact ht.elim (fun heq => heq ▸ h) h.released
  | dup oldFd =>
    refine returns_map ((returns_nandfsDup oldFd s).mono fun r t ht => ?_)
    exact ht.elim (fun heq => heq ▸ h) fun hd => h.duplicated hd.2
  | dup2 oldFd newFd =>
    refine returns_map ((returns_nandfsDup2 oldFd newFd s).mono fun r t ht => ?_)
    exact ht.elim (fun heq => heq ▸ h) fun hd => h.duplicated hd.2
  | _ => cases hc

theorem Run.writerInv {s : FileSystem σ} {owner : Owners}
    (h : Run (fun _ _ c => c.opensFiles = true) s owner) : WriterInv s.tables := by
  induction h with
  | booted before _ hzero htables =>
    rw [htables]
    exact .fresh (fresh_initializeRamStructs hzero).1
  | call _ user c r hallowed hrun ih =>
    exact (returns_runBy.mpr (returns_writerInv hallowed (ih.withUser user))).of_ok hrun

end

/-! ## One writer -/

/-- The entry is open on the vnode. -/
def FileTables.EntryOn (s : FileTables) (v fd : Int) : Prop :=
  isFdLegal fd = true ∧ (s.openFiles fd).vnode = v

/-- The entry may write. -/
def FileTables.Writes (s : FileTables) (fd : Int) : Prop := isWronly (s.openFiles fd).flags = true

/-- A vnode has at most one entry that may write, unless all its entries are of one user, and
no other user has an entry on a file that is open for writing. -/
structure FileTables.OneWriter (s : FileTables) (v : Int) : Prop where
  one_or_same_user :
    (∀ a b, s.EntryOn v a → s.EntryOn v b → s.Writes a → s.Writes b → a = b) ∨
      ∀ a b, s.EntryOn v a → s.EntryOn v b → (s.openFiles a).uid = (s.openFiles b).uid
  others_absent : ∀ a b, s.EntryOn v a → s.EntryOn v b → s.Writes a →
    (s.openFiles b).uid = (s.openFiles a).uid

theorem FileTables.opens_of_entryOn {s : FileTables} {v fd : Int} (hv : IsVnode v)
    (h : s.EntryOn v fd) :
    s.opens fd = some ⟨v, (s.openFiles fd).uid, isWronly (s.openFiles fd).flags⟩ := by
  have hopen : s.isOpenFileEntryEmpty fd = false := by
    unfold isOpenFileEntryEmpty
    rw [h.2]
    exact beq_false_of_ne hv.ne_empty
  rw [opens_eq_some h.1 hopen, h.2]

theorem WriterInv.oneWriter {s : FileTables} (h : WriterInv s) {v : Int} (hv : IsVnode v) :
    s.OneWriter v where
  one_or_same_user := .inl fun _ _ ha hb hwa hwb =>
    h.single.eq_of_writes (opens_of_entryOn hv ha) (opens_of_entryOn hv hb) rfl hwa hwb
  others_absent _ _ ha hb hwa :=
    (h.single.user_eq (opens_of_entryOn hv ha) (opens_of_entryOn hv hb) rfl hwa).symm

/-- In every state that `open`, `creat`, `dup`, `dup2` and `close` lead to, by any users with
any arguments, a vnode has one writer. -/
theorem oneWriter_of_run {σ : Type} [Config] [Storage σ] {s : FileSystem σ} {owner : Owners}
    (h : Run (fun _ _ c => c.opensFiles = true) s owner) {v : Int} (hv : IsVnode v) :
    s.tables.OneWriter v :=
  h.writerInv.oneWriter hv

section
attribute [local instance] smallPage

/-- One file, `/f`. -/
def oneFile : FileSystem FixedFiles := .booted [([47, 102], ⟨2, ftypeFile, 0⟩)]

/-- Two users read it, the second on two descriptors. -/
def readByTwo : FileSystem FixedFiles :=
  afterCall 2 (.dup 1) (afterCall 2 (.open [47, 102] oRdonly 0)
    (afterCall 1 (.open [47, 102] oRdonly 0) oneFile))

/-- The first has closed it, and the second writes it. -/
def writtenBySecond : FileSystem FixedFiles :=
  afterCall 2 (.open [47, 102] oWronly 0) (afterCall 1 (.close 0) readByTwo)

/-- The writer and the two readers are one user's, and the other can not open the file now. -/
theorem oneWriter_of_twoUsers :
    (writtenBySecond.tables.EntryOn 0 0 ∧ writtenBySecond.tables.EntryOn 0 1 ∧
      writtenBySecond.tables.EntryOn 0 2 ∧ writtenBySecond.tables.Writes 0) ∧
      replyTo 1 (.open [47, 102] oRdonly 0) writtenBySecond = some (.int (-1)) ∧
        writtenBySecond.tables.OneWriter 0 := by
  have hbooted : Run (fun _ _ c => c.opensFiles = true) oneFile fun _ => none :=
    .booted zeroed rfl (fun _ => rfl) rfl
  have hread := hbooted.call 1 (.open [47, 102] oRdonly 0) (.int 0) rfl (runBy_of_reply rfl)
  have hreadToo := hread.call 2 (.open [47, 102] oRdonly 0) (.int 1) rfl (runBy_of_reply rfl)
  have hdup := hreadToo.call 2 (.dup 1) (.int 2) rfl (runBy_of_reply rfl)
  have hclosed := hdup.call 1 (.close 0) (.int 0) rfl (runBy_of_reply rfl)
  have hrun := hclosed.call 2 (.open [47, 102] oWronly 0) (.int 0) rfl (runBy_of_reply rfl)
  exact ⟨⟨⟨rfl, rfl⟩, ⟨rfl, rfl⟩, ⟨rfl, rfl⟩, rfl⟩, rfl,
    oneWriter_of_run hrun ⟨by decide, by decide⟩⟩

end

end NandFs
