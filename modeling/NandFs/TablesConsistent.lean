import NandFs.OpenTables
import NandFs.DescriptorTable
import Mathlib.Data.Finset.Image

/-! # The vnodes count the open-file entries

`FileTables.opens` is the table of descriptors the open-file entries stand for, a vnode index
being the file.  The tables are consistent when each vnode counts the descriptors open on it,
is free exactly when there are none, and no two hold one inode.  Filling a free entry and
releasing one keep that, whichever call does it.
-/
namespace NandFs

open DescriptorTable

/-! ## Searching a table -/

theorem firstIndex_ne {n : Nat} {test : Int → Bool} (h : firstIndex n test ≠ -1) :
    0 ≤ firstIndex n test ∧ firstIndex n test < n ∧ test (firstIndex n test) = true := by
  unfold firstIndex at h ⊢
  cases hf : (List.range n).find? fun i : Nat => test i with
  | none => rw [hf] at h; exact absurd rfl h
  | some i =>
    have hmem := List.mem_range.mp (List.mem_of_find?_eq_some hf)
    exact ⟨by simp, by simpa using hmem, by simpa using List.find?_some hf⟩

theorem firstIndex_eq {n : Nat} {test : Int → Bool} (h : firstIndex n test = -1) {i : Int}
    (h0 : 0 ≤ i) (hn : i < n) : test i = false := by
  unfold firstIndex at h
  cases hf : (List.range n).find? fun i : Nat => test i with
  | some j => rw [hf] at h; simp only at h; omega
  | none =>
    obtain ⟨k, rfl⟩ := Int.eq_ofNat_of_zero_le h0
    have hk := List.find?_eq_none.mp hf k (List.mem_range.mpr (by omega))
    simpa using hk

namespace FileTables

/-- The descriptors of the table. -/
def fdTable : Finset Int := (Finset.range fsMaxOpenFiles).image fun n : Nat => (n : Int)

@[simp] theorem mem_fdTable {fd : Int} : fd ∈ fdTable ↔ isFdLegal fd = true := by
  simp only [fdTable, isFdLegal, Finset.mem_image, Finset.mem_range, Bool.and_eq_true,
    decide_eq_true_eq]
  constructor
  · rintro ⟨n, hn, rfl⟩
    omega
  · rintro ⟨h0, hlt⟩
    exact ⟨fd.toNat, by omega, by omega⟩

/-- `v` is an index of the vnode table. -/
def IsVnode (v : Int) : Prop := 0 ≤ v ∧ v < fsMaxVnodes

theorem IsVnode.ne_empty {v : Int} (h : IsVnode v) : v ≠ vnodeEmpty := by
  have := h.1
  unfold vnodeEmpty
  omega

section Checks
variable {s : FileTables} {flags : BitVec 32}

theorem getFreeOpenFileEntry_spec (h : s.getFreeOpenFileEntry ≠ fdEmpty) :
    isFdLegal s.getFreeOpenFileEntry = true ∧
      s.isOpenFileEntryEmpty s.getFreeOpenFileEntry = true := by
  obtain ⟨h0, hlt, htest⟩ := firstIndex_ne h
  refine ⟨?_, htest⟩
  simp only [isFdLegal, Bool.and_eq_true, decide_eq_true_eq]
  exact ⟨h0, hlt⟩

theorem getVnodeByInodeNum_spec {inoNum : BitVec 32} (h : s.getVnodeByInodeNum inoNum ≠ vnodeEmpty) :
    IsVnode (s.getVnodeByInodeNum inoNum) ∧
      (s.vnodes (s.getVnodeByInodeNum inoNum)).inoNum = inoNum := by
  obtain ⟨h0, hlt, htest⟩ := firstIndex_ne h
  exact ⟨⟨h0, hlt⟩, eq_of_beq htest⟩

theorem inoNum_ne_of_not_found {inoNum : BitVec 32}
    (h : s.getVnodeByInodeNum inoNum = vnodeEmpty) {v : Int} (hv : IsVnode v) :
    (s.vnodes v).inoNum ≠ inoNum := by
  have htest := firstIndex_eq h hv.1 hv.2
  simpa using htest

/-- The vnode chosen holds the inode, and no entry of it conflicts; or it is free, and no vnode
holds the inode. -/
theorem chooseVnode_spec {inoNum : BitVec 32} (h : chooseVnode s inoNum flags ≠ vnodeEmpty) :
    IsVnode (chooseVnode s inoNum flags) ∧
      ((s.vnodes (chooseVnode s inoNum flags)).inoNum = inoNum ∧
        s.isFlagsConflict (chooseVnode s inoNum flags) flags = false ∨
      (s.vnodes (chooseVnode s inoNum flags)).inoNum = inoNumEmpty ∧
        ∀ w, IsVnode w → (s.vnodes w).inoNum ≠ inoNum) := by
  unfold chooseVnode at h ⊢
  by_cases hfound : s.getVnodeByInodeNum inoNum ≠ vnodeEmpty
  · simp only [if_pos hfound] at h ⊢
    by_cases hconf : s.isFlagsConflict (s.getVnodeByInodeNum inoNum) flags = true
    · rw [if_pos hconf] at h
      exact absurd rfl h
    · rw [if_neg hconf]
      obtain ⟨hv, hino⟩ := getVnodeByInodeNum_spec hfound
      exact ⟨hv, .inl ⟨hino, by simpa using hconf⟩⟩
  · simp only [if_neg hfound] at h ⊢
    obtain ⟨hv, hino⟩ := getVnodeByInodeNum_spec h
    exact ⟨hv, .inr ⟨hino, fun w hw => inoNum_ne_of_not_found (not_not.mp hfound) hw⟩⟩

end Checks

/-- What an open-file entry is open on. -/
def openOf (f : OpenFile) : Option (Open Int UserId) :=
  if f.vnode = vnodeEmpty then none else some ⟨f.vnode, f.uid, isWronly f.flags⟩

/-- The table of descriptors the open-file entries stand for. -/
def opens (s : FileTables) : Opens Int Int UserId := fun fd =>
  if isFdLegal fd then openOf (s.openFiles fd) else none

structure Consistent (s : FileTables) : Prop where
  /-- an entry is empty or points to a vnode of the table -/
  vnode_of_open : ∀ fd o, s.opens fd = some o → IsVnode o.file
  /-- a vnode counts the entries that point to it -/
  nReferences : ∀ v, IsVnode v → (s.vnodes v).nReferences = refs fdTable s.opens v
  /-- a vnode holds no inode exactly when nothing points to it -/
  inoNum_empty : ∀ v, IsVnode v →
    ((s.vnodes v).inoNum = inoNumEmpty ↔ (s.vnodes v).nReferences = 0)
  /-- two vnodes do not hold one inode -/
  inoNum_inj : ∀ v w, IsVnode v → IsVnode w → (s.vnodes v).inoNum ≠ inoNumEmpty →
    (s.vnodes v).inoNum = (s.vnodes w).inoNum → v = w

/-! ## What an update does to the descriptors -/

variable {s : FileTables}

@[simp] theorem opens_setVnode (v : Int) (vn : Vnode) : (s.setVnode v vn).opens = s.opens := rfl

@[simp] theorem opens_setDirstream (ds : DirstreamId) (d : DirStream) :
    (s.setDirstream ds d).opens = s.opens := rfl

theorem opens_setOpenFile {fd : Int} (hfd : isFdLegal fd = true) (f : OpenFile) :
    (s.setOpenFile fd f).opens = Function.update s.opens fd (openOf f) := by
  rw [setOpenFile_of_ne (ne_fentryMax hfd)]
  funext e
  by_cases he : e = fd
  · subst he
    simp [opens, hfd]
  · simp [opens, Function.update_of_ne he]

theorem vnodes_setOpenFile {fd : Int} (hfd : isFdLegal fd = true) (f : OpenFile) :
    (s.setOpenFile fd f).vnodes = s.vnodes := by
  rw [setOpenFile_of_ne (ne_fentryMax hfd)]

theorem openFiles_setOpenFile {fd : Int} (hfd : isFdLegal fd = true) (f : OpenFile) :
    (s.setOpenFile fd f).openFiles = Function.update s.openFiles fd f := by
  rw [setOpenFile_of_ne (ne_fentryMax hfd)]

@[simp] theorem openFiles_setVnode (v : Int) (vn : Vnode) :
    (s.setVnode v vn).openFiles = s.openFiles := rfl

@[simp] theorem vnodes_setVnode (v : Int) (vn : Vnode) :
    (s.setVnode v vn).vnodes = Function.update s.vnodes v vn := rfl

@[simp] theorem dirstreams_setVnode (v : Int) (vn : Vnode) :
    (s.setVnode v vn).dirstreams = s.dirstreams := rfl

@[simp] theorem dirstreams_setOpenFile (fd : Int) (f : OpenFile) :
    (s.setOpenFile fd f).dirstreams = s.dirstreams := by
  unfold setOpenFile
  split <;> rfl

@[simp] theorem currentUser_setOpenFile (fd : Int) (f : OpenFile) :
    (s.setOpenFile fd f).currentUser = s.currentUser := by
  unfold setOpenFile
  split <;> rfl

@[simp] theorem dirstreams_setDirstream (ds : DirstreamId) (d : DirStream) :
    (s.setDirstream ds d).dirstreams = Function.update s.dirstreams ds d := rfl

@[simp] theorem vnodes_setDirstream (ds : DirstreamId) (d : DirStream) :
    (s.setDirstream ds d).vnodes = s.vnodes := rfl

@[simp] theorem openFiles_setDirstream (ds : DirstreamId) (d : DirStream) :
    (s.setDirstream ds d).openFiles = s.openFiles := rfl

theorem opens_eq_none {fd : Int} : s.opens fd = none ↔
    isFdLegal fd = true → s.isOpenFileEntryEmpty fd = true := by
  unfold opens openOf isOpenFileEntryEmpty
  by_cases hfd : isFdLegal fd = true <;> simp [hfd]

theorem opens_eq_some {fd : Int} (hfd : isFdLegal fd = true)
    (h : s.isOpenFileEntryEmpty fd = false) : s.opens fd =
      some ⟨(s.openFiles fd).vnode, (s.openFiles fd).uid, isWronly (s.openFiles fd).flags⟩ := by
  have hv : (s.openFiles fd).vnode ≠ vnodeEmpty := by simpa [isOpenFileEntryEmpty] using h
  simp [opens, openOf, hfd, hv]

/-- Setting the offset of an entry does not change what is open. -/
theorem opens_openFileSetOffset {fd : Int} (hfd : isFdLegal fd = true) (val : Int) :
    (s.openFileSetOffset fd val).opens = s.opens := by
  rw [openFileSetOffset_of_ne (ne_fentryMax hfd)]
  funext e
  by_cases he : e = fd
  · subst he
    simp [opens, openOf]
  · simp [opens, Function.update_of_ne he]

theorem openOf_initFileEntry : openOf initFileEntry = none := if_pos rfl

theorem file_of_opens {fd : Int} {o : Open Int UserId} (h : s.opens fd = some o) :
    (s.openFiles fd).vnode = o.file := by
  unfold opens openOf at h
  split at h
  · split at h
    · cases h
    · cases h
      rfl
  · cases h

theorem opens_releaseFentry {fd : Int} (hfd : isFdLegal fd = true) :
    (s.releaseFentry fd).opens = Function.update s.opens fd none := by
  unfold releaseFentry
  rw [opens_setOpenFile hfd, openOf_initFileEntry]
  congr 1
  rw [apply_ite FileTables.opens]
  exact ite_self s.opens

theorem openFiles_setFentry {fd : Int} (hfd : isFdLegal fd = true) (flags : BitVec 32)
    (offset v : Int) (fType : Nat) (inoNum : BitVec 32) :
    (s.setFentry fd flags offset v fType inoNum).openFiles =
      Function.update s.openFiles fd ⟨flags, s.currentUser, offset, v, fType⟩ := by
  unfold setFentry
  exact openFiles_setOpenFile hfd _

@[simp] theorem currentUser_setFentry (fd : Int) (flags : BitVec 32) (offset v : Int) (fType : Nat)
    (inoNum : BitVec 32) : (s.setFentry fd flags offset v fType inoNum).currentUser =
      s.currentUser := by
  unfold setFentry
  exact currentUser_setOpenFile fd _

theorem dirstreams_setFentry (fd : Int) (flags : BitVec 32) (offset v : Int) (fType : Nat)
    (inoNum : BitVec 32) : (s.setFentry fd flags offset v fType inoNum).dirstreams =
      s.dirstreams := by
  unfold setFentry
  exact dirstreams_setOpenFile fd _

theorem openFiles_releaseFentry {fd : Int} (hfd : isFdLegal fd = true) :
    (s.releaseFentry fd).openFiles = Function.update s.openFiles fd initFileEntry := by
  unfold releaseFentry
  rw [openFiles_setOpenFile hfd, apply_ite FileTables.openFiles]
  congr 1
  exact ite_self s.openFiles

theorem currentUser_releaseFentry (fd : Int) : (s.releaseFentry fd).currentUser = s.currentUser := by
  unfold releaseFentry
  rw [currentUser_setOpenFile, apply_ite FileTables.currentUser]
  exact ite_self s.currentUser

theorem dirstreams_releaseFentry (fd : Int) : (s.releaseFentry fd).dirstreams = s.dirstreams := by
  unfold releaseFentry
  rw [dirstreams_setOpenFile, apply_ite FileTables.dirstreams]
  exact ite_self s.dirstreams

/-- Whatever becomes of its descriptor, the stream is initialised. -/
theorem dirstreams_closeDirstream (ds : DirstreamId) :
    (s.closeDirstream ds).dirstreams = Function.update s.dirstreams ds initDirStream := by
  unfold closeDirstream
  rw [dirstreams_setDirstream, apply_ite FileTables.dirstreams, dirstreams_setOpenFile,
    apply_ite FileTables.dirstreams]
  congr 1
  unfold vnodeDecrementNrefs
  rw [dirstreams_setVnode, dirstreams_setVnode, ite_self, ite_self]

/-- What closing a stream writes, but for the value of one vnode. -/
theorem closeDirstream_writes {ds : DirstreamId} (hfd : isFdLegal (s.dirstreams ds).fd = true) :
    ∃ vn, s.closeDirstream ds =
      ((s.setVnode (s.openFiles (s.dirstreams ds).fd).vnode vn).setOpenFile (s.dirstreams ds).fd
        initFileEntry).setDirstream ds initDirStream := by
  unfold closeDirstream vnodeDecrementNrefs
  simp only [if_neg (ne_fdEmpty hfd), openFile_of_ne (ne_fentryMax hfd)]
  split
  · exact ⟨_, rfl⟩
  · exact ⟨_, rfl⟩

theorem opens_setFentry {fd : Int} (hfd : isFdLegal fd = true) (flags : BitVec 32) (offset : Int)
    {v : Int} (hv : v ≠ vnodeEmpty) (fType : Nat) (inoNum : BitVec 32) :
    (s.setFentry fd flags offset v fType inoNum).opens =
      Function.update s.opens fd (some ⟨v, s.currentUser, isWronly flags⟩) := by
  rw [setFentry, vnodeIncrementNrefs, vnodeSetInoNum, opens_setVnode, opens_setVnode,
    opens_setOpenFile hfd, openOf, if_neg hv]

/-- An entry filled without a vnode is as good as empty. -/
theorem opens_setFentry_empty {fd : Int} (hfd : isFdLegal fd = true) (hfree : s.opens fd = none)
    (flags : BitVec 32) (offset : Int) (fType : Nat) (inoNum : BitVec 32) :
    (s.setFentry fd flags offset vnodeEmpty fType inoNum).opens = s.opens := by
  rw [setFentry, vnodeIncrementNrefs, vnodeSetInoNum, opens_setVnode, opens_setVnode,
    opens_setOpenFile hfd, openOf, if_pos rfl, ← hfree, Function.update_eq_self]

theorem isFdLegal_of_opens {fd : Int} {o : Open Int UserId} (h : s.opens fd = some o) :
    isFdLegal fd = true := by
  by_contra hfd
  simp [opens, hfd] at h

namespace Consistent

variable (h : s.Consistent)
include h

theorem of_eq {t : FileTables} (hv : ∀ v, IsVnode v → t.vnodes v = s.vnodes v)
    (ho : t.opens = s.opens) : t.Consistent where
  vnode_of_open := by rw [ho]; exact h.vnode_of_open
  nReferences v hr := by rw [ho, hv v hr]; exact h.nReferences v hr
  inoNum_empty v hr := by rw [hv v hr]; exact h.inoNum_empty v hr
  inoNum_inj v w hr hw := by rw [hv v hr, hv w hw]; exact h.inoNum_inj v w hr hw

theorem setDirstream (ds : DirstreamId) (d : DirStream) : (s.setDirstream ds d).Consistent :=
  h.of_eq (fun _ _ => rfl) rfl

theorem openFileSetOffset {fd : Int} (hfd : isFdLegal fd = true) (val : Int) :
    (s.openFileSetOffset fd val).Consistent := by
  refine h.of_eq (fun _ _ => ?_) (opens_openFileSetOffset hfd val)
  rw [openFileSetOffset_of_ne (ne_fentryMax hfd)]

/-- No vnode is referenced more often than there are descriptors. -/
theorem nReferences_le {v : Int} (hv : IsVnode v) : (s.vnodes v).nReferences ≤ 8 := by
  rw [h.nReferences v hv]
  exact refs_le

/-- The vnode of an open descriptor is in use. -/
theorem nReferences_pos {fd : Int} {o : Open Int UserId} (ho : s.opens fd = some o) :
    0 < (s.vnodes o.file).nReferences := by
  rw [h.nReferences _ (h.vnode_of_open fd o ho)]
  have hfd : fd ∈ fdTable := mem_fdTable.mpr (isFdLegal_of_opens ho)
  exact refs_pos hfd (by rw [ho, isOn_some])

/-- Nothing points to a free vnode. -/
theorem file_ne_of_empty {v : Int} (hv : IsVnode v) (hfree : (s.vnodes v).inoNum = inoNumEmpty)
    {fd : Int} {o : Open Int UserId} (ho : s.opens fd = some o) : o.file ≠ v := by
  rintro rfl
  have h0 := (h.inoNum_empty _ hv).mp hfree
  have := h.nReferences_pos ho
  omega

/-- A change to one vnode that follows the change to the entries. -/
theorem of_update {t : FileTables} (v : Int) (vn : Vnode)
    (hvn : ∀ w, IsVnode w → t.vnodes w = if w = v then vn else s.vnodes w)
    (hopen : ∀ fd o, t.opens fd = some o → IsVnode o.file)
    (hrefs : ∀ w, IsVnode w → refs fdTable t.opens w =
      if w = v then vn.nReferences else refs fdTable s.opens w)
    (hempty : vn.inoNum = inoNumEmpty ↔ vn.nReferences = 0)
    (hinj : vn.inoNum ≠ inoNumEmpty → ∀ w, IsVnode w → w ≠ v → (s.vnodes w).inoNum ≠ vn.inoNum) :
    t.Consistent where
  vnode_of_open := hopen
  nReferences w hw := by
    rw [hvn w hw, hrefs w hw]
    split
    · rfl
    · exact h.nReferences w hw
  inoNum_empty w hw := by
    rw [hvn w hw]
    split
    · exact hempty
    · exact h.inoNum_empty w hw
  inoNum_inj a b ha hb := by
    rw [hvn a ha, hvn b hb]
    by_cases hav : a = v <;> by_cases hbv : b = v
    · exact fun _ _ => hav.trans hbv.symm
    · rw [if_pos hav, if_neg hbv]
      exact fun hne heq => absurd heq.symm (hinj hne b hb hbv)
    · rw [if_neg hav, if_pos hbv]
      exact fun hne heq => absurd heq (hinj (heq ▸ hne) a ha hav)
    · rw [if_neg hav, if_neg hbv]
      exact h.inoNum_inj a b ha hb

/-- Filling a free entry, with a vnode that holds the inode or is free to hold it. -/
theorem setFentry {fd v offset : Int} {flags : BitVec 32} {fType : Nat} {inoNum : BitVec 32}
    (hfd : isFdLegal fd = true) (hfree : s.opens fd = none) (hv : IsVnode v)
    (hino : inoNum ≠ inoNumEmpty) (hhold : (s.vnodes v).inoNum = inoNum ∨
      (s.vnodes v).inoNum = inoNumEmpty ∧ ∀ w, IsVnode w → (s.vnodes w).inoNum ≠ inoNum) :
    (s.setFentry fd flags offset v fType inoNum).Consistent := by
  have hle := h.nReferences_le hv
  have hopens := opens_setFentry (s := s) hfd flags offset hv.ne_empty fType inoNum
  refine h.of_update v ⟨inoNum, (s.vnodes v).nReferences + 1⟩ ?_ ?_ ?_ ?_ ?_
  · intro w hw
    by_cases hwv : w = v
    · subst hwv
      simp only [FileTables.setFentry, vnodeIncrementNrefs, vnodeSetInoNum, vnodes_setVnode,
        vnodes_setOpenFile hfd, Function.update_self, if_true]
      rw [Nat.mod_eq_of_lt (by omega)]
    · simp [FileTables.setFentry, vnodeIncrementNrefs, vnodeSetInoNum, vnodes_setOpenFile hfd, hwv]
  · intro e o ho
    rw [hopens] at ho
    by_cases he : e = fd
    · subst he
      rw [Function.update_self] at ho
      cases ho
      exact hv
    · rw [Function.update_of_ne he] at ho
      exact h.vnode_of_open e o ho
  · intro w hw
    rw [hopens, refs_open (mem_fdTable.mpr hfd) hfree, h.nReferences v hv]
    by_cases hwv : w = v
    · subst hwv
      simp
    · have hvw : ¬v = w := fun e => hwv e.symm
      simp [hwv, hvw]
  · simp [hino]
  · intro _ w hw hwv heq
    rcases hhold with hhas | ⟨-, hnone⟩
    · have hwne : (s.vnodes w).inoNum ≠ inoNumEmpty := by rw [heq]; exact hino
      exact hwv (h.inoNum_inj w v hw hv hwne (heq.trans hhas.symm))
    · exact hnone w hw heq

theorem setFentry_empty {fd : Int} (hfd : isFdLegal fd = true) (hfree : s.opens fd = none)
    (flags : BitVec 32) (offset : Int) (fType : Nat) (inoNum : BitVec 32) :
    (s.setFentry fd flags offset vnodeEmpty fType inoNum).Consistent := by
  refine h.of_eq (fun v hv => ?_) (opens_setFentry_empty hfd hfree flags offset fType inoNum)
  simp [FileTables.setFentry, vnodeIncrementNrefs, vnodeSetInoNum, vnodes_setOpenFile hfd,
    hv.ne_empty]

/-- What the vnode of an open descriptor is once that has been released. -/
theorem vnodes_releaseFentry {fd : Int} {o : Open Int UserId} (ho : s.opens fd = some o) :
    (s.releaseFentry fd).vnodes = Function.update s.vnodes o.file
      (if (s.vnodes o.file).nReferences = 1 then initVnode
        else { s.vnodes o.file with nReferences := (s.vnodes o.file).nReferences - 1 }) := by
  have hfile : (s.openFiles fd).vnode = o.file := file_of_opens ho
  have hle := h.nReferences_le (h.vnode_of_open fd o ho)
  have hpos := h.nReferences_pos ho
  have hdec : ((s.vnodes o.file).nReferences + 0xffffffff) % 2 ^ 32 =
      (s.vnodes o.file).nReferences - 1 := by omega
  unfold FileTables.releaseFentry vnodeDecrementNrefs
  simp only [hfile, hdec, vnodes_setOpenFile (isFdLegal_of_opens ho), vnodes_setVnode,
    Function.update_self]
  by_cases h1 : (s.vnodes o.file).nReferences = 1
  · simp [h1]
  · have h0 : (s.vnodes o.file).nReferences - 1 ≠ 0 := by omega
    simp [h1, h0]

/-- Releasing an entry in use. -/
theorem releaseFentry {fd : Int} {o : Open Int UserId} (ho : s.opens fd = some o) :
    (s.releaseFentry fd).Consistent := by
  have hfd := isFdLegal_of_opens ho
  have hv := h.vnode_of_open fd o ho
  have hpos := h.nReferences_pos ho
  have hrefs : ∀ w, refs fdTable (s.releaseFentry fd).opens w + (if o.file = w then 1 else 0) =
      refs fdTable s.opens w := by
    intro w
    rw [opens_releaseFentry hfd]
    exact refs_close (mem_fdTable.mpr hfd) ho
  refine h.of_update o.file (if (s.vnodes o.file).nReferences = 1 then initVnode
    else { s.vnodes o.file with nReferences := (s.vnodes o.file).nReferences - 1 }) ?_ ?_ ?_ ?_ ?_
  · intro w _
    rw [h.vnodes_releaseFentry ho, Function.update_apply]
  · intro e p hp
    rw [opens_releaseFentry hfd] at hp
    by_cases he : e = fd
    · subst he
      rw [Function.update_self] at hp
      cases hp
    · rw [Function.update_of_ne he] at hp
      exact h.vnode_of_open e p hp
  · intro w hw
    have hw' := hrefs w
    by_cases hwv : w = o.file
    · subst hwv
      rw [if_pos rfl, ← h.nReferences _ hv] at hw'
      rw [if_pos rfl]
      split
      · simp only [initVnode]; omega
      · simp only; omega
    · have hvw : ¬o.file = w := fun e => hwv e.symm
      rw [if_neg hvw] at hw'
      rw [if_neg hwv]
      exact hw'
  · split
    · simp [initVnode]
    · have hne : (s.vnodes o.file).inoNum ≠ inoNumEmpty := by
        intro he
        have := (h.inoNum_empty _ hv).mp he
        omega
      simp only [hne, false_iff]
      omega
  · intro hne w hw hwv heq
    split at hne
    · exact hne rfl
    · rename_i h1
      rw [if_neg h1] at heq
      exact hwv (h.inoNum_inj w o.file hw hv (by rw [heq]; exact hne) heq)

/-- A stream gives its descriptor up as `close` does. -/
theorem closeDirstream_eq {ds : DirstreamId} {o : Open Int UserId}
    (ho : s.opens (s.dirstreams ds).fd = some o) :
    s.closeDirstream ds = (s.releaseFentry (s.dirstreams ds).fd).setDirstream ds initDirStream := by
  have hfd := isFdLegal_of_opens ho
  have hfile : (s.openFiles (s.dirstreams ds).fd).vnode = o.file := file_of_opens ho
  have hle := h.nReferences_le (h.vnode_of_open _ o ho)
  have hpos := h.nReferences_pos ho
  have hdec : ((s.vnodes o.file).nReferences + 0xffffffff) % 2 ^ 32 =
      (s.vnodes o.file).nReferences - 1 := by omega
  unfold FileTables.closeDirstream FileTables.releaseFentry vnodeDecrementNrefs
  simp only [if_neg (ne_fdEmpty hfd), openFile_of_ne (ne_fentryMax hfd),
    setOpenFile_of_ne (ne_fentryMax hfd), hfile, hdec]
  by_cases h1 : (s.vnodes o.file).nReferences = 1
  · simp [h1, setVnode, FileTables.setDirstream]
  · have h0 : (s.vnodes o.file).nReferences - 1 ≠ 0 := by omega
    simp [h1, h0, setVnode, FileTables.setDirstream]

end Consistent

end FileTables

end NandFs
