import NandFs.ReadDirectory
import NandFs.TableCalls

/-! # `readdir` after `opendir`

A stream that `nandfs_opendir` returns is at the start of the directory, with a descriptor if
one was free and with `FS_ERROR_FENTRY_MAX` for one if not.  Read again and again it gives
each entry once and then `NULL` if and only if a descriptor was free and the search gets from
each block of the directory to the next.
-/
namespace NandFs

open Program FileTables
open Cursor (Enumerates)

section Calls
variable [FsConfig]

/-- The path names a directory. -/
structure StoredFiles.NamesDirectory (m : StoredFiles) (name : Path) (d : Directory) : Prop where
  inoNum_ne : (m.named name).inoNum ≠ 0
  stores : m.StoresDirectory (m.inodeAddr (m.named name).inoNum) d

/-- Calls of `nandfs_readdir` on the stream give each of the entries once, and then `NULL`. -/
def ReadsExactly (ds : DirstreamId) (entries : List Record) (s : FileSystem StoredFiles) : Prop :=
  ∃ (es : List Record) (t : FileSystem StoredFiles), es.Perm entries ∧
    readdirs ds (entries.length + 1) s = .ok (es.map some ++ [none]) t

/-- What `opendir` leaves when it returns the stream. -/
structure StreamLeft (s : FileSystem StoredFiles) (inoNum : BitVec 32) (ds : DirstreamId)
    (t : FileSystem StoredFiles) : Prop where
  mutex : t.mutex = false
  at_start : s.tables.getFreeOpenFileEntry ≠ fdEmpty →
    AtOffset s.storage s.afterFsBuffer inoNum (s.storage.inodeAddr inoNum) ds (blockOffset 0) t
  full : s.tables.getFreeOpenFileEntry = fdEmpty → t.tables.verifyDirstream (some ds) = false

section Opendir
variable {s : FileSystem StoredFiles} {ds : DirstreamId} {inoNum : BitVec 32}

/-- `setOpenFentry` as `opendir` calls it. -/
theorem setOpenFentry_directory (s : FileSystem StoredFiles) (inoNum : BitVec 32) :
    setOpenFentry inoNum oRdonly 0 ftypeDir s =
      (let vnodeIdx := chooseVnode s.tables inoNum oRdonly
      let fd := s.tables.getFreeOpenFileEntry
      if vnodeIdx = vnodeEmpty then .ok fdEmpty s
      else if fd = fdEmpty then .ok fsErrorFentryMax s
      else .ok fd { s with tables := s.tables.setFentry fd oRdonly 0 vnodeIdx ftypeDir inoNum }) := by
  rw [setOpenFentry, if_neg (by decide), if_neg (by decide), if_neg (by decide),
    bind_ok (show (getTables : FsM StoredFiles _) s = .ok s.tables s from rfl)]
  dsimp only
  split
  · rfl
  · split
    · rfl
    · rfl

/-- A stream that holds an entry just filled is at the start of its directory. -/
theorem atOffset_setStream (s : FileSystem StoredFiles) {fd v : Int} (hfd : 0 ≤ fd)
    (hv : v ≠ vnodeEmpty) (offset : Int) :
    AtOffset s.storage s.afterFsBuffer inoNum (s.tables.dirstreams ds).inoAddr ds (blockOffset 0)
      { s with
        tables := setStream (s.tables.setFentry fd oRdonly offset v ftypeDir inoNum) ds fd
        mutex := false } := by
  have hne : fd ≠ fsErrorFentryMax := by
    rintro rfl
    exact absurd hfd (by decide)
  refine ⟨rfl, rfl, ?_, ?_, ?_, ?_⟩
  · simp [verifyDirstream, isUserLegal, setStream, openFileSetOffset_of_ne hne,
      setOpenFile_of_ne hne, setDirstream, hfd, setFentry, vnodeIncrementNrefs, vnodeSetInoNum,
      setVnode]
  · simp [getFileIdByFd, isOpenFileEntryEmpty, setStream, openFileSetOffset_of_ne hne,
      setOpenFile_of_ne hne, setDirstream, setFentry, vnodeIncrementNrefs, vnodeSetInoNum, setVnode,
      hv]
  · simp [setStream, openFileSetOffset_of_ne hne, setOpenFile_of_ne hne, setDirstream, setFentry,
      vnodeIncrementNrefs, vnodeSetInoNum, setVnode]
  · simp [setStream, openFileSetOffset_of_ne hne, setDirstream, blockOffset,
      directoryFirstEntryOffset]

theorem returns_openStream_left (s : FileSystem StoredFiles) (hs : s.mutex = true) :
    Returns (openStream ds inoNum) s fun r t =>
      ∀ ds', r = .stream ds' → ds' = ds ∧ StreamLeft s inoNum ds t := by
  have hread (Q : BlockRead → FileSystem StoredFiles → Prop) :
      Returns (onStorage (getInode inoNum LogAddr.empty)) s Q ↔
        Q (s.storage.readFileBlock 0 (inodeFileDataSize + (inoNum.toInt - 1) * fsBlockSize)
          LogAddr.empty) s := Iff.rfl
  unfold openStream
  rw [returns_bind, hread]
  refine returns_ite (fun _ => ?_) fun _ => ?_
  · rw [returns_bind, returns_modifyTables]
    exact returns_sysReturn hs fun _ hr => by cases hr
  · rw [returns_bind, returns_modifyTables]
    generalize hu : FileSystem.mk (s.tables.setDirstream ds _) _ _ _ s.storage = u
    have hmutex : u.mutex = true := by rw [← hu]; exact hs
    have hstorage : u.storage = s.storage := by rw [← hu]
    have hafter : u.afterFsBuffer = s.afterFsBuffer := by rw [← hu]
    have haddr : (u.tables.dirstreams ds).inoAddr = s.storage.inodeAddr inoNum := by
      rw [← hu]
      simp only [setDirstream, Function.update_self]
      rfl
    have hfree : u.tables.getFreeOpenFileEntry = s.tables.getFreeOpenFileEntry := by rw [← hu]; rfl
    have hrun := setOpenFentry_directory u inoNum
    dsimp only at hrun
    split at hrun
    · rw [returns_congr (bind_ok hrun), if_pos rfl, returns_bind, returns_modifyTables]
      exact returns_sysReturn hmutex fun _ hr => by cases hr
    · split at hrun
      · rename_i hfull
        rw [returns_congr (bind_ok hrun), if_neg (by decide)]
        simp only [returns_bind, returns_modifyTables]
        refine returns_sysReturn hmutex fun _ hr => ⟨(StreamPtr.stream.inj hr).symm, rfl, ?_, ?_⟩
        · intro hne
          exact absurd (hfree ▸ hfull) hne
        · intro _
          simp [verifyDirstream, openFileSetOffset, setDirstream, fsErrorFentryMax]
      · rename_i hv hfd
        rw [returns_congr (bind_ok hrun), if_neg hfd]
        simp only [returns_bind, returns_modifyTables]
        refine returns_sysReturn hmutex fun _ hr => ⟨(StreamPtr.stream.inj hr).symm, rfl, ?_, ?_⟩
        · intro hne
          have h0 := (firstIndex_ne hfd).1
          rw [← haddr, ← hstorage, ← hafter]
          exact atOffset_setStream u h0 hv 0
        · intro hfull
          exact absurd (hfree.trans hfull) hfd

/-- What `opendir` leaves when it returns a stream. -/
theorem streamLeft_of_opendir {s t : FileSystem StoredFiles} {name : Path}
    (h : nandfsOpendir name s = .ok (.stream ds) t) :
    StreamLeft s (s.storage.named name).inoNum ds t := by
  have hleft : Returns (nandfsOpendir name) s fun r t =>
      ∀ ds, r = .stream ds → StreamLeft s (s.storage.named name).inoNum ds t := by
    refine returns_fsMutexLock (fun _ hr => by cases hr) ?_
    have hnamei (Q : NameiResult → FileSystem StoredFiles → Prop) :
        Returns (onStorage (Storage.namei name)) { s with mutex := true } Q ↔
          Q (s.storage.named name) { s with mutex := true } := Iff.rfl
    rw [returns_bind, hnamei]
    refine returns_ite (fun _ => returns_sysReturn rfl fun _ hr => by cases hr) fun _ => ?_
    rw [returns_bind, returns_getTables]
    cases s.tables.getFreeDirstreamId with
    | none => exact returns_sysReturn rfl fun _ hr => by cases hr
    | some ds =>
      refine (returns_openStream_left _ rfl).mono fun r t ht ds' hr => ?_
      obtain ⟨rfl, hmutex, hstart, hfull⟩ := ht ds' hr
      exact ⟨hmutex, hstart, hfull⟩
  exact hleft.of_ok h ds rfl

end Opendir

section Reading
variable {m : StoredFiles} {after : Nat → UInt8} {inoNum : BitVec 32} {a : LogAddr} {d : Directory}
  {ds : DirstreamId} {s t : FileSystem StoredFiles}

theorem Directory.entries_ne_nil (d : Directory) : d.entries ≠ [] := by
  intro hnil
  have hpos : 0 < pageCount := Nat.two_pow_pos _
  exact d.first (List.flatMap_eq_nil_iff.mp hnil 0 (List.mem_range.mpr hpos))

/-- Nothing is read of a directory whose inode a transaction has. -/
theorem not_enumerates_of_involved (hinvolved : inoNum ∈ m.involved) :
    ¬Enumerates (m.nextEntry after inoNum a) (blockOffset 0) d.entries := by
  have hroom := pageSize_ge
  have hplace : calcOffsetInFileBlock (blockOffset 0) = 0 := by
    have h := calcOffsetInFileBlock_eq 0 (show 0 < pageSize by omega)
    rwa [Nat.cast_zero, add_zero] at h
  have hfull : isDirentBlockFull (blockOffset 0) = false := by
    rw [isDirentBlockFull, hplace, decide_eq_false_iff_not, fsBlockSize]
    omega
  have hread : (m.readFileBlock inoNum (blockOffset 0) a).res ≠ 0 := by
    rw [StoredFiles.readFileBlock, StoredFiles.readFileBlockOf, if_pos (by simpa using hinvolved)]
    exact Int.neg_ne_zero.mpr one_ne_zero
  have hnone : m.nextEntry after inoNum a (blockOffset 0) = none := by
    rw [StoredFiles.nextEntry, hfull, if_neg Bool.false_ne_true, if_pos hread]
  rintro ⟨es, hperm, hanswers⟩
  cases es with
  | nil => exact d.entries_ne_nil hperm.symm.eq_nil
  | cons e es =>
    rw [Cursor.answers, hnone] at hanswers
    cases (List.cons.inj hanswers).1

theorem readsExactly_iff_enumerates {offset : Int} {entries : List Record}
    (h : AtOffset m after inoNum a ds offset s) (hfree : s.mutex = false) (hino : inoNum ≠ 0)
    (ha : isAddressEmpty a = false) :
    ReadsExactly ds entries s ↔ Enumerates (m.nextEntry after inoNum a) offset entries := by
  obtain ⟨t, ht⟩ := AtOffset.readdirs hino ha (entries.length + 1) h hfree
  constructor
  · rintro ⟨es, u, hperm, hrun⟩
    exact ⟨es, hperm, (EStateM.Result.ok.inj (ht.symm.trans hrun)).1⟩
  · rintro ⟨es, hperm, hanswers⟩
    exact ⟨es, t, hperm, hanswers ▸ ht⟩

/-- A stream with no descriptor answers with `NULL`. -/
theorem not_readsExactly_of_full {entries : List Record} (hne : entries ≠ [])
    (hfree : s.mutex = false) (hfull : s.tables.verifyDirstream (some ds) = false) :
    ¬ReadsExactly ds entries s := by
  have hcall : nandfsReaddir (some ds) s = .ok .null { s with mutex := false } := by
    rw [nandfsReaddir, fsMutexLock_free hfree,
      bind_ok (show (getTables : FsM StoredFiles _) _ = .ok _ _ from rfl)]
    simp only [hfull]
    exact fsMutexUnlock_held rfl
  have hnone : readdirRecord ds s = .ok none { s with mutex := false } := bind_ok hcall
  rintro ⟨es, u, hperm, hrun⟩
  rw [readdirs, bind_ok hnone] at hrun
  cases es with
  | nil => exact hne hperm.symm.eq_nil
  | cons e es =>
    have hfirst : Returns ((readdirs ds entries.length) >>= fun rest => pure (none :: rest))
        { s with mutex := false } fun l _ => l.head? = some none := by
      rw [returns_bind]
      unfold Returns wp
      split
      · rfl
      · trivial
    have hhead := hfirst.of_ok hrun
    cases Option.some.inj hhead

/-- With a descriptor for the stream, what it gives depends on the search only. -/
theorem readsExactly_iff_of_free {name : Path} (hd : s.storage.NamesDirectory name d)
    (hopen : nandfsOpendir name s = .ok (.stream ds) t)
    (hfd : s.tables.getFreeOpenFileEntry ≠ fdEmpty)
    (hidle : (s.storage.named name).inoNum ∉ s.storage.involved) :
    ReadsExactly ds d.entries t ↔ d.ReadsOn := by
  obtain ⟨hmutex, hstart, -⟩ := streamLeft_of_opendir hopen
  rw [readsExactly_iff_enumerates (hstart hfd) hmutex hd.inoNum_ne hd.stores.inode,
    enumerates_iff_readsOn hd.stores hd.inoNum_ne hidle]

/-- The calls give each entry of a directory once if and only if a descriptor was free, no
transaction has the inode of the directory, and the search gets from each of its blocks to the
next. -/
theorem nandfsReaddir_enumerates {name : Path} (hd : s.storage.NamesDirectory name d)
    (hopen : nandfsOpendir name s = .ok (.stream ds) t) :
    ReadsExactly ds d.entries t ↔ s.tables.getFreeOpenFileEntry ≠ fdEmpty ∧
      (s.storage.named name).inoNum ∉ s.storage.involved ∧ d.ReadsOn := by
  obtain ⟨hmutex, hstart, hfull⟩ := streamLeft_of_opendir hopen
  by_cases hfd : s.tables.getFreeOpenFileEntry = fdEmpty
  · have hnot := not_readsExactly_of_full d.entries_ne_nil hmutex (hfull hfd)
    exact ⟨fun h => absurd h hnot, fun h => absurd hfd h.1⟩
  by_cases hidle : (s.storage.named name).inoNum ∈ s.storage.involved
  · rw [readsExactly_iff_enumerates (hstart hfd) hmutex hd.inoNum_ne hd.stores.inode]
    exact ⟨fun h => absurd h (not_enumerates_of_involved hidle), fun h => absurd hidle h.2.1⟩
  · rw [readsExactly_iff_of_free hd hopen hfd hidle]
    exact ⟨fun h => ⟨hfd, hidle, h⟩, fun h => h.2.2⟩

end Reading

end Calls

/-! ## A directory with a block in each of three ranges -/

section SparseRoot
attribute [local instance] smallPageFs

/-- A page that is erased but for these bytes from `start` on. -/
def pageOf (start : Nat) (bytes : List UInt8) : Block := fun j =>
  if j < start then 0xff else bytes.getD (j - start) 0xff

theorem byte_pageOf_of_le {start : Nat} {bytes : List UInt8} {j : Nat}
    (h : start + bytes.length ≤ j) : (pageOf start bytes).byte j = 0xff := by
  rw [Block.byte]
  split
  · have hend : bytes.length ≤ j - start := by omega
    rw [pageOf, if_neg (show ¬j < start by omega), List.getD_eq_getElem?_getD,
      List.getElem?_eq_none hend, Option.getD_none]
  · rfl

/-- A block of addresses with one in entry 0 only, of a page of segment 0. -/
def indexPage (page : UInt8) : Block := pageOf 0 [page, 0, 0, 0xff]

theorem blockGetIndex_indexPage (page : UInt8) (i : Nat) :
    blockGetIndex (indexPage page) i = if i = 0 then ⟨0, page.toNat⟩ else LogAddr.empty := by
  split
  · subst i
    rw [blockGetIndex, logAddrAt, show (indexPage page).byte (4 * 0 + 2) = 0 from rfl,
      show (indexPage page).byte (4 * 0 + 1) = 0 from rfl,
      show (indexPage page).byte (4 * 0) = page from rfl]
    rfl
  · have hbyte (j : Nat) (hj : 4 ≤ j) : (indexPage page).byte j = 0xff := byte_pageOf_of_le hj
    rw [blockGetIndex, logAddrAt, hbyte _ (by omega), hbyte _ (by omega), hbyte _ (by omega)]
    rfl

/-- An inode of 71615 bytes with its first direct block at page 2, the indirect one at page 3
and, if there is a double one, that at page 4. -/
def rootInode (hasDouble : Bool) : Block :=
  pageOf 448 ([0xbf, 0x17, 1, 0, 0, 0, 0, 0, 0, 0, 0, 0, 2, 0, 0, 0xff] ++
    List.replicate 36 0xff ++ [3, 0, 0, 0xff] ++ if hasDouble then [4, 0, 0, 0xff] else [])

/-- Entries for the directory itself and for its parent, and for a file in each other block. -/
def rootBlock : Nat → List UInt8
  | 0 => [1, 1, 0, 0, 0, 11, 0, 0, 0, 46, 0, 1, 1, 0, 0, 0, 12, 0, 0, 0, 46, 46, 0]
  | 10 => [2, 2, 0, 0, 0, 11, 0, 0, 0, 97, 0]
  | _ => [2, 3, 0, 0, 0, 11, 0, 0, 0, 98, 0]

/-- The root directory with block 0, block 10 under its indirect entry and, if it has a double
entry, block 138 under that. -/
def sparseRoot (hasDouble : Bool) : StoredFiles where
  page a :=
    match a.offset with
    | 0 => pageOf 448 [0xbf, 3, 0, 0, 0, 0, 0, 0, 0, 0, 0, 0, 1, 0, 0, 0xff]
    | 1 => rootInode hasDouble
    | 2 => pageOf 0 (rootBlock 0)
    | 3 => indexPage 5
    | 4 => indexPage 6
    | 5 => pageOf 0 (rootBlock 10)
    | 6 => indexPage 7
    | 7 => pageOf 0 (rootBlock 138)
    | _ => initBuf.main
  ino0Addr := ⟨0, 0⟩
  involved := []
  names := [([47], ⟨1, ftypeDir, 0⟩)]

section Blocks
variable (hasDouble : Bool) (i : Nat)

theorem entry_indirect : (sparseRoot hasDouble).entry ⟨0, 3⟩ i =
    if i = 0 then ⟨0, 5⟩ else LogAddr.empty := blockGetIndex_indexPage 5 i

theorem entry_double : (sparseRoot hasDouble).entry ⟨0, 4⟩ i =
    if i = 0 then ⟨0, 6⟩ else LogAddr.empty := blockGetIndex_indexPage 6 i

theorem entry_underDouble : (sparseRoot hasDouble).entry ⟨0, 6⟩ i =
    if i = 0 then ⟨0, 7⟩ else LogAddr.empty := blockGetIndex_indexPage 7 i

theorem sparseRoot_indirect :
    inodeGetIndirect ((sparseRoot hasDouble).fsReadBlock ⟨0, 1⟩) = ⟨0, 3⟩ := by
  cases hasDouble <;> decide

theorem sparseRoot_double : inodeGetDouble ((sparseRoot hasDouble).fsReadBlock ⟨0, 1⟩) =
    if hasDouble then ⟨0, 4⟩ else LogAddr.empty := by
  cases hasDouble <;> decide

theorem sparseRoot_triple :
    inodeGetTriple ((sparseRoot hasDouble).fsReadBlock ⟨0, 1⟩) = LogAddr.empty := by
  cases hasDouble <;> decide

/-- The blocks the directory has -/
theorem blockAddr_sparseRoot (n : Nat) : (sparseRoot hasDouble).blockAddr ⟨0, 1⟩ n =
    if n = 0 then ⟨0, 2⟩ else if n = 10 then ⟨0, 5⟩
    else if n = 138 ∧ hasDouble = true then ⟨0, 7⟩ else LogAddr.empty := by
  by_cases hdirect : n < 10
  · rw [StoredFiles.blockAddr_direct hdirect]
    revert n hasDouble
    decide
  simp only [StoredFiles.blockAddr, if_neg (show ¬n < directIndexEntries from hdirect),
    sparseRoot_indirect, sparseRoot_double, sparseRoot_triple, StoredFiles.entry_empty,
    entry_indirect]
  rw [show firstDouble = 138 from rfl, show directIndexEntries = 10 from rfl,
    show logAddressesPerBlock = 128 from rfl, show firstTriple = 138 + 128 * 128 from rfl]
  cases hasDouble with
  | false =>
    simp only [Bool.false_eq_true, if_false, StoredFiles.entry_empty, and_false]
    split_ifs <;> first | rfl | omega
  | true =>
    simp only [if_true, entry_double, and_true]
    by_cases hrange : (n - 138) / 128 = 0
    · rw [if_pos hrange, entry_underDouble]
      split_ifs <;> first | rfl | omega
    · rw [if_neg hrange, StoredFiles.entry_empty]
      split_ifs <;> first | rfl | omega

theorem has_sparseRoot (n : Nat) : (sparseRoot hasDouble).Has ⟨0, 1⟩ n ↔
    n = 0 ∨ n = 10 ∨ n = 138 ∧ hasDouble = true := by
  rw [StoredFiles.Has, blockAddr_sparseRoot]
  split_ifs with h0 h10 h138
  · exact iff_of_true (by decide) (.inl h0)
  · exact iff_of_true (by decide) (.inr (.inl h10))
  · exact iff_of_true (by decide) (.inr (.inr h138))
  · exact iff_of_false (not_not.mpr rfl) (by tauto)

theorem isTree_sparseRoot : (sparseRoot hasDouble).IsTree ⟨0, 1⟩ where
  indirect _ := ⟨0, by decide, by
    rw [sparseRoot_indirect, entry_indirect]
    decide⟩
  double hne := by
    rw [sparseRoot_double] at hne ⊢
    cases hasDouble with
    | false => exact absurd rfl hne
    | true => exact ⟨0, by decide, by decide⟩
  underDouble i hne := by
    rw [sparseRoot_double] at hne ⊢
    cases hasDouble with
    | false => exact absurd (StoredFiles.entry_empty i) hne
    | true =>
      rw [if_pos rfl, entry_double] at hne ⊢
      by_cases hi : i = 0
      · rw [if_pos hi]
        exact ⟨0, by decide, by decide⟩
      · exact absurd (if_neg hi) hne
  triple hne := absurd (sparseRoot_triple hasDouble) hne
  underTriple i hne := by
    rw [sparseRoot_triple, StoredFiles.entry_empty] at hne
    exact absurd rfl hne
  underBoth i j hne := by
    rw [sparseRoot_triple, StoredFiles.entry_empty, StoredFiles.entry_empty] at hne
    exact absurd rfl hne
  within n hn := by
    have hsize : (inodeGetNbytes ((sparseRoot hasDouble).fsReadBlock ⟨0, 1⟩)).toNat
        = 71615 := by
      cases hasDouble <;> decide
    rw [hsize]
    rcases (has_sparseRoot hasDouble n).mp hn with rfl | rfl | ⟨rfl, -⟩ <;> decide
  size_le := by cases hasDouble <;> decide

end Blocks

/-- The entries in a block of the root directory -/
def rootRecords (hasDouble : Bool) (n : Nat) : List Record :=
  if n = 0 then [recordOf (blockAt (pageOf 0 (rootBlock 0)) 0),
    recordOf (blockAt (pageOf 0 (rootBlock 0)) 11)]
  else if n = 10 ∨ n = 138 ∧ hasDouble = true then
    [recordOf (blockAt (pageOf 0 (rootBlock n)) 0)]
  else []

theorem rootRecords_eq_nil {hasDouble : Bool} {n : Nat} :
    rootRecords hasDouble n = [] ↔ ¬(n = 0 ∨ n = 10 ∨ n = 138 ∧ hasDouble = true) := by
  unfold rootRecords
  split_ifs with h0 h <;> simp [*]

def rootDirectory (hasDouble : Bool) : Directory where
  records := rootRecords hasDouble
  first := by simp [rootRecords]
  bounded n hn := by
    have hpages : 139 ≤ pageCount := by decide
    exact rootRecords_eq_nil.mpr (by omega)
  distinct := by
    have hpages : 139 ≤ pageCount := by decide
    rw [Cursor.upTo_eq_of_empty hpages fun k hk _ => rootRecords_eq_nil.mpr (by omega)]
    revert hasDouble
    decide +kernel

/-- Where the bytes of a page end, nothing follows. -/
theorem holdsEntries_end {bytes : List UInt8} (h : bytes.length < pageSize) :
    HoldsEntries (pageOf 0 bytes) bytes.length [] :=
  .erased h fun _ hk _ => byte_pageOf_of_le (by omega)

theorem holdsEntries_rootBlock {hasDouble : Bool} {n : Nat}
    (hn : n = 0 ∨ n = 10 ∨ n = 138 ∧ hasDouble = true) :
    HoldsEntries (pageOf 0 (rootBlock n)) 0 (rootRecords hasDouble n) := by
  have hend : HoldsEntries (pageOf 0 (rootBlock n)) (rootBlock n).length [] :=
    holdsEntries_end (by rcases hn with rfl | rfl | ⟨rfl, -⟩ <;> decide)
  rcases hn with rfl | rfl | ⟨rfl, rfl⟩
  · have hsecond : HoldsEntries (pageOf 0 (rootBlock 0)) 11
        [recordOf (blockAt (pageOf 0 (rootBlock 0)) 11)] :=
      .entry (by decide) (by decide) (by decide) (by decide) hend
    exact .entry (by decide) (by decide) (by decide) (by decide) hsecond
  · exact .entry (by decide) (by decide) (by decide) (by decide) hend
  · exact .entry (by decide) (by decide) (by decide) (by decide) hend

theorem fsReadBlock_blockAddr {hasDouble : Bool} {n : Nat}
    (hn : n = 0 ∨ n = 10 ∨ n = 138 ∧ hasDouble = true) :
    (sparseRoot hasDouble).fsReadBlock ((sparseRoot hasDouble).blockAddr ⟨0, 1⟩ n) =
      pageOf 0 (rootBlock n) := by
  rw [blockAddr_sparseRoot]
  rcases hn with rfl | rfl | ⟨rfl, rfl⟩ <;> rfl

theorem storesDirectory_sparseRoot (hasDouble : Bool) :
    (sparseRoot hasDouble).StoresDirectory ⟨0, 1⟩ (rootDirectory hasDouble) where
  toIsTree := isTree_sparseRoot hasDouble
  inode := rfl
  has_iff n := (has_sparseRoot hasDouble n).trans
    (not_iff_not.mpr rootRecords_eq_nil |>.trans not_not).symm
  holds n hn := by
    have hblock := not_not.mp (mt rootRecords_eq_nil.mpr hn)
    rw [fsReadBlock_blockAddr hblock]
    exact holdsEntries_rootBlock hblock

theorem namesDirectory_sparseRoot (hasDouble : Bool) :
    (sparseRoot hasDouble).NamesDirectory [47] (rootDirectory hasDouble) where
  inoNum_ne := by
    rw [show (sparseRoot hasDouble).named [47] = ⟨1, ftypeDir, 0⟩ from rfl]
    decide
  stores := by
    rw [show (sparseRoot hasDouble).named [47] = ⟨1, ftypeDir, 0⟩ from rfl,
      show (sparseRoot hasDouble).inodeAddr 1 = ⟨0, 1⟩ by cases hasDouble <;> decide]
    exact storesDirectory_sparseRoot hasDouble

theorem nandfsOpendir_sparseRoot (hasDouble : Bool) : ∃ t,
    nandfsOpendir [47] (.booted (sparseRoot hasDouble)) = .ok (.stream (0 : Fin 2)) t := by
  cases hasDouble with
  | false => exact ⟨_, rfl⟩
  | true => exact ⟨_, rfl⟩

theorem readsOn_sparseRoot : (rootDirectory false).ReadsOn where
  reaches n n' hn hf := by
    have hn' : n' = 0 ∨ n' = 10 ∨ n' = 138 ∧ false = true :=
      not_not.mp (mt rootRecords_eq_nil.mpr hf.2.1)
    have hlt := hf.1
    have hnext : n < 10 := by
      rcases hn' with rfl | rfl | ⟨-, hfalse⟩
      · omega
      · exact hlt
      · cases hfalse
    have htriple : 10 < firstTriple := by decide
    exact ⟨by omega, inWindow_start (.inl (Nat.succ_le_of_lt hnext))⟩
  beyond t ht := by
    have htriple : 138 < firstTriple := by decide
    exact absurd (rootRecords_eq_nil.mpr (by omega)) ht

theorem not_readsOn_sparseRoot : ¬(rootDirectory true).ReadsOn := by
  intro hon
  have hf : Cursor.Follows (rootRecords true) 10 138 :=
    ⟨by decide, by decide, fun k hk hlt => rootRecords_eq_nil.mpr (by omega)⟩
  have hwin := (hon.reaches 10 138 (by decide) hf).2
  exact absurd (hwin 138 (by decide)) (by decide)

/-- Without a block after the indirect range the stream gives all entries. -/
theorem nandfsReaddir_enumerates_sparseRoot :
    ∃ t, nandfsOpendir [47] (.booted (sparseRoot false)) = .ok (.stream (0 : Fin 2)) t ∧
      ReadsExactly (0 : Fin 2) (rootDirectory false).entries t := by
  obtain ⟨t, ht⟩ := nandfsOpendir_sparseRoot false
  exact ⟨t, ht, (nandfsReaddir_enumerates (s := .booted (sparseRoot false))
    (namesDirectory_sparseRoot false) ht).mpr ⟨by decide, by decide, readsOn_sparseRoot⟩⟩

/-- The entry in block 138 is not given, for the search from block 10 ends with the indirect
block. -/
theorem nandfsReaddir_hides_entry :
    ¬∀ (s t : FileSystem StoredFiles) (name : Path) (d : Directory) (ds : DirstreamId),
      s.storage.NamesDirectory name d → nandfsOpendir name s = .ok (.stream ds) t →
        ReadsExactly ds d.entries t := by
  intro hall
  obtain ⟨t, ht⟩ := nandfsOpendir_sparseRoot true
  have hnames := namesDirectory_sparseRoot true
  have hreads := hall (.booted (sparseRoot true)) t [47] (rootDirectory true) (0 : Fin 2) hnames ht
  exact not_readsOn_sparseRoot ((readsExactly_iff_of_free (s := .booted (sparseRoot true)) hnames ht
    (by decide) (by decide)).mp hreads)

end SparseRoot

end NandFs
