import NandFs.Scandir
import NandFs.ReaddirRuns

/-! # When `scandir` returns the selected entries

`nandfs_scandir` returns the accepted entries, in the order of the blocks, if and only if the
mutex is free, no transaction has the directory, the search gets from each of its blocks to the
next and to the end, its blocks leave five bytes behind their entries, and the allocations
succeed.  This is the order that a comparison asks for only where the entries are in it already.
-/
namespace NandFs

open Program

section Calls
variable [FsConfig]

/-- The path names a directory with these entries. -/
structure StoredFiles.NamesListing (m : StoredFiles) (dir : Path) (l : Listing) : Prop where
  inoNum_ne : (m.named dir).inoNum ≠ 0
  not_negative : isNegative (m.named dir).inoNum = false
  fType : isDirectory (m.named dir).fType = true
  getInode : m.readFileBlock 0
      (inodeFileDataSize + ((m.named dir).inoNum.toInt - 1) * fsBlockSize) LogAddr.empty =
    ⟨0, m.fsReadBlock (m.inodeAddr (m.named dir).inoNum), m.inodeAddr (m.named dir).inoNum⟩
  stores : m.StoresListing (m.inodeAddr (m.named dir).inoNum) l

/-- Given rounds enough, the call returns the accepted entries, each once, and in the order of the
comparison if there is one. -/
def Scans (sort : List Record → List Record) (dir : Path) (accepts : Record → Bool)
    (reallocator : Nat → Bool) (compar : Option (Record → Record → Int)) (l : Listing)
    (s : FileSystem StoredFiles) : Prop :=
  ∃ (names : List Record) (t : FileSystem StoredFiles) (enough : Nat),
    (∀ rounds, enough ≤ rounds →
      scandirSorting sort rounds dir (.accepting accepts reallocator) s =
        .ok ((names.length : Int), names) t) ∧
    names.Perm (l.entries.filter accepts) ∧
    ∀ cmp ∈ compar, names.Pairwise fun x y => cmp x y ≤ 0

/-- So it does whatever lies in memory behind the buffer. -/
def ScansExactly (sort : List Record → List Record) (dir : Path) (accepts : Record → Bool)
    (reallocator : Nat → Bool) (compar : Option (Record → Record → Int)) (l : Listing)
    (s : FileSystem StoredFiles) : Prop :=
  ∀ after, Scans sort dir accepts reallocator compar l { s with afterFsBuffer := after }

/-- The scan gets to the end, through each block with an accepted entry, and sees where the
entries of a block end. -/
structure Listing.ScannedExactly (l : Listing) (accepts : Record → Bool) (size : Int) : Prop
    extends l.ScannedThrough size where
  accepted : ∀ n, (∃ e ∈ l.records n, accepts e = true) → l.IsRead n
  room : ∀ n, l.records n ≠ [] → l.IsRead n → (l.records n).flatten.length + 5 ≤ pageSize

section Scan
variable {sort : List Record → List Record} {dir : Path} {accepts : Record → Bool}
  {reallocator : Nat → Bool} {compar : Option (Record → Record → Int)} {l : Listing}
  {s : FileSystem StoredFiles}

theorem directoryFirstEntryOffset_eq : directoryFirstEntryOffset = blockOffset 0 := by
  rw [blockOffset, Nat.cast_zero, zero_mul, add_zero]
  rfl

/-- With the mutex taken the call fails. -/
theorem scandirSorting_held (hheld : s.mutex = true) (rounds : Nat) (cb : ScandirCallbacks) :
    scandirSorting sort rounds dir cb s = .ok (-1, []) s := by
  have hcall : nandfsScandir rounds dir cb s = .ok (-1, []) s := fsMutexLock_held hheld
  rw [scandirSorting, bind_ok hcall]
  rfl

/-- The call is the loop over the blocks. -/
theorem nandfsScandir_free (hd : s.storage.NamesListing dir l) (hfree : s.mutex = false)
    (rounds : Nat) (cb : ScandirCallbacks) :
    nandfsScandir rounds dir cb s =
      scanBlocks cb (s.storage.named dir).inoNum (s.storage.fileSize (s.storage.named dir).inoNum)
        rounds LogAddr.empty (blockOffset 0) ⟨[], 0⟩ { s with mutex := true } := by
  have hnamei : onStorage (Storage.namei dir) { s with mutex := true } =
      .ok (s.storage.named dir) { s with mutex := true } := rfl
  rw [nandfsScandir, fsMutexLock_free hfree, bind_ok hnamei, sysVerify, hd.not_negative,
    Bool.not_false, if_pos rfl, sysVerify, if_pos hd.fType, directoryFirstEntryOffset_eq]
  rfl

/-- Sorting what is returned changes nothing, since only an empty list is sorted. -/
theorem scandirSorting_ok (hsort : ∀ names, (sort names).Perm names) {rounds : Nat}
    {cb : ScandirCallbacks} {r : Int} {names : List Record} {t : FileSystem StoredFiles} :
    scandirSorting sort rounds dir cb s = .ok (r, names) t ∧ r = names.length ↔
      nandfsScandir rounds dir cb s = .ok (r, names) t ∧ r = names.length := by
  have hempty : ∀ {xs : List Record}, sort xs = [] ↔ xs = [] := by
    intro xs
    constructor
    · intro h
      have hperm := hsort xs
      rw [h] at hperm
      exact hperm.symm.eq_nil
    · rintro rfl
      exact (hsort []).eq_nil
  unfold scandirSorting
  cases hrun : nandfsScandir rounds dir cb s with
  | error e u =>
    rw [bind_error hrun]
  | ok found u =>
    obtain ⟨r', names'⟩ := found
    rw [bind_ok hrun]
    dsimp only
    by_cases hzero : r' = 0
    · rw [if_pos hzero]
      constructor
      · rintro ⟨h, hr⟩
        cases h
        subst hzero
        obtain rfl : names' = [] := hempty.mp (List.eq_nil_of_length_eq_zero (by omega))
        rw [(hsort []).eq_nil]
        exact ⟨rfl, rfl⟩
      · rintro ⟨h, hr⟩
        cases h
        subst hzero
        obtain rfl : names = [] := List.eq_nil_of_length_eq_zero (by omega)
        rw [(hsort []).eq_nil]
        exact ⟨rfl, rfl⟩
    · rw [if_neg hzero]
      exact Iff.rfl

/-- A directory that no transaction has can be scanned, up to the size its inode gives. -/
theorem StoredFiles.NamesListing.scannable (hd : s.storage.NamesListing dir l)
    (hidle : (s.storage.named dir).inoNum ∉ s.storage.involved)
    (hsize : blockOffset 0 < s.storage.fileSize (s.storage.named dir).inoNum) :
    s.storage.Scannable (s.storage.named dir).inoNum
      (s.storage.inodeAddr (s.storage.named dir).inoNum) l
      (s.storage.fileSize (s.storage.named dir).inoNum) := by
  refine ⟨hd.stores, hd.inoNum_ne, hidle, hd.getInode, ?_⟩
  have hcontains : s.storage.involved.contains (s.storage.named dir).inoNum = false := by
    simpa using hidle
  have heq : s.storage.fileSize (s.storage.named dir).inoNum =
      (inodeGetNbytes (s.storage.fsReadBlock
        (s.storage.inodeAddr (s.storage.named dir).inoNum))).toInt := by
    rw [StoredFiles.fileSize, hcontains, if_neg Bool.false_ne_true]
    dsimp only
    rw [hd.getInode]
    exact if_neg (not_not_intro rfl)
  have hpos : 0 < blockOffset 0 := by
    have := pageSize_ge
    rw [blockOffset, Nat.cast_zero, zero_mul, add_zero, inodeFileDataSize]
    omega
  rw [heq] at hsize ⊢
  rw [BitVec.toInt_eq_toNat_cond] at hsize ⊢
  split at hsize
  · rename_i hsmall
    rw [if_pos hsmall]
  · have hlt := (inodeGetNbytes (s.storage.fsReadBlock
      (s.storage.inodeAddr (s.storage.named dir).inoNum))).isLt
    omega

/-- Nothing is read of a directory that a transaction has. -/
theorem scanBlocks_involved {inoNum : BitVec 32} {size : Int} {rounds : Nat}
    {cb : ScandirCallbacks} {list : Namelist} {r : Int} {names : List Record}
    {t : FileSystem StoredFiles} (hinvolved : inoNum ∈ s.storage.involved)
    (hsize : blockOffset 0 < size)
    (hrun : scanBlocks cb inoNum size rounds LogAddr.empty (blockOffset 0) list s =
      .ok (r, names) t) : r = -1 := by
  cases rounds with
  | zero => cases hrun
  | succ rounds =>
    obtain ⟨read, hread, hres⟩ : ∃ read : BlockRead,
        onStorage (Storage.readFileBlock inoNum (blockOffset 0) LogAddr.empty tidEmpty) s =
          .ok read s ∧ read.res = -1 := by
      refine ⟨s.storage.readFileBlock inoNum (blockOffset 0) LogAddr.empty, rfl, ?_⟩
      rw [StoredFiles.readFileBlock, StoredFiles.readFileBlockOf,
        if_pos (by simpa using hinvolved)]
    rw [scanBlocks, if_pos hsize, bind_ok hread, hres] at hrun
    exact sysReturn_failure hrun

/-- What is known when the call has returned a list. -/
theorem scans_of_ok (hd : s.storage.NamesListing dir l) (hfree : s.mutex = false)
    (hafter : s.afterFsBuffer = fun _ => 0) {rounds : Nat} {names : List Record}
    {t : FileSystem StoredFiles}
    (hsize : blockOffset 0 < s.storage.fileSize (s.storage.named dir).inoNum)
    (hrun : nandfsScandir rounds dir (.accepting accepts reallocator) s =
      .ok ((names.length : Int), names) t)
    (hperm : names.Perm (l.entries.filter accepts)) :
    names = l.entries.filter accepts ∧
      (s.storage.named dir).inoNum ∉ s.storage.involved ∧
      l.ScannedExactly accepts (s.storage.fileSize (s.storage.named dir).inoNum) ∧
      ∀ k < 2 * (l.entries.filter accepts).length, reallocator k = true := by
  have hne : ((names.length : Int)) ≠ -1 := by omega
  rw [nandfsScandir_free hd hfree] at hrun
  have hidle : (s.storage.named dir).inoNum ∉ s.storage.involved := fun hinvolved =>
    hne (scanBlocks_involved (s := { s with mutex := true }) hinvolved hsize hrun)
  have hscan := hd.scannable hidle hsize
  have hzero : 0 < firstTriple := by
    have := logAddressesPerBlock_ge
    rw [firstTriple, firstDouble]
    omega
  obtain ⟨ns, hv, hnames, halloc, hroom⟩ := scanBlocks_ok (s := { s with mutex := true }) hscan rfl
    hafter (.inl ⟨.inr rfl, hzero⟩) (.inl rfl) hne hrun
  have hmem := fun n hn => hv.mem_iff hscan.stores (fun _ => hscan.lt_size) (.inr rfl) hsize hzero
    (Nat.zero_le n) hn
  have hcollected : (Namelist.collect accepts ⟨[], 0⟩ (ns.flatMap l.records)).names.reverse =
      (ns.flatMap l.records).filter accepts := by
    rw [Namelist.collect, List.append_nil, List.reverse_reverse]
  rw [hcollected] at hnames
  subst hnames
  have hall := (filter_visited_perm_iff hv.pairwise).mp hperm
  have heq := filter_visited_eq hv.pairwise hall
  refine ⟨heq, hidle, ⟨(exists_visits_iff hscan.stores (fun _ => hscan.lt_size) hsize).mp ⟨ns, hv⟩,
    fun n hn => ?_, fun n hn hread => ?_⟩, fun k hk => ?_⟩
  · obtain ⟨e, he, hacc⟩ := hn
    exact (hmem n (List.ne_nil_of_mem he)).mp (hall n ⟨e, he, hacc⟩)
  · exact hroom n ((hmem n hn).mpr hread)
  · refine halloc k (Nat.zero_le k) ?_
    rw [Namelist.collect, Nat.zero_add, heq]
    exact hk

/-- The call on a directory that has no block. -/
theorem nandfsScandir_small (hd : s.storage.NamesListing dir l) (hfree : s.mutex = false)
    (hsize : s.storage.fileSize (s.storage.named dir).inoNum ≤ blockOffset 0) (rounds : Nat)
    (cb : ScandirCallbacks) : nandfsScandir (rounds + 1) dir cb s = .ok (0, []) s := by
  have hs : ({ s with mutex := false } : FileSystem StoredFiles) = s := by rw [← hfree]
  rw [nandfsScandir_free hd hfree, scanBlocks, if_neg (not_lt.mpr hsize), sysReturn,
    fsMutexUnlock_held rfl]
  exact congrArg (EStateM.Result.ok _) hs

/-- The call on a directory that the scan gets through. -/
theorem nandfsScandir_collects (hd : s.storage.NamesListing dir l) (hfree : s.mutex = false)
    (hsize : blockOffset 0 < s.storage.fileSize (s.storage.named dir).inoNum)
    (hidle : (s.storage.named dir).inoNum ∉ s.storage.involved)
    (h : l.ScannedExactly accepts (s.storage.fileSize (s.storage.named dir).inoNum))
    (halloc : ∀ k < 2 * (l.entries.filter accepts).length, reallocator k = true) :
    ∃ enough, ∀ rounds, enough ≤ rounds →
      nandfsScandir rounds dir (.accepting accepts reallocator) s =
        .ok (((l.entries.filter accepts).length : Int), l.entries.filter accepts)
          { s with mutex := false } := by
  have hscan := hd.scannable hidle hsize
  have hzero : 0 < firstTriple := by
    have := logAddressesPerBlock_ge
    rw [firstTriple, firstDouble]
    omega
  obtain ⟨ns, hv⟩ := (exists_visits_iff hscan.stores (fun _ => hscan.lt_size) hsize).mpr
    h.toScannedThrough
  have hmem := fun n hn => hv.mem_iff hscan.stores (fun _ => hscan.lt_size) (.inr rfl) hsize hzero
    (Nat.zero_le n) hn
  have hroom : ∀ k ∈ ns, (l.records k).flatten.length + 5 ≤ pageSize := by
    intro k hk
    by_cases hne : l.records k = []
    · have := pageSize_ge
      rw [hne, List.flatten_nil, List.length_nil]
      omega
    · exact h.room k hne ((hmem k hne).mp hk)
  have heq : (ns.flatMap l.records).filter accepts = l.entries.filter accepts := by
    refine filter_visited_eq hv.pairwise fun n hn => ?_
    have hread := h.accepted n hn
    obtain ⟨e, he, -⟩ := hn
    exact (hmem n (List.ne_nil_of_mem he)).mpr hread
  refine ⟨ns.length + pageSize + 1, fun rounds hrounds => ?_⟩
  have hallocates : Allocates reallocator (⟨[], 0⟩ : Namelist).allocations
      (Namelist.collect accepts ⟨[], 0⟩ (ns.flatMap l.records)).allocations :=
    fun k _ hk => halloc k (by rwa [Namelist.collect, Nat.zero_add, heq] at hk)
  have hrun := scanBlocks_collects (s := { s with mutex := true }) hscan rfl hv (.inl rfl) hroom
    hallocates rounds (by omega)
  rw [nandfsScandir_free hd hfree, hrun, Namelist.collect, List.append_nil, List.reverse_reverse,
    List.length_reverse, heq]

/-- The call returns exactly the accepted entries, in order, if and only if the mutex is free and
either no block is there to be read and no entry accepted, or the scan gets through the directory,
no transaction has it, the allocations succeed, and the accepted entries are in order in the
directory. -/
theorem nandfsScandir_exact (hsort : ∀ names, (sort names).Perm names)
    (hd : s.storage.NamesListing dir l) :
    ScansExactly sort dir accepts reallocator compar l s ↔
      s.mutex = false ∧
        (s.storage.fileSize (s.storage.named dir).inoNum ≤ blockOffset 0 ∧
            l.entries.filter accepts = [] ∨
          blockOffset 0 < s.storage.fileSize (s.storage.named dir).inoNum ∧
            (s.storage.named dir).inoNum ∉ s.storage.involved ∧
            l.ScannedExactly accepts (s.storage.fileSize (s.storage.named dir).inoNum) ∧
            (∀ k < 2 * (l.entries.filter accepts).length, reallocator k = true) ∧
            ∀ cmp ∈ compar, (l.entries.filter accepts).Pairwise fun x y => cmp x y ≤ 0) := by
  constructor
  · intro h
    obtain ⟨names, t, enough, hrun, hperm, hordered⟩ := h fun _ => 0
    have hfree : s.mutex = false := by
      by_contra hheld
      have hlocked := hrun enough (Nat.le_refl _)
      rw [scandirSorting_held (s := { s with afterFsBuffer := fun _ => 0 })
        (Bool.eq_true_of_not_eq_false hheld)] at hlocked
      have hr := (Prod.mk.inj (EStateM.Result.ok.inj hlocked).1).1
      omega
    refine ⟨hfree, ?_⟩
    rcases le_or_gt (s.storage.fileSize (s.storage.named dir).inoNum) (blockOffset 0) with
      hsmall | hsize
    · have hcall := ((scandirSorting_ok hsort).mp ⟨hrun (enough + 1) (Nat.le_succ _), rfl⟩).1
      rw [nandfsScandir_small (s := { s with afterFsBuffer := fun _ => 0 }) hd hfree hsmall] at hcall
      obtain rfl := (Prod.mk.inj (EStateM.Result.ok.inj hcall).1).2
      exact .inl ⟨hsmall, hperm.symm.eq_nil⟩
    · have hcall := ((scandirSorting_ok hsort).mp ⟨hrun enough (Nat.le_refl _), rfl⟩).1
      obtain ⟨rfl, hidle, hscanned, halloc⟩ := scans_of_ok
        (s := { s with afterFsBuffer := fun _ => 0 }) hd hfree rfl hsize hcall hperm
      exact .inr ⟨hsize, hidle, hscanned, halloc, hordered⟩
  · rintro ⟨hfree, hcase⟩ after
    have hd' : ({ s with afterFsBuffer := after } : FileSystem StoredFiles).storage.NamesListing
        dir l := hd
    rcases hcase with ⟨hsmall, hnone⟩ | ⟨hsize, hidle, hscanned, halloc, hordered⟩
    · refine ⟨[], { s with afterFsBuffer := after }, 1, fun rounds hrounds => ?_, by rw [hnone],
        fun _ _ => .nil⟩
      obtain ⟨rounds, rfl⟩ := Nat.exists_eq_add_of_le' hrounds
      exact ((scandirSorting_ok hsort).mpr ⟨nandfsScandir_small hd' hfree hsmall rounds _, rfl⟩).1
    · obtain ⟨enough, henough⟩ := nandfsScandir_collects (s := { s with afterFsBuffer := after })
        hd' hfree hsize hidle hscanned halloc
      exact ⟨_, _, enough, fun rounds hrounds =>
        ((scandirSorting_ok hsort).mpr ⟨henough rounds hrounds, rfl⟩).1, .refl _, hordered⟩

end Scan

end Calls

/-! ## A directory of direct blocks -/

section FlatRoot
attribute [local instance] smallPageFs

/-- An inode with its first direct block at page 2 and, if there is a second one, that at page 3. -/
def flatInode (hasFile : Bool) : Block :=
  pageOf 448 ([0xbf, if hasFile then 5 else 3, 0, 0, 0, 0, 0, 0, 0, 0, 0, 0, 2, 0, 0, 0xff] ++
    if hasFile then [3, 0, 0, 0xff] else [])

/-- The root directory with the entries for itself and for its parent and, if it has a file, one for
that in its second block. -/
def flatRoot (hasFile : Bool) : StoredFiles where
  page a :=
    match a.offset with
    | 0 => pageOf 448 [0xbf, 3, 0, 0, 0, 0, 0, 0, 0, 0, 0, 0, 1, 0, 0, 0xff]
    | 1 => flatInode hasFile
    | 2 => pageOf 0 (rootBlock 0)
    | 3 => pageOf 0 (rootBlock 10)
    | _ => initBuf.main
  ino0Addr := ⟨0, 0⟩
  involved := []
  names := [([47], ⟨1, ftypeDir, 0⟩)]

section Blocks
variable (hasFile : Bool)

theorem flatRoot_entries :
    inodeGetIndirect ((flatRoot hasFile).fsReadBlock ⟨0, 1⟩) = LogAddr.empty ∧
      inodeGetDouble ((flatRoot hasFile).fsReadBlock ⟨0, 1⟩) = LogAddr.empty ∧
      inodeGetTriple ((flatRoot hasFile).fsReadBlock ⟨0, 1⟩) = LogAddr.empty := by
  cases hasFile <;> decide

theorem blockAddr_flatRoot (n : Nat) : (flatRoot hasFile).blockAddr ⟨0, 1⟩ n =
    if n = 0 then ⟨0, 2⟩ else if n = 1 ∧ hasFile = true then ⟨0, 3⟩ else LogAddr.empty := by
  by_cases hdirect : n < 10
  · rw [StoredFiles.blockAddr_direct hdirect]
    revert n hasFile
    decide
  · obtain ⟨hI, hD, hT⟩ := flatRoot_entries hasFile
    simp only [StoredFiles.blockAddr, if_neg (show ¬n < directIndexEntries from hdirect), hI, hD, hT,
      StoredFiles.entry_empty]
    split_ifs <;> first | rfl | omega

theorem has_flatRoot (n : Nat) :
    (flatRoot hasFile).Has ⟨0, 1⟩ n ↔ n = 0 ∨ n = 1 ∧ hasFile = true := by
  rw [StoredFiles.Has, blockAddr_flatRoot]
  split_ifs with h0 h1
  · exact iff_of_true (by decide) (.inl h0)
  · exact iff_of_true (by decide) (.inr h1)
  · exact iff_of_false (not_not.mpr rfl) (by tauto)

theorem fileSize_flatRoot : (flatRoot hasFile).fileSize ((flatRoot hasFile).named [47]).inoNum =
    if hasFile then 1471 else 959 := by
  cases hasFile <;> decide

theorem isTree_flatRoot : (flatRoot hasFile).IsTree ⟨0, 1⟩ := by
  obtain ⟨hI, hD, hT⟩ := flatRoot_entries hasFile
  refine ⟨fun hne => absurd hI hne, fun hne => absurd hD hne, fun i hne => ?_,
    fun hne => absurd hT hne, fun i hne => ?_, fun i j hne => ?_, fun n hn => ?_,
    by cases hasFile <;> decide⟩
  · exact absurd (by rw [hD, StoredFiles.entry_empty]) hne
  · exact absurd (by rw [hT, StoredFiles.entry_empty]) hne
  · exact absurd (by rw [hT, StoredFiles.entry_empty, StoredFiles.entry_empty]) hne
  · rcases (has_flatRoot hasFile n).mp hn with rfl | ⟨rfl, rfl⟩
    · cases hasFile <;> decide
    · decide

/-- The entries in a block of the root directory -/
def flatRecords (n : Nat) : List Record :=
  if n = 0 then rootRecords false 0
  else if n = 1 ∧ hasFile = true then rootRecords false 10 else []

variable {hasFile} in
theorem flatRecords_eq_nil {n : Nat} :
    flatRecords hasFile n = [] ↔ ¬(n = 0 ∨ n = 1 ∧ hasFile = true) := by
  unfold flatRecords
  split_ifs with h0 h1
  · exact iff_of_false (by decide) (by tauto)
  · exact iff_of_false (by decide) (by tauto)
  · exact iff_of_true rfl (by tauto)

def flatListing : Listing where
  records := flatRecords hasFile
  bounded n hn := by
    have hpages : 2 ≤ pageCount := by decide
    exact flatRecords_eq_nil.mpr (by omega)
  distinct := by
    have hpages : 2 ≤ pageCount := by decide
    rw [Cursor.upTo_eq_of_empty hpages fun k hk _ => flatRecords_eq_nil.mpr (by omega)]
    revert hasFile
    decide +kernel

theorem entries_flatListing : (flatListing hasFile).entries =
    rootRecords false 0 ++ if hasFile then rootRecords false 10 else [] := by
  have hpages : 2 ≤ pageCount := by decide
  have hempty : ∀ k, 2 ≤ k → k < pageCount → (flatListing hasFile).records k = [] :=
    fun k hk _ => flatRecords_eq_nil.mpr (by omega)
  rw [Listing.entries, Cursor.upTo_eq_of_empty hpages hempty]
  cases hasFile <;> rfl

variable {hasFile} in
theorem records_flatListing {n : Nat} :
    (flatListing hasFile).records n ≠ [] ↔ n = 0 ∨ n = 1 ∧ hasFile = true :=
  (not_iff_not.mpr flatRecords_eq_nil).trans not_not

theorem storesListing_flatRoot : (flatRoot hasFile).StoresListing ⟨0, 1⟩ (flatListing hasFile) where
  toIsTree := isTree_flatRoot hasFile
  inode := by decide
  has_iff n := (has_flatRoot hasFile n).trans records_flatListing.symm
  holds n hn := by
    rw [blockAddr_flatRoot]
    rcases records_flatListing.mp hn with rfl | ⟨rfl, rfl⟩
    · exact (holdsEntries_rootBlock (.inl rfl) :
        HoldsEntries (pageOf 0 (rootBlock 0)) 0 (rootRecords false 0))
    · exact (holdsEntries_rootBlock (.inr (.inl rfl)) :
        HoldsEntries (pageOf 0 (rootBlock 10)) 0 (rootRecords false 10))

theorem namesListing_flatRoot : (flatRoot hasFile).NamesListing [47] (flatListing hasFile) where
  inoNum_ne := by cases hasFile <;> decide
  not_negative := by cases hasFile <;> decide
  fType := by cases hasFile <;> decide
  getInode := by cases hasFile <;> rfl
  stores := by
    rw [show (flatRoot hasFile).inodeAddr ((flatRoot hasFile).named [47]).inoNum = ⟨0, 1⟩ by
      cases hasFile <;> decide]
    exact storesListing_flatRoot hasFile

theorem scannedExactly_flatListing (size : Int) :
    (flatListing hasFile).ScannedExactly (fun _ => true) size where
  reaches n n' _ _ hf := by
    have hn' := records_flatListing.mp hf.2.1
    have hlt := hf.1
    exact inWindow_start (.inl (show n + 1 ≤ 10 by omega))
  ends n hn _ _ := by
    have hle : n + 1 ≤ 10 := by
      rcases hn with hn | rfl
      · have := records_flatListing.mp hn
        omega
      · decide
    exact if_pos (.inl hle)
  strides t ht := by
    have h0 := records_flatListing.mp ht.1
    have htriple : 1 < firstTriple := by decide
    omega
  accepted n hn := by
    obtain ⟨e, he, -⟩ := hn
    have hn := records_flatListing.mp (List.ne_nil_of_mem he)
    have htriple : 1 < firstTriple := by decide
    exact Listing.isRead_of_lt (by omega)
  room n hn _ := by
    rcases records_flatListing.mp hn with rfl | ⟨rfl, rfl⟩
    · cases hasFile <;> decide
    · decide

end Blocks

/-- The first byte of an entry says what it names: the directories come before the file. -/
theorem nandfsScandir_exact_flatRoot : (flatListing true).entries.length = 3 ∧
    ScansExactly id [47] (fun _ => true) (fun _ => true)
      (some fun x y => ((x.headD 0).toNat : Int) - (y.headD 0).toNat) (flatListing true)
      (.booted (flatRoot true)) := by
  refine ⟨by rw [entries_flatListing]; decide, ?_⟩
  refine (nandfsScandir_exact (s := .booted (flatRoot true)) (fun names => .refl names)
    (namesListing_flatRoot true)).mpr ⟨rfl, .inr ⟨?_, by decide, ?_, fun _ _ => rfl, ?_⟩⟩
  · show blockOffset 0 < (flatRoot true).fileSize ((flatRoot true).named [47]).inoNum
    rw [fileSize_flatRoot]
    decide
  · exact scannedExactly_flatListing true _
  · rintro cmp ⟨⟩
    rw [entries_flatListing]
    decide

/-- Asked for the longer name first, the call returns the two entries in the same order. -/
theorem not_nandfsScandir_exact :
    ¬∀ (s : FileSystem StoredFiles) (dir : Path) (l : Listing) (accepts : Record → Bool)
      (cmp : Record → Record → Int) (sort : List Record → List Record),
      s.storage.NamesListing dir l → s.mutex = false → s.storage.involved = [] →
      (∀ x y, cmp x y ≤ 0 ∨ cmp y x ≤ 0) → (∀ x y z, cmp x y ≤ 0 → cmp y z ≤ 0 → cmp x z ≤ 0) →
      (∀ names, (sort names).Perm names ∧ (sort names).Pairwise fun x y => cmp x y ≤ 0) →
      Scans sort dir accepts (fun _ => true) (some cmp) l s := by
  intro hall
  -- the longer entry is the smaller one
  have htotal : ∀ x y : Record, (y.length : Int) - x.length ≤ 0 ∨ (x.length : Int) - y.length ≤ 0 :=
    fun x y => by omega
  have htrans : ∀ x y z : Record, (y.length : Int) - x.length ≤ 0 →
      (z.length : Int) - y.length ≤ 0 → (z.length : Int) - x.length ≤ 0 := fun x y z => by omega
  have hsorts : ∀ names : List Record,
      (names.insertionSort fun x y => (y.length : Int) - x.length ≤ 0).Perm names ∧
        (names.insertionSort fun x y => (y.length : Int) - x.length ≤ 0).Pairwise
          fun x y => (y.length : Int) - x.length ≤ 0 := by
    intro names
    have : Std.Total fun x y : Record => (y.length : Int) - x.length ≤ 0 := ⟨htotal⟩
    have : IsTrans Record fun x y => (y.length : Int) - x.length ≤ 0 := ⟨htrans⟩
    exact ⟨List.perm_insertionSort _ names, List.pairwise_insertionSort _ names⟩
  obtain ⟨names, t, enough, hrun, -, hordered⟩ := hall (.booted (flatRoot false)) [47] (flatListing false)
    (fun _ => true) (fun x y => (y.length : Int) - x.length) _ (namesListing_flatRoot false) rfl rfl htotal
    htrans hsorts
  obtain ⟨enough', hcall⟩ : ∃ enough, ∀ rounds, enough ≤ rounds →
      nandfsScandir rounds [47] (.accepting (fun _ => true) fun _ => true)
        (.booted (flatRoot false)) = _ :=
    nandfsScandir_collects (namesListing_flatRoot false) rfl
    (by
      show blockOffset 0 < (flatRoot false).fileSize ((flatRoot false).named [47]).inoNum
      rw [fileSize_flatRoot]
      decide)
    (by decide) (scannedExactly_flatListing false _) (fun _ _ => rfl)
  have hrun := ((scandirSorting_ok fun names => (hsorts names).1).mp
    ⟨hrun (max enough enough') (Nat.le_max_left _ _), rfl⟩).1
  rw [hcall _ (Nat.le_max_right _ _)] at hrun
  obtain rfl := (Prod.mk.inj (EStateM.Result.ok.inj hrun).1).2
  have hordered := hordered _ rfl
  rw [entries_flatListing] at hordered
  revert hordered
  decide

end FlatRoot

end NandFs
