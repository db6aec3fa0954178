import NandFs.ScandirRuns
import NandFs.DirectoryLookup
import NandFs.TransactionCalls
import NandFs.Program

/-! # Whether a directory may be removed

`removeFile` asks `verifyDirectoryEmpty` before it deletes a directory.  The routine looks at
the entries of the inode and at the first block only, and yet its answer is right of every
directory that starts with its entries for itself and for its parent, also where `readdir` does
not get to all that is in it.
-/
namespace NandFs

open Cursor (upTo)

section Removal
variable [FsConfig]

/-! ## The entries of a block -/

section Entries
variable {b : Block} {p : Nat} {r : Record} {es : List Record}

theorem HoldsEntries.empty_iff (h : HoldsEntries b p es) :
    isDirentEmpty (blockAt b p) = true ↔ es = [] := by
  cases h with
  | erased _ h => exact iff_of_true (isDirentEmpty_erased h) rfl
  | entry hne => exact iff_of_false (ne_true_of_eq_false hne) (List.cons_ne_nil _ _)

/-- The length in the first entry leads to the next. -/
theorem HoldsEntries.tail (h : HoldsEntries b p (r :: es)) (after : Nat → UInt8) :
    direntGetLen (direntAt b after p) = r.length ∧ HoldsEntries b (p + r.length) es := by
  cases h with
  | entry _ _ _ hp hrest =>
    rw [length_recordOf]
    exact ⟨direntGetLen_direntAt after (Nat.le_of_lt hp), hrest⟩

omit [FsConfig] in
theorem length_of_recordName {name : Path} (h : recordName r = name) (hne : name ≠ []) :
    r.length = name.length + direntFlashSize := by
  have hlen := congrArg List.length h
  have hpos := List.length_pos_iff.mpr hne
  rw [recordName, List.length_take, List.length_drop, direntFlashSize] at hlen
  rw [direntFlashSize]
  omega

end Entries

namespace Directory
variable (d : Directory)

/-- The first two entries are `.` and `..`, as `mkdir` writes them. -/
def StartsWithDots : Prop :=
  ∃ own parent rest, d.records 0 = own :: parent :: rest ∧
    recordName own = [0x2e] ∧ recordName parent = [0x2e, 0x2e]

variable {d}

theorem entries_of_one (hone : ∀ n, n ≠ 0 → d.records n = []) : d.entries = d.records 0 := by
  have hpages : 1 ≤ pageCount := by
    by_contra hlt
    exact d.first (d.bounded 0 (by omega))
  rw [entries, Cursor.upTo_eq_of_empty hpages fun k hk _ => hone k (by omega), Cursor.upTo_succ]
  rfl

/-- An entry in another block comes on top of those in the first. -/
theorem length_lt_entries {n : Nat} (hn : n ≠ 0) (hne : d.records n ≠ []) :
    (d.records 0).length < d.entries.length := by
  have hlt : n < pageCount := by
    by_contra hge
    exact hne (d.bounded n (by omega))
  have hfirst : (upTo d.records 1).length ≤ (upTo d.records n).length :=
    Cursor.length_upTo_le (by omega)
  have hall : (upTo d.records (n + 1)).length ≤ (upTo d.records pageCount).length :=
    Cursor.length_upTo_le hlt
  have hpos := List.length_pos_iff.mpr hne
  rw [show upTo d.records 1 = d.records 0 from Cursor.upTo_succ 0] at hfirst
  rw [Cursor.upTo_succ, List.length_append] at hall
  rw [entries]
  omega

theorem length_entries_eq (h : 2 ≤ (d.records 0).length) :
    d.entries.length = 2 ↔ (∀ n, n ≠ 0 → d.records n = []) ∧ (d.records 0).length = 2 := by
  constructor
  · intro hlen
    have hone : ∀ n, n ≠ 0 → d.records n = [] := by
      intro n hn
      by_contra hne
      have := length_lt_entries hn hne
      omega
    exact ⟨hone, by rwa [entries_of_one hone] at hlen⟩
  · rintro ⟨hone, hlen⟩
    rwa [entries_of_one hone]

/-- `readdir` gets to all that is in a directory of one block. -/
theorem readsOn_of_one (hone : ∀ n, n ≠ 0 → d.records n = []) : d.ReadsOn where
  reaches n n' _ hf := absurd (hone n' (by have := hf.1; omega)) hf.2.1
  beyond t ht := by
    have htriple : firstTriple ≠ 0 := by rw [firstTriple, firstDouble, directIndexEntries]; omega
    exact absurd (hone _ (by omega)) ht

end Directory

/-! ## The entries of the inode -/

section Inode
variable {m : StoredFiles} {after : Nat → UInt8} {inoNum : BitVec 32} {a : LogAddr} {d : Directory}

omit [FsConfig] in
theorem StoredFiles.firstEntry_eq_none_iff {entry : Nat → LogAddr} {i n : Nat} :
    firstEntry entry i n = none ↔ ∀ k, i ≤ k → k < n → entry k = LogAddr.empty := by
  constructor
  · intro h k hk hlt
    rw [firstEntry, List.find?_eq_none] at h
    have hnot := h k (List.mem_range'_1.mpr ⟨hk, by omega⟩)
    rwa [Bool.not_eq_true', isAddrEmpty_eq_false, not_not] at hnot
  · exact firstEntry_eq_none

/-- The entries of the inode after the first are empty if and only if the file has no block but
its first. -/
theorem StoredFiles.onlyFirst_iff (ht : m.IsTree a) :
    (firstEntry (inodeGetDirect (m.fsReadBlock a)) 1 directIndexEntries = none ∧
      inodeGetIndirect (m.fsReadBlock a) = LogAddr.empty ∧
      inodeGetDouble (m.fsReadBlock a) = LogAddr.empty ∧
      inodeGetTriple (m.fsReadBlock a) = LogAddr.empty) ↔ ∀ n, n ≠ 0 → ¬m.Has a n := by
  constructor
  · rintro ⟨hnone, hindirect, hdouble, htriple⟩ n hn hhas
    rw [StoredFiles.Has] at hhas
    rcases StoredFiles.number_cases n with hlt | ⟨c, hc, rfl⟩ | ⟨e, he, rfl⟩ | ⟨t, rfl⟩
    · rw [StoredFiles.blockAddr_direct hlt] at hhas
      exact hhas (StoredFiles.firstEntry_eq_none_iff.mp hnone n (by omega) hlt)
    · rw [StoredFiles.blockAddr_indirect hc, hindirect, StoredFiles.entry_empty] at hhas
      exact hhas rfl
    · rw [StoredFiles.blockAddr_double he, hdouble, StoredFiles.entry_empty,
        StoredFiles.entry_empty] at hhas
      exact hhas rfl
    · rw [StoredFiles.blockAddr_triple, htriple, StoredFiles.entry_empty, StoredFiles.entry_empty,
        StoredFiles.entry_empty] at hhas
      exact hhas rfl
  · intro hno
    have hpos : 0 < directIndexEntries := by decide
    refine ⟨StoredFiles.firstEntry_eq_none_iff.mpr fun n hn hlt => ?_, ?_, ?_, ?_⟩
    · have := hno n (by omega)
      rwa [StoredFiles.Has, StoredFiles.blockAddr_direct hlt, not_not] at this
    · by_contra hne
      obtain ⟨i, hi, hent⟩ := ht.indirect hne
      refine hno (directIndexEntries + i) (by omega) ?_
      rwa [StoredFiles.Has, StoredFiles.blockAddr_indirect hi]
    · by_contra hne
      obtain ⟨i, hi, hent⟩ := ht.double hne
      obtain ⟨j, hj, hent'⟩ := ht.underDouble i hent
      refine hno _ ?_ (by rwa [StoredFiles.Has, StoredFiles.blockAddr_double_at hi hj])
      rw [firstDouble]
      omega
    · by_contra hne
      obtain ⟨i, -, hent⟩ := ht.triple hne
      obtain ⟨j, hj, hent'⟩ := ht.underTriple i hent
      obtain ⟨k, hk, hent''⟩ := ht.underBoth i j hent'
      refine hno _ ?_ (by rwa [StoredFiles.Has, StoredFiles.blockAddr_triple_at (i := i) hj hk])
      rw [firstTriple, firstDouble]
      omega

variable (m inoNum a) in
/-- `getInode` finds the inode at `a`. -/
def StoredFiles.FindsInode : Prop := m.getInode inoNum = ⟨0, m.fsReadBlock a, a⟩

theorem StoredFiles.readFromInode_cases {inode : Block} {offset : Int} {addr : LogAddr}
    (hle : inodeFileDataSize ≤ offset) : (m.readFromInode inode 0 offset addr).res ≠ 0 ∨
      ∃ b, m.readFromInode inode 0 offset addr =
        ⟨0, m.fsReadBlock b, if isAddrEmpty b = false then b else addr⟩ := by
  rw [readFromInode]
  by_cases hsize : (inodeGetNbytes inode).toNat < offset
  · rw [if_pos hsize]
    exact .inl (show fsErrorOfstOvrflw ≠ 0 by decide)
  · rw [if_neg hsize, if_neg (not_lt.mpr hle)]
    simp only [true_and]
    exact .inr ⟨_, rfl⟩

/-- A block of the file of inode 0, which is an inode. -/
theorem StoredFiles.readFileBlock_ino0_cases {offset : Int} (hle : inodeFileDataSize ≤ offset) :
    (m.readFileBlock 0 offset LogAddr.empty).res ≠ 0 ∨
      ∃ b, m.readFileBlock 0 offset LogAddr.empty =
        ⟨0, m.fsReadBlock b, if isAddrEmpty b = false then b else m.ino0Addr⟩ := by
  rw [readFileBlock, readInodeBlock, if_pos rfl, readFileBlockOf]
  split_ifs with hinvolved hmax hres
  · exact .inl (show (-1 : Int) ≠ 0 by decide)
  · exact .inl (show fsErrorOfstOvrflw ≠ 0 by decide)
  · exact .inl hres
  · exact readFromInode_cases hle

/-- Where the file of inode 0 has no block for an inode, what reads as the inode is erased. -/
theorem StoredFiles.getInode_cases (hpos : 0 < inoNum.toInt) : (m.getInode inoNum).res ≠ 0 ∨
    (m.getInode inoNum).block = initBuf.main ∨ m.FindsInode inoNum (m.inodeAddr inoNum) := by
  have hle : inodeFileDataSize ≤ inodeFileDataSize + (inoNum.toInt - 1) * fsBlockSize := by
    have := mul_nonneg (show 0 ≤ inoNum.toInt - 1 by omega) (Int.le_of_lt fsBlockSize_pos)
    omega
  rcases readFileBlock_ino0_cases (m := m) hle with hres | ⟨b, hread⟩
  · exact .inl hres
  rw [FindsInode, inodeAddr, getInode, hread]
  cases hb : isAddrEmpty b with
  | true =>
    rw [isAddrEmpty_eq_true.mp hb]
    exact .inr (.inl rfl)
  | false => exact .inr (.inr (by rw [if_pos rfl]))

/-- A directory that may be removed has an inode. -/
theorem findsInode_of_verifyDirectoryEmpty (hpos : 0 < inoNum.toInt)
    (h : m.verifyDirectoryEmpty after inoNum = (0, true)) :
    m.FindsInode inoNum (m.inodeAddr inoNum) := by
  rcases StoredFiles.getInode_cases (m := m) hpos with hres | herased | hfinds
  · rw [StoredFiles.verifyDirectoryEmpty, if_pos hres] at h
    cases h
  · have hdirect : isAddrEmpty (inodeGetDirect initBuf.main 0) = true :=
      isAddrEmpty_eq_true.mpr (StoredFiles.logAddrAt_initBuf _)
    simp only [StoredFiles.verifyDirectoryEmpty, herased, hdirect, if_true] at h
    split_ifs at h <;> cases h
  · exact hfinds

variable (hd : m.StoresDirectory a d) (hfinds : m.FindsInode inoNum a)
include hd hfinds

/-- A directory with another block is not empty. -/
theorem verifyDirectoryEmpty_of_more {n : Nat} (hn : n ≠ 0) (hne : d.records n ≠ []) :
    m.verifyDirectoryEmpty after inoNum = (0, false) := by
  have hmore : ¬∀ n, n ≠ 0 → ¬m.Has a n := fun hno => hno n hn ((hd.has_iff n).mpr hne)
  rw [← StoredFiles.onlyFirst_iff hd.toIsTree] at hmore
  simp only [StoredFiles.verifyDirectoryEmpty, show m.getInode inoNum = _ from hfinds, ne_eq,
    not_true_eq_false, if_false]
  split_ifs with hdirect hindirect hdouble htriple
  any_goals rfl
  -- no other block was seen
  all_goals
    exact absurd ⟨Option.not_isSome_iff_eq_none.mp hdirect, isAddrEmpty_eq_true.mp hindirect,
      isAddrEmpty_eq_true.mp hdouble, isAddrEmpty_eq_true.mp htriple⟩ hmore

/-- Without another block the third entry of the first block decides. -/
theorem verifyDirectoryEmpty_of_one (hone : ∀ n, n ≠ 0 → d.records n = []) {r r' : Record}
    {es : List Record} (hes : d.records 0 = r :: r' :: es)
    (hroom : r.length + r'.length + 5 ≤ pageSize) :
    m.verifyDirectoryEmpty after inoNum = (0, decide (es = [])) := by
  have hfirst : d.records 0 ≠ [] := d.first
  obtain ⟨hnone, hindirect, hdouble, htriple⟩ := (StoredFiles.onlyFirst_iff hd.toIsTree).mpr
    fun n hn hhas => (hd.has_iff n).mp hhas (hone n hn)
  have hblock : inodeGetDirect (m.fsReadBlock a) 0 = m.blockAddr a 0 :=
    (StoredFiles.blockAddr_direct (by decide)).symm
  have hholds := hd.holds 0 hfirst
  rw [hes] at hholds
  obtain ⟨hsecond, hrest⟩ := hholds.tail after
  obtain ⟨hthird, hrest⟩ := hrest.tail after
  have hseen : isDirentEmpty
        (direntAt (m.fsReadBlock (m.blockAddr a 0)) after (r.length + r'.length : Nat)) =
      isDirentEmpty (blockAt (m.fsReadBlock (m.blockAddr a 0)) (r.length + r'.length)) :=
    isDirentEmpty_direntAt hroom
  have hempty := hrest.empty_iff
  rw [Nat.zero_add, ← hseen] at hempty
  rw [Nat.zero_add] at hthird
  rw [Nat.cast_zero] at hsecond
  have hhas : isAddrEmpty (m.blockAddr a 0) = false :=
    isAddrEmpty_eq_false.mpr ((hd.has_iff 0).mpr hfirst)
  simp only [StoredFiles.verifyDirectoryEmpty, show m.getInode inoNum = _ from hfinds, hnone,
    hindirect, hdouble, htriple, hblock, hhas, hsecond, hthird, ne_eq, not_true_eq_false, if_false,
    Option.isSome_none, Bool.false_eq_true, isAddrEmpty_eq_true]
  rw [Bool.eq_iff_iff.mpr (hempty.trans decide_eq_true_iff.symm)]

/-- The answer is right of every directory that starts with its two own entries. -/
theorem verifyDirectoryEmpty_eq (hdots : d.StartsWithDots) :
    m.verifyDirectoryEmpty after inoNum = (0, decide (d.entries.length = 2)) := by
  obtain ⟨own, parent, rest, hes, hown, hparent⟩ := hdots
  have hlen : (d.records 0).length = rest.length + 2 := by rw [hes]; rfl
  have hentries := Directory.length_entries_eq (d := d) (by omega)
  by_cases hone : ∀ n, n ≠ 0 → d.records n = []
  · have hroom : own.length + parent.length + 5 ≤ pageSize := by
      rw [length_of_recordName hown (List.cons_ne_nil _ _),
        length_of_recordName hparent (List.cons_ne_nil _ _)]
      exact Nat.le_trans (by decide) pageSize_ge
    rw [verifyDirectoryEmpty_of_one hd hfinds hone hes hroom, decide_eq_decide.mpr]
    rw [hentries, hlen, ← List.length_eq_zero_iff]
    exact ⟨fun h => ⟨hone, by omega⟩, fun h => by omega⟩
  · obtain ⟨n, hn⟩ := not_forall.mp hone
    obtain ⟨hn, hne⟩ := Classical.not_imp.mp hn
    rw [verifyDirectoryEmpty_of_more hd hfinds hn hne,
      decide_eq_false fun h => hone (hentries.mp h).1]

/-- What `removeFile` checks of a directory: it goes on only where there is nothing to be lost. -/
theorem verifyRemovable_eq {s : FileSystem StoredFiles} (hs : s.storage = m)
    (hdots : d.StartsWithDots) {tid : Int} {name : Path} {next : FsM StoredFiles Int} :
    verifyRemovable tid name inoNum next s =
      if name = [0x2e, 0x2e] ∨ name = [0x2e] ∨ inoNum = 1 ∨ d.entries.length ≠ 2 then .ok (-1) s
      else next s := by
  subst hs
  have hverify : onStorage (Storage.verifyDirectoryEmpty inoNum) s =
      .ok (0, decide (d.entries.length = 2)) s :=
    congrArg (fun r => EStateM.Result.ok r s) (verifyDirectoryEmpty_eq hd hfinds hdots)
  have hpassed : ∀ m : FsM StoredFiles Int, emptyTrVerify tid true m s = m s := fun _ => rfl
  have hrefused : ∀ m : FsM StoredFiles Int, emptyTrVerify tid false m s = .ok (-1) s :=
    fun _ => rfl
  unfold verifyRemovable
  by_cases hparent : name = [0x2e, 0x2e]
  · rw [if_pos (.inl hparent), bne_eq_false_iff_eq.mpr hparent, hrefused]
  rw [bne_iff_ne.mpr hparent, hpassed]
  by_cases hown : name = [0x2e]
  · rw [if_pos (.inr (.inl hown)), bne_eq_false_iff_eq.mpr hown, hrefused]
  rw [bne_iff_ne.mpr hown, hpassed]
  by_cases hroot : inoNum = 1
  · rw [if_pos (.inr (.inr (.inl hroot))), bne_eq_false_iff_eq.mpr hroot, hrefused]
  rw [bne_iff_ne.mpr hroot, hpassed, Program.bind_ok hverify]
  show emptyTrVerify tid true (emptyTrVerify tid (decide _) next) s = _
  rw [hpassed]
  by_cases htwo : d.entries.length = 2
  · rw [decide_eq_true htwo, hpassed,
      if_neg (not_or.mpr ⟨hparent, not_or.mpr ⟨hown, not_or.mpr ⟨hroot, not_not.mpr htwo⟩⟩⟩)]
  · rw [decide_eq_false htwo, hrefused, if_pos (.inr (.inr (.inr htwo)))]

omit hd hfinds in
/-- What may be removed reads as `.` and `..` and no more. -/
theorem nandfsReaddir_of_verifyDirectoryEmpty {s t : FileSystem StoredFiles} {name : Path}
    {ds : DirstreamId} (hd : s.storage.NamesDirectory name d)
    (hpos : 0 < (s.storage.named name).inoNum.toInt) (hdots : d.StartsWithDots)
    (hempty : s.storage.verifyDirectoryEmpty after (s.storage.named name).inoNum = (0, true))
    (hopen : nandfsOpendir name s = .ok (.stream ds) t)
    (hfd : s.tables.getFreeOpenFileEntry ≠ fdEmpty)
    (hidle : (s.storage.named name).inoNum ∉ s.storage.involved) :
    ∃ own parent, recordName own = [0x2e] ∧ recordName parent = [0x2e, 0x2e] ∧
      ReadsExactly ds [own, parent] t := by
  have hfinds := findsInode_of_verifyDirectoryEmpty hpos hempty
  rw [verifyDirectoryEmpty_eq hd.stores hfinds hdots, Prod.mk.injEq, decide_eq_true_iff] at hempty
  obtain ⟨own, parent, rest, hes, hown, hparent⟩ := hdots
  have hlen : (d.records 0).length = rest.length + 2 := by rw [hes]; rfl
  obtain ⟨hone, htwo⟩ := (Directory.length_entries_eq (by omega)).mp hempty.2
  obtain rfl : rest = [] := List.length_eq_zero_iff.mp (by omega)
  refine ⟨own, parent, hown, hparent, ?_⟩
  rw [← hes, ← Directory.entries_of_one hone]
  exact (readsExactly_iff_of_free hd hopen hfd hidle).mpr (Directory.readsOn_of_one hone)

end Inode

end Removal

/-! ## Two directories -/

section Roots
attribute [local instance] smallPageFs

theorem startsWithDots_rootDirectory (hasDouble : Bool) :
    (rootDirectory hasDouble).StartsWithDots :=
  ⟨_, _, [], rfl, by decide, by decide⟩

theorem findsInode_sparseRoot (hasDouble : Bool) :
    (sparseRoot hasDouble).FindsInode 1 ⟨0, 1⟩ := by
  cases hasDouble <;> rfl

/-- Of a directory with an entry that `readdir` does not get to the answer is right. -/
theorem verifyDirectoryEmpty_eq_sparseRoot :
    (sparseRoot true).verifyDirectoryEmpty (fun _ => 0) 1 =
      (0, decide ((rootDirectory true).entries.length = 2)) :=
  verifyDirectoryEmpty_eq (storesDirectory_sparseRoot true) (findsInode_sparseRoot true)
    (startsWithDots_rootDirectory true)

/-- What the root directory holds that has no file -/
def flatDirectory : Directory where
  records := (flatListing false).records
  first := records_flatListing.mpr (.inl rfl)
  bounded := (flatListing false).bounded
  distinct := (flatListing false).distinct

theorem namesDirectory_flatRoot : (flatRoot false).NamesDirectory [47] flatDirectory where
  inoNum_ne := (namesListing_flatRoot false).inoNum_ne
  stores :=
    { toIsTree := (namesListing_flatRoot false).stores.toIsTree
      inode := (namesListing_flatRoot false).stores.inode
      has_iff := (namesListing_flatRoot false).stores.has_iff
      holds := (namesListing_flatRoot false).stores.holds }

theorem nandfsReaddir_of_verifyDirectoryEmpty_flatRoot :
    ∃ (t : FileSystem StoredFiles) (own parent : Record),
      nandfsOpendir [47] (.booted (flatRoot false)) = .ok (.stream (0 : Fin 2)) t ∧
        recordName own = [0x2e] ∧ recordName parent = [0x2e, 0x2e] ∧
          ReadsExactly (0 : Fin 2) [own, parent] t := by
  have hopen : ∃ t, nandfsOpendir [47] (.booted (flatRoot false)) = .ok (.stream (0 : Fin 2)) t :=
    ⟨_, rfl⟩
  obtain ⟨t, ht⟩ := hopen
  obtain ⟨own, parent, hown, hparent, hreads⟩ :=
    nandfsReaddir_of_verifyDirectoryEmpty (s := .booted (flatRoot false)) namesDirectory_flatRoot
      (by decide) ⟨_, _, [], rfl, by decide, by decide⟩
      (show (flatRoot false).verifyDirectoryEmpty (fun _ => 0) 1 = (0, true) by decide) ht
      (by decide) (by decide)
  exact ⟨t, own, parent, ht, hown, hparent, hreads⟩

end Roots

end NandFs
