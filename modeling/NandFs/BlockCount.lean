import NandFs.AbortBuffer
import NandFs.TreeIndices
import Mathlib.Data.Finset.Card

/-! # The block count of a file

A transaction that writes a file keeps the highest offset written and the number of blocks
allocated under its active index block, and `changeFileSize` moves both to the inode.  Here is
the part of `nandfs_write`, `writeFileBlock` and `commitInode` that these counts depend on, with
the blocks that have an address in the tree.  A write to the data kept in the inode moves the
number of blocks without taking it out of the transaction.
-/
namespace NandFs

section Defs
variable [Config]

/-- `nblocks` and `nbytes` of an inode. -/
structure InodeCounts where
  nblocks : Nat
  nbytes : Int
  deriving DecidableEq

/-- An inode, and the numbers of the blocks whose addresses are in its tree. -/
structure CountedFile extends InodeCounts where
  blocks : Finset Nat
  deriving DecidableEq

/-- The record of a transaction that writes a file: the file at `TRANSACTION_GET_INO_ADDR_PTR`,
the counts in the active index block, if it is the inode, and the blocks whose addresses are in
it. -/
structure FileTransaction where
  file : CountedFile
  fileOffset : Int
  inodeBuf : InodeCounts
  entries : Finset Nat
  maxWrittenOffset : Int
  blocksAllocs : Nat
  fileSize : Int
  deriving DecidableEq

/-- The address of block `n` is in the active index block. -/
def inActiveIndirect (fileOffset : Int) (n : Nat) : Bool :=
  isOffsetInIndirect (inodeFileDataSize + n * fsBlockSize) fileOffset

namespace FileTransaction

/-- `init_transaction`, and the address `getTidByFileId` sets. -/
def init (file : CountedFile) : FileTransaction where
  file
  fileOffset := -1
  inodeBuf := file.toInodeCounts
  entries := ∅
  maxWrittenOffset := 0
  blocksAllocs := 0
  fileSize := -1

def changeFileSize (t : FileTransaction) (inode : InodeCounts) : InodeCounts :=
  -- `IS_WRITES_PERFORMED`
  if t.maxWrittenOffset = 0 then inode
  else
    let indirectMaxOffset := t.fileOffset + t.maxWrittenOffset
    ⟨inode.nblocks + t.blocksAllocs,
      if inode.nbytes < indirectMaxOffset then indirectMaxOffset else inode.nbytes⟩

/-- The inode that `getFileUpdatedInode` starts from. -/
def inode (t : FileTransaction) : InodeCounts :=
  if t.fileOffset = 0 then t.inodeBuf else t.file.toInodeCounts

/-- `getFileSize` -/
def getFileSize (t : FileTransaction) : Int := (t.changeFileSize t.inode).nbytes

/-- The blocks of the file, once the active index block is written. -/
def blocks (t : FileTransaction) : Finset Nat :=
  if t.fileOffset < 0 then t.file.blocks
  else t.file.blocks.filter (fun n => inActiveIndirect t.fileOffset n = false) ∪ t.entries

/-- `commitInode`.  An index block and the inode above it are written from `fs_buffer`, after
`handleMinPages`.  The blocks that it may leave there are told by the file that comes of writing
them. -/
def commitInode (t : FileTransaction) (aborts : Aborts CountedFile) : FileTransaction :=
  -- `IS_INDIRECT_EMPTY`
  if t.fileOffset < 0 then t
  -- `IS_INDIRECT_INODE`
  else if t.fileOffset = 0 then
    let inodeBuf := t.changeFileSize t.inodeBuf
    { t with file := ⟨inodeBuf, t.blocks⟩, inodeBuf, blocksAllocs := 0 }
  else
    { t with
      file := aborts.leaves ⟨t.changeFileSize t.file.toInodeCounts, t.blocks⟩
      entries := ∅
      blocksAllocs := 0 }

/-- `findIndirectEntriesBlock` of an offset that is not under the active index block. -/
def findIndirectEntriesBlock (t : FileTransaction) (blockOffset : Int) : Option FileTransaction :=
  if blockOffset < fsMaxFilesize then
    let fileOffset := calcIndirectBlockOffset blockOffset
    some { t with
      fileOffset
      inodeBuf := t.file.toInodeCounts
      entries := t.file.blocks.filter fun n => inActiveIndirect fileOffset n
      maxWrittenOffset := 0
      blocksAllocs := 0 }
  else none

def changeTransactionMaxOffset (t : FileTransaction) (maxOffset : Int) : FileTransaction :=
  if t.maxWrittenOffset < maxOffset then { t with maxWrittenOffset := maxOffset } else t

/-- `writeFileBlock` of the data kept in the inode.  The blocks allocated are counted, and stay
in the transaction to be counted again. -/
def writeInodeData (t : FileTransaction) (len : Int) : FileTransaction :=
  let t := t.changeTransactionMaxOffset len
  let inodeBuf := t.changeFileSize t.inodeBuf
  { t with inodeBuf, fileSize := inodeBuf.nbytes }

/-- `writeFileBlock` of a block whose address is in the active index block. -/
def writeEntry (t : FileTransaction) (blockOffset len : Int) : FileTransaction :=
  let maxOffset :=
    if t.fileOffset = 0 then inodeFileDataSize + (blockOffset - inodeFileDataSize) + len
    else calcOffsetInIndirectSize (blockOffset - indirectDataOffset) + len
  let num := (calcInBlocks (blockOffset - inodeFileDataSize)).toNat
  let t := { t with entries := insert num t.entries }.changeTransactionMaxOffset maxOffset
  let fileSize :=
    if t.fileSize < t.fileOffset + t.maxWrittenOffset then t.fileOffset + t.maxWrittenOffset
    else t.fileSize
  -- `IS_BLOCK_REWRITE`
  if blockOffset < t.fileSize then { t with fileSize }
  else { t with fileSize, blocksAllocs := t.blocksAllocs + 1 }

/-- "check if we should read indirect block again" of `writeFileBlock` -/
def changeIndirect (t : FileTransaction) (blockOffset : Int) (aborts : Aborts CountedFile) :
    Option FileTransaction :=
  if isOffsetInIndirect blockOffset t.fileOffset then some t
  else (t.commitInode aborts).findIndirectEntriesBlock blockOffset

def writeFileBlock (t : FileTransaction) (blockOffset len : Int) (aborts : Aborts CountedFile) :
    Option FileTransaction := do
  let t ← t.changeIndirect blockOffset aborts
  if t.fileOffset = 0 ∧ blockOffset < inodeFileDataSize then some (t.writeInodeData len)
  else some (t.writeEntry blockOffset len)

/-- The loop of `nandfs_write` over whole blocks, then the last block.  The aborts are told for each
block offset. -/
def writeBlocks (t : FileTransaction) (fileOffset tempCount : Int)
    (aborts : Int → Aborts CountedFile) : Option FileTransaction :=
  if _h : fsBlockSize < tempCount then do
    let t ← t.writeFileBlock fileOffset fsBlockSize (aborts fileOffset)
    t.writeBlocks (fileOffset + fsBlockSize) (tempCount - fsBlockSize) aborts
  else if tempCount = 0 then some t
  else t.writeFileBlock fileOffset tempCount (aborts fileOffset)
termination_by tempCount.toNat
decreasing_by
  have := fsBlockSize_pos
  omega

/-- The writes of `nandfs_write` at an offset that is not behind the end of the file. -/
def write (t : FileTransaction) (fileOffset count : Int) (aborts : Int → Aborts CountedFile) :
    Option FileTransaction := do
  let t := { t with fileSize := t.getFileSize }
  let first := firstBlock fileOffset count
  let t ← t.writeFileBlock first.blockOffset (first.offsetInBlock + first.writeSize)
    (aborts first.blockOffset)
  t.writeBlocks (fileOffset + first.writeSize) (count - first.writeSize) aborts

end FileTransaction

/-! ## Runs -/

/-- What is done with a file: a `nandfs_write` at an offset, an `fsync` or the last `close`, or
that its transaction is aborted.  A write and a commit are told which transactions they abort while
the inode or an index block is in `fs_buffer`. -/
inductive FileCall
  | write (fileOffset count : Int) (aborts : Int → Aborts CountedFile)
  | commit (aborts : Aborts CountedFile)
  | abort

/-- A file, its transaction, and the largest end offset written: up to the last commit, and in
all but the writes that were aborted. -/
structure FileRun where
  committed : CountedFile
  tr : FileTransaction
  committedEnd : Int
  writtenEnd : Int

namespace FileRun

/-- A file as `createNewFile` leaves it. -/
def newFile : FileRun where
  committed := ⟨⟨1, 0⟩, ∅⟩
  tr := .init ⟨⟨1, 0⟩, ∅⟩
  committedEnd := 0
  writtenEnd := 0

/-- The transaction is aborted. -/
def abort (s : FileRun) : FileRun :=
  { s with tr := .init s.committed, writtenEnd := s.committedEnd }

/-- One call.  A write that is refused changes nothing, and one that fails aborts the
transaction. -/
def step (s : FileRun) : FileCall → FileRun
  | .write fileOffset count aborts =>
    if fileOffset < 0 ∨ count ≤ 0 ∨ s.tr.getFileSize < fileOffset then s
    else
      match s.tr.write fileOffset count aborts with
      | none => s.abort
      | some tr =>
        { s with
          tr
          writtenEnd :=
            if s.writtenEnd < fileOffset + count then fileOffset + count else s.writtenEnd }
  | .commit aborts =>
    let file := (s.tr.commitInode aborts).file
    ⟨file, .init file, s.writtenEnd, s.writtenEnd⟩
  | .abort => s.abort

def run (calls : List FileCall) (s : FileRun) : FileRun := calls.foldl step s

/-- No transaction that has written a page of VOTS is aborted while the inode or an index block is in
`fs_buffer`, and no write reaches the data kept in the inode while the inode is the active index
block and blocks allocated under it are not counted in it yet. -/
def Keeps (s : FileRun) : FileCall → Prop
  | .write fileOffset _ aborts => (∀ blockOffset, (aborts blockOffset).NoVots) ∧
    (fileOffset < inodeFileDataSize → s.tr.fileOffset = 0 → s.tr.blocksAllocs = 0)
  | .commit aborts => aborts.NoVots
  | .abort => True

/-- Every call of the run is made in a state in which it `Keeps` the counts. -/
def AllKeep : List FileCall → FileRun → Prop
  | [], _ => True
  | call :: calls, s => s.Keeps call ∧ AllKeep calls (s.step call)

end FileRun

/-- The inode counts the blocks of the file and itself, and has the largest end offset written
for its size. -/
def CountedFile.CountsRight (file : CountedFile) (writtenEnd : Int) : Prop :=
  file.nblocks = file.blocks.card + 1 ∧ file.nbytes = writtenEnd

end Defs

section Counts
variable [FsConfig] {t t' : FileTransaction} {e : Int}

/-- The inode counts the blocks of the file and itself, has the largest end offset written for its
size, and the file has the blocks that begin before it. -/
structure CountedFile.Counts (file : CountedFile) (e : Int) : Prop where
  nblocks : file.nblocks = file.blocks.card + 1
  nbytes : file.nbytes = e
  blocks : ∀ n, n ∈ file.blocks ↔ blockOffset n < e
  end_nonneg : 0 ≤ e

/-- A transaction that has what the inode does not count yet: with both, the file is as
`CountedFile.Counts` says. -/
structure FileTransaction.Counts (t : FileTransaction) (e : Int) : Prop where
  offset : TransactionOffset t.fileOffset
  nblocks : t.inode.nblocks + t.blocksAllocs = t.blocks.card + 1
  nbytes : t.getFileSize = e
  blocks : ∀ n, n ∈ t.blocks ↔ blockOffset n < e
  end_nonneg : 0 ≤ e
  written_nonneg : 0 ≤ t.maxWrittenOffset
  unwritten : t.maxWrittenOffset = 0 → t.blocksAllocs = 0
  idle : t.fileOffset < 0 → t.maxWrittenOffset = 0

/-! ## The active index block -/

theorem isOffsetInIndirect_calc {offset : Int} :
    isOffsetInIndirect offset (calcIndirectBlockOffset offset) = true := by
  have hlt := inodeFileDataSize_lt
  have hpos := inodeFileDataSize_pos
  rcases lt_or_ge offset indirectDataOffset with hdirect | hindirect
  · rw [calcIndirectBlockOffset, if_pos hdirect, isOffsetInIndirect, if_neg (Int.lt_irrefl 0),
      if_pos rfl, decide_eq_true_iff]
    exact hdirect
  · obtain ⟨g, i, p, hi, hp, rfl⟩ := exists_indirectOffset hindirect
    have hge := indirectOffset_ge g 0 0
    rw [calcIndirectBlockOffset_eq hi hp, isOffsetInIndirect, if_neg (by omega), if_neg (by omega),
      Bool.and_eq_true, decide_eq_true_iff, decide_eq_true_iff]
    exact (indirectOffset_margin hi hp).mpr rfl

/-- The highest offset written under the active index block is told from its file offset on. -/
theorem maxOffset_eq {fileOffset offset : Int} (h : TransactionOffset fileOffset)
    (hin : isOffsetInIndirect offset fileOffset = true) (len : Int) :
    fileOffset + (if fileOffset = 0 then inodeFileDataSize + (offset - inodeFileDataSize) + len
      else calcOffsetInIndirectSize (offset - indirectDataOffset) + len) = offset + len := by
  have hcalc := calcIndirectBlockOffset_of_in h hin
  by_cases hzero : fileOffset = 0
  · rw [if_pos hzero, hzero]
    ring
  · rw [if_neg hzero]
    have hge : ¬offset < indirectDataOffset := by
      intro hlt
      rw [calcIndirectBlockOffset, if_pos hlt] at hcalc
      exact hzero hcalc.symm
    rw [calcIndirectBlockOffset, if_neg hge] at hcalc
    omega

theorem le_of_isOffsetInIndirect {fileOffset offset : Int} (hpos : 0 ≤ offset)
    (hin : isOffsetInIndirect offset fileOffset = true) : fileOffset ≤ offset := by
  unfold isOffsetInIndirect at hin
  by_cases hneg : fileOffset < 0
  · rw [if_pos hneg] at hin
    cases hin
  rw [if_neg hneg] at hin
  by_cases hzero : fileOffset = 0
  · omega
  · rw [if_neg hzero, Bool.and_eq_true, decide_eq_true_iff] at hin
    omega

namespace FileTransaction

omit [FsConfig] in
theorem changeFileSize_nbytes (t : FileTransaction) (inode : InodeCounts) :
    (t.changeFileSize inode).nbytes = if t.maxWrittenOffset = 0 then inode.nbytes
      else max inode.nbytes (t.fileOffset + t.maxWrittenOffset) := by
  unfold changeFileSize
  split_ifs
  · rfl
  · dsimp only
    omega

omit [FsConfig] in
theorem changeFileSize_nblocks (h : t.maxWrittenOffset = 0 → t.blocksAllocs = 0)
    (inode : InodeCounts) :
    (t.changeFileSize inode).nblocks = inode.nblocks + t.blocksAllocs := by
  unfold changeFileSize
  split_ifs with hzero
  · rw [h hzero, Nat.add_zero]
  · rfl

/-! ## What keeps the counts -/

/-- What `commitInode` writes has the counts of the transaction. -/
theorem Counts.commitInode {aborts : Aborts CountedFile} (h : t.Counts e) (ha : aborts.NoVots) :
    (t.commitInode aborts).file.Counts e := by
  have hsize := h.nbytes
  unfold FileTransaction.commitInode
  rw [Aborts.leaves_of_noVots ha]
  by_cases hneg : t.fileOffset < 0
  · have hne : t.fileOffset ≠ 0 := by omega
    have hblocks : t.blocks = t.file.blocks := if_pos hneg
    rw [if_pos hneg]
    refine ⟨?_, ?_, fun n => ?_, h.end_nonneg⟩
    · have hcount := h.nblocks
      rwa [h.unwritten (h.idle hneg), inode, if_neg hne, hblocks] at hcount
    · rwa [getFileSize, changeFileSize_nbytes, if_pos (h.idle hneg), inode, if_neg hne] at hsize
    · rw [← hblocks]
      exact h.blocks n
  rw [if_neg hneg]
  have hcount := (changeFileSize_nblocks h.unwritten t.inode).trans h.nblocks
  by_cases hzero : t.fileOffset = 0
  · have hinode : t.inode = t.inodeBuf := if_pos hzero
    rw [getFileSize, hinode] at hsize
    rw [hinode] at hcount
    rw [if_pos hzero]
    exact ⟨hcount, hsize, h.blocks, h.end_nonneg⟩
  · have hinode : t.inode = t.file.toInodeCounts := if_neg hzero
    rw [getFileSize, hinode] at hsize
    rw [hinode] at hcount
    rw [if_neg hzero]
    exact ⟨hcount, hsize, h.blocks, h.end_nonneg⟩

theorem counts_init {file : CountedFile} (h : file.Counts e) : (init file).Counts e where
  offset := .empty
  nblocks := h.nblocks
  nbytes := h.nbytes
  blocks := h.blocks
  end_nonneg := h.end_nonneg
  written_nonneg := Int.le_refl 0
  unwritten _ := rfl
  idle _ := rfl

omit [FsConfig] in
theorem filter_union_filter (blocks : Finset Nat) (p : Nat → Bool) :
    blocks.filter (fun n => p n = false) ∪ blocks.filter (fun n => p n = true) = blocks := by
  ext n
  simp only [Finset.mem_union, Finset.mem_filter]
  cases p n <;> simp

/-- An index block that is read holds the blocks of the file that are under it. -/
theorem findIndirectEntriesBlock_counts {blockOffset : Int} (h : t.file.Counts e)
    (hpos : 0 ≤ blockOffset) (hoffset : TransactionOffset t.fileOffset)
    (hout : isOffsetInIndirect blockOffset t.fileOffset = false)
    (hfind : t.findIndirectEntriesBlock blockOffset = some t') :
    t'.Counts e ∧ t'.fileOffset = calcIndirectBlockOffset blockOffset ∧ t'.blocksAllocs = 0 ∧
      t'.fileSize = t.fileSize := by
  unfold FileTransaction.findIndirectEntriesBlock at hfind
  split_ifs at hfind with hmax
  obtain rfl := Option.some.inj hfind
  have hnext : TransactionOffset (calcIndirectBlockOffset blockOffset) :=
    .find hoffset hpos (by rw [NandFs.findIndirectEntriesBlock, hout, if_neg Bool.false_ne_true,
      if_pos hmax])
  have hge : ¬calcIndirectBlockOffset blockOffset < 0 := by
    intro hneg
    have hin : isOffsetInIndirect blockOffset (calcIndirectBlockOffset blockOffset) = true :=
      isOffsetInIndirect_calc
    rw [isOffsetInIndirect, if_pos hneg] at hin
    cases hin
  refine ⟨?_, rfl, rfl, rfl⟩
  have hblocks : blocks { t with
      fileOffset := calcIndirectBlockOffset blockOffset
      inodeBuf := t.file.toInodeCounts
      entries := t.file.blocks.filter fun n =>
        inActiveIndirect (calcIndirectBlockOffset blockOffset) n
      maxWrittenOffset := 0
      blocksAllocs := 0 } = t.file.blocks := by
    rw [blocks, if_neg hge]
    exact filter_union_filter _ _
  constructor
  · exact hnext
  · rw [hblocks, inode, ite_self]
    exact h.nblocks
  · rw [getFileSize, inode, ite_self]
    exact h.nbytes
  · rw [hblocks]
    exact h.blocks
  · exact h.end_nonneg
  · exact Int.le_refl 0
  · exact fun _ => rfl
  · exact fun _ => rfl

omit [FsConfig] in
theorem changeTransactionMaxOffset_eq (t : FileTransaction) (maxOffset : Int) :
    t.changeTransactionMaxOffset maxOffset
      = { t with maxWrittenOffset := max t.maxWrittenOffset maxOffset } := by
  unfold changeTransactionMaxOffset
  split_ifs with hlt
  · rw [max_eq_right (Int.le_of_lt hlt)]
  · rw [max_eq_left (Int.not_lt.mp hlt)]

/-- The data kept in the inode is written.  The blocks that were allocated before must be in the
inode's count. -/
theorem Counts.writeInodeData (h : t.Counts e) (hinode : t.fileOffset = 0)
    (hallocs : t.blocksAllocs = 0) {len : Int} (hpos : 0 < len) (hle : len ≤ inodeFileDataSize) :
    (t.writeInodeData len).Counts (max e len) ∧ (t.writeInodeData len).fileSize = max e len := by
  have hsize := h.nbytes
  have hnonneg := h.written_nonneg
  have hactive : t.inode = t.inodeBuf := if_pos hinode
  rw [getFileSize, changeFileSize_nbytes, hactive, hinode] at hsize
  unfold FileTransaction.writeInodeData
  rw [changeTransactionMaxOffset_eq]
  have hmax : max t.maxWrittenOffset len ≠ 0 := by omega
  have hnbytes : ∀ c : InodeCounts, (changeFileSize
      { t with maxWrittenOffset := max t.maxWrittenOffset len } c).nbytes
        = max c.nbytes (0 + max t.maxWrittenOffset len) := fun c => by
    rw [changeFileSize_nbytes]
    dsimp only
    rw [if_neg hmax, hinode]
  have hbuf : max t.inodeBuf.nbytes (0 + max t.maxWrittenOffset len) = max e len := by
    split_ifs at hsize with hzero <;> omega
  refine ⟨?_, (hnbytes t.inodeBuf).trans hbuf⟩
  constructor
  · exact h.offset
  · have hcount := h.nblocks
    rw [hactive, hallocs] at hcount
    rw [inode, if_pos hinode]
    dsimp only
    rw [changeFileSize_nblocks fun hzero => absurd hzero hmax]
    dsimp only
    rw [hallocs]
    exact hcount
  · rw [getFileSize, inode, if_pos hinode]
    dsimp only
    rw [changeFileSize_nbytes]
    dsimp only
    rw [if_neg hmax, hnbytes, hinode, hbuf]
    omega
  · intro n
    have hdata := inodeFileDataSize_le_blockOffset n
    refine (h.blocks n).trans ?_
    omega
  · have := h.end_nonneg
    omega
  · dsimp only
    omega
  · exact fun hzero => absurd hzero hmax
  · intro hneg
    exact absurd hneg (by dsimp only; omega)

theorem not_neg_of_isOffsetInIndirect {fileOffset offset : Int}
    (hin : isOffsetInIndirect offset fileOffset = true) : ¬fileOffset < 0 := by
  intro hneg
  rw [isOffsetInIndirect, if_pos hneg] at hin
  cases hin

/-- What is left of a transaction's counts to show after block `n` is written. -/
theorem Counts.insert_entry {n : Nat} {last len : Int} (allocs : Nat) (h : t.Counts e)
    (hnneg : ¬t.fileOffset < 0) (hnext : blockOffset n ≤ e) (hpos : 0 < len)
    (hle : len ≤ fsBlockSize) (hlast : t.fileOffset + last = blockOffset n + len) (hlastpos : 0 < last)
    (hallocs : allocs = if blockOffset n < e then t.blocksAllocs else t.blocksAllocs + 1)
    (fileSize : Int) :
    FileTransaction.Counts { t with
      entries := insert n t.entries
      maxWrittenOffset := max t.maxWrittenOffset last
      blocksAllocs := allocs
      fileSize } (max e (blockOffset n + len)) := by
  have hsize := h.nbytes
  have hnonneg := h.written_nonneg
  rw [getFileSize, changeFileSize_nbytes] at hsize
  have hmax : max t.maxWrittenOffset last ≠ 0 := by omega
  have hblocks : FileTransaction.blocks { t with
      entries := insert n t.entries
      maxWrittenOffset := max t.maxWrittenOffset last
      blocksAllocs := allocs
      fileSize } = insert n t.blocks := by
    rw [FileTransaction.blocks, FileTransaction.blocks, if_neg hnneg, if_neg hnneg,
      Finset.union_insert]
  have hmem : n ∈ t.blocks ↔ blockOffset n < e := h.blocks n
  constructor
  · exact h.offset
  · have hcount := h.nblocks
    rw [hblocks, hallocs]
    by_cases hold : blockOffset n < e
    · rw [if_pos hold, Finset.insert_eq_of_mem (hmem.mpr hold)]
      exact hcount
    · rw [if_neg hold, Finset.card_insert_of_notMem fun hin => hold (hmem.mp hin)]
      exact congrArg (· + 1) hcount
  · rw [getFileSize, changeFileSize_nbytes]
    dsimp only
    rw [if_neg hmax]
    show max t.inode.nbytes (t.fileOffset + max t.maxWrittenOffset last) = _
    split_ifs at hsize with hzero <;> omega
  · intro k
    rw [hblocks, Finset.mem_insert, h.blocks k]
    have hbelow := blockOffset_le_iff (n := k) (k := n)
    have habove := blockOffset_le_iff (n := n + 1) (k := k)
    have hsucc := blockOffset_add n 1
    rw [Nat.cast_one, one_mul] at hsucc
    constructor
    · rintro (rfl | hlt) <;> omega
    · intro hlt
      by_cases hkn : k < n
      · have hkn' : blockOffset k ≤ blockOffset n := hbelow.mpr (Nat.le_of_lt hkn)
        have hne : blockOffset k ≠ blockOffset n := fun heq =>
          absurd (blockOffset_le_iff.mp (Int.le_of_eq heq.symm)) (Nat.not_le.mpr hkn)
        exact .inr (by omega)
      · rcases Nat.eq_or_lt_of_not_lt hkn with heq | hgt
        · exact .inl heq
        · have := habove.mpr hgt
          exact .inr (by omega)
  · have := h.end_nonneg
    exact Int.le_trans this (le_max_left ..)
  · exact Int.le_trans hnonneg (le_max_left ..)
  · exact fun hzero => absurd hzero hmax
  · exact fun hneg => absurd hneg hnneg

/-- A block is written, inside the file or right behind its end. -/
theorem Counts.writeEntry {n : Nat} {len : Int} (h : t.Counts e) (hsize : t.fileSize = e)
    (hin : isOffsetInIndirect (blockOffset n) t.fileOffset = true) (hnext : blockOffset n ≤ e)
    (hpos : 0 < len) (hle : len ≤ fsBlockSize) :
    (t.writeEntry (blockOffset n) len).Counts (max e (blockOffset n + len)) ∧
      (t.writeEntry (blockOffset n) len).fileSize = max e (blockOffset n + len) := by
  have hnneg := not_neg_of_isOffsetInIndirect hin
  have hdata : 0 ≤ blockOffset n :=
    Int.le_trans (Int.le_of_lt inodeFileDataSize_pos) (inodeFileDataSize_le_blockOffset n)
  have hlast := maxOffset_eq h.offset hin len
  have hfirst := le_of_isOffsetInIndirect hdata hin
  unfold FileTransaction.writeEntry
  rw [calcInBlocks_blockOffset, Int.toNat_natCast]
  dsimp only
  rw [changeTransactionMaxOffset_eq]
  dsimp only
  generalize (if t.fileOffset = 0 then inodeFileDataSize + (blockOffset n - inodeFileDataSize) + len
    else calcOffsetInIndirectSize (blockOffset n - indirectDataOffset) + len) = last at hlast ⊢
  have hcounts := fun allocs hallocs => insert_entry allocs h hnneg hnext hpos hle hlast (by omega)
    hallocs
  have hend := h.nbytes
  have hnonneg := h.written_nonneg
  rw [getFileSize, changeFileSize_nbytes] at hend
  rw [hsize]
  have hfile : (if e < t.fileOffset + max t.maxWrittenOffset last then
      t.fileOffset + max t.maxWrittenOffset last else e) = max e (blockOffset n + len) := by
    split_ifs at hend ⊢ <;> omega
  by_cases hold : blockOffset n < e
  · rw [if_pos hold]
    exact ⟨hcounts _ (if_pos hold).symm _, hfile⟩
  · rw [if_neg hold]
    exact ⟨hcounts _ (if_neg hold).symm _, hfile⟩

/-- The counts in the middle of a write, when the transaction knows the file's size. -/
structure Writes (t : FileTransaction) (e : Int) : Prop extends t.Counts e where
  fileSize : t.fileSize = e

/-- The active index block that a write of a block goes on with. -/
theorem Writes.active {blockOffset : Int} {aborts : Aborts CountedFile} (h : t.Writes e)
    (ha : aborts.NoVots) (hpos : 0 ≤ blockOffset)
    (hactive : t.changeIndirect blockOffset aborts = some t') :
    t'.Writes e ∧ isOffsetInIndirect blockOffset t'.fileOffset = true ∧
      (t' = t ∨ t'.blocksAllocs = 0) := by
  unfold changeIndirect at hactive
  split_ifs at hactive with hin
  · obtain rfl := Option.some.inj hactive
    exact ⟨h, hin, .inl rfl⟩
  · have hsame : (t.commitInode aborts).fileOffset = t.fileOffset ∧
        (t.commitInode aborts).fileSize = t.fileSize := by
      unfold FileTransaction.commitInode
      split_ifs <;> exact ⟨rfl, rfl⟩
    obtain ⟨hcounts, hoffset, hallocs, hsize⟩ := findIndirectEntriesBlock_counts
      (h.toCounts.commitInode ha) hpos (hsame.1 ▸ h.offset)
      (by rw [hsame.1]; exact Bool.eq_false_of_not_eq_true hin) hactive
    exact ⟨⟨hcounts, hsize.trans (hsame.2.trans h.fileSize)⟩,
      by rw [hoffset]; exact isOffsetInIndirect_calc, .inr hallocs⟩

theorem Writes.writeFileBlock_data {len : Int} {aborts : Aborts CountedFile} (h : t.Writes e)
    (ha : aborts.NoVots) (hkeeps : t.fileOffset = 0 → t.blocksAllocs = 0) (hpos : 0 < len)
    (hle : len ≤ inodeFileDataSize) (hrun : t.writeFileBlock 0 len aborts = some t') :
    t'.Writes (max e len) := by
  unfold FileTransaction.writeFileBlock at hrun
  obtain ⟨u, hactive, hwrite⟩ := Option.bind_eq_some_iff.mp hrun
  obtain ⟨hu, hin, hallocs⟩ := h.active ha (Int.le_refl 0) hactive
  have hinode : u.fileOffset = 0 := by
    have hcalc := calcIndirectBlockOffset_of_in hu.offset hin
    have hlt := inodeFileDataSize_lt
    have hdata := inodeFileDataSize_pos
    rwa [calcIndirectBlockOffset, if_pos (by omega), eq_comm] at hcalc
  rw [if_pos ⟨hinode, inodeFileDataSize_pos⟩] at hwrite
  obtain rfl := Option.some.inj hwrite
  have hzero : u.blocksAllocs = 0 := by
    rcases hallocs with rfl | hallocs
    · exact hkeeps hinode
    · exact hallocs
  obtain ⟨hcounts, hsize⟩ := hu.toCounts.writeInodeData hinode hzero hpos hle
  exact ⟨hcounts, hsize⟩

theorem Writes.writeFileBlock_entry {n : Nat} {len : Int} {aborts : Aborts CountedFile}
    (h : t.Writes e) (ha : aborts.NoVots) (hnext : blockOffset n ≤ e) (hpos : 0 < len)
    (hle : len ≤ fsBlockSize) (hrun : t.writeFileBlock (blockOffset n) len aborts = some t') :
    t'.Writes (max e (blockOffset n + len)) := by
  have hdata := inodeFileDataSize_le_blockOffset n
  have hdatapos := inodeFileDataSize_pos
  unfold FileTransaction.writeFileBlock at hrun
  obtain ⟨u, hactive, hwrite⟩ := Option.bind_eq_some_iff.mp hrun
  obtain ⟨hu, hin, -⟩ := h.active ha (by omega) hactive
  rw [if_neg fun hboth => absurd hboth.2 (Int.not_lt.mpr hdata)] at hwrite
  obtain rfl := Option.some.inj hwrite
  obtain ⟨hcounts, hsize⟩ := hu.toCounts.writeEntry hu.fileSize hin hnext hpos hle
  exact ⟨hcounts, hsize⟩

theorem writeBlocks_last {fileOffset tempCount : Int} {aborts : Int → Aborts CountedFile}
    (h : tempCount ≤ fsBlockSize) : t.writeBlocks fileOffset tempCount aborts =
      if tempCount = 0 then some t
      else t.writeFileBlock fileOffset tempCount (aborts fileOffset) := by
  rw [FileTransaction.writeBlocks, dif_neg (Int.not_lt.mpr h)]

/-- The whole blocks of a write and the last one. -/
theorem Writes.writeBlocks {fileOffset tempCount : Int} {aborts : Int → Aborts CountedFile}
    (h : t.Writes e) (ha : ∀ offset, (aborts offset).NoVots) (hcount : 0 ≤ tempCount)
    (hnext : fileOffset ≤ e) (hstart : 0 < tempCount → ∃ n, fileOffset = blockOffset n)
    (hrun : t.writeBlocks fileOffset tempCount aborts = some t') :
    t'.Writes (max e (fileOffset + tempCount)) := by
  induction t, fileOffset, tempCount using FileTransaction.writeBlocks.induct
    generalizing e with
  | case1 t fileOffset tempCount hlt ih =>
    have hblock := fsBlockSize_pos
    rw [FileTransaction.writeBlocks, dif_pos hlt] at hrun
    obtain ⟨u, hfirst, hrest⟩ := Option.bind_eq_some_iff.mp hrun
    obtain ⟨n, rfl⟩ := hstart (by omega)
    have hu := h.writeFileBlock_entry (ha _) hnext hblock (Int.le_refl _) hfirst
    have hsucc := blockOffset_add n 1
    rw [Nat.cast_one, one_mul] at hsucc
    have hall := ih u hu (by omega) (by omega) (fun _ => ⟨n + 1, hsucc.symm⟩) hrest
    have hend : max (max e (blockOffset n + fsBlockSize))
        (blockOffset n + fsBlockSize + (tempCount - fsBlockSize))
          = max e (blockOffset n + tempCount) := by omega
    rwa [hend] at hall
  | case2 t fileOffset hlt =>
    rw [FileTransaction.writeBlocks, dif_neg hlt, if_pos rfl] at hrun
    obtain rfl := Option.some.inj hrun
    rwa [Int.add_zero, max_eq_left hnext]
  | case3 t fileOffset tempCount hlt hzero =>
    rw [FileTransaction.writeBlocks, dif_neg hlt, if_neg hzero] at hrun
    obtain ⟨n, rfl⟩ := hstart (by omega)
    exact h.writeFileBlock_entry (ha _) hnext (by omega) (by omega) hrun

/-- The first block of a write that begins behind the data in the inode. -/
theorem exists_blockOffset {fileOffset : Int} (h : inodeFileDataSize ≤ fileOffset) :
    ∃ n : Nat, fileOffset - calcOffsetInFileBlock fileOffset = blockOffset n ∧
      0 ≤ calcOffsetInFileBlock fileOffset ∧ calcOffsetInFileBlock fileOffset < fsBlockSize := by
  obtain ⟨d, hd⟩ := Int.eq_ofNat_of_zero_le (Int.sub_nonneg_of_le h)
  have hp := Nat.mod_lt d pageSize_pos
  have hoff : fileOffset = blockOffset (d / pageSize) + (d % pageSize : Nat) := by
    have hdiv := Nat.div_add_mod' d pageSize
    rw [blockOffset, add_assoc, ← cast_offset, hdiv]
    omega
  refine ⟨d / pageSize, ?_⟩
  rw [hoff, calcOffsetInFileBlock_eq (d / pageSize) hp, fsBlockSize]
  exact ⟨by ring, Int.natCast_nonneg _, by exact_mod_cast hp⟩

/-- A write leaves the counts of the transaction right. -/
theorem Counts.write {fileOffset count : Int} {aborts : Int → Aborts CountedFile}
    (h : t.Counts e) (ha : ∀ offset, (aborts offset).NoVots) (hpos : 0 ≤ fileOffset)
    (hcount : 0 < count) (hend : fileOffset ≤ e)
    (hkeeps : fileOffset < inodeFileDataSize → t.fileOffset = 0 → t.blocksAllocs = 0)
    (hrun : t.write fileOffset count aborts = some t') :
    t'.Counts (max e (fileOffset + count)) := by
  have hw : Writes { t with fileSize := t.getFileSize } e :=
    ⟨⟨h.offset, h.nblocks, h.nbytes, h.blocks, h.end_nonneg, h.written_nonneg, h.unwritten, h.idle⟩,
      h.nbytes⟩
  have hdata := inodeFileDataSize_pos
  have hblock := fsBlockSize_pos
  unfold FileTransaction.write at hrun
  obtain ⟨u, hfirst, hrest⟩ := Option.bind_eq_some_iff.mp hrun
  by_cases hinode : fileOffset < inodeFileDataSize
  · have hparts : firstBlock fileOffset count = ⟨0, fileOffset,
        if inodeFileDataSize - fileOffset < count then inodeFileDataSize - fileOffset else count⟩ :=
      if_pos hinode
    rw [hparts] at hfirst hrest
    dsimp only at hfirst hrest
    generalize hsize : (if inodeFileDataSize - fileOffset < count then
      inodeFileDataSize - fileOffset else count) = writeSize at hfirst hrest
    have hbounds : 0 < writeSize ∧ writeSize ≤ count ∧ fileOffset + writeSize ≤ inodeFileDataSize ∧
        (writeSize < count → fileOffset + writeSize = inodeFileDataSize) := by
      split_ifs at hsize <;> omega
    obtain ⟨h0, h1, h2, h3⟩ := hbounds
    have hu := hw.writeFileBlock_data (ha _) (hkeeps hinode) (by omega) h2 hfirst
    have hall := hu.writeBlocks ha (by omega) (by omega) (fun hmore => ⟨0, by
      rw [h3 (by omega), blockOffset, Nat.cast_zero, zero_mul, Int.add_zero]⟩) hrest
    have htotal : max (max e (fileOffset + writeSize))
        (fileOffset + writeSize + (count - writeSize)) = max e (fileOffset + count) := by omega
    rw [htotal] at hall
    exact hall.toCounts
  · obtain ⟨n, hn, hat0, hat⟩ := exists_blockOffset (Int.not_lt.mp hinode)
    have hparts : firstBlock fileOffset count = ⟨fileOffset - calcOffsetInFileBlock fileOffset,
        calcOffsetInFileBlock fileOffset,
        if fsBlockSize - calcOffsetInFileBlock fileOffset < count then
          fsBlockSize - calcOffsetInFileBlock fileOffset else count⟩ := if_neg hinode
    rw [hparts, hn] at hfirst
    rw [hparts] at hrest
    dsimp only at hfirst hrest
    generalize calcOffsetInFileBlock fileOffset = place at hn hat0 hat hfirst hrest
    generalize hsize : (if fsBlockSize - place < count then fsBlockSize - place else count)
      = writeSize at hfirst hrest
    have hbounds : 0 < writeSize ∧ writeSize ≤ count ∧ place + writeSize ≤ fsBlockSize ∧
        (writeSize < count → place + writeSize = fsBlockSize) := by
      split_ifs at hsize <;> omega
    obtain ⟨h0, h1, h2, h3⟩ := hbounds
    have hu := hw.writeFileBlock_entry (ha _) (by omega) (by omega) h2 hfirst
    have hsucc := blockOffset_add n 1
    rw [Nat.cast_one, one_mul] at hsucc
    have hall := hu.writeBlocks ha (by omega) (by omega)
      (fun hmore => ⟨n + 1, by have := h3 (by omega); omega⟩) hrest
    have htotal : max (max e (blockOffset n + (place + writeSize)))
        (fileOffset + writeSize + (count - writeSize)) = max e (fileOffset + count) := by omega
    rw [htotal] at hall
    exact hall.toCounts

end FileTransaction

/-! ## Runs -/

namespace FileRun

/-- The counts of the committed file and those of its transaction are right. -/
structure Valid (s : FileRun) : Prop where
  committed : s.committed.Counts s.committedEnd
  tr : s.tr.Counts s.writtenEnd

theorem valid_newFile : newFile.Valid := by
  have hnew : (newFile.committed).Counts 0 := by
    refine ⟨rfl, rfl, fun n => ⟨fun hn => ?_, fun hlt => ?_⟩, Int.le_refl 0⟩
    · exact absurd hn (Finset.notMem_empty n)
    · have hdata : inodeFileDataSize ≤ blockOffset n :=
        le_add_of_nonneg_right (mul_nonneg (Int.natCast_nonneg n) (Int.le_of_lt fsBlockSize_pos))
      have hpos := inodeFileDataSize_pos
      omega
  exact ⟨hnew, FileTransaction.counts_init hnew⟩

theorem Valid.abort {s : FileRun} (h : s.Valid) : s.abort.Valid :=
  ⟨h.committed, FileTransaction.counts_init h.committed⟩

theorem Valid.step {s : FileRun} (h : s.Valid) {call : FileCall} (hkeeps : s.Keeps call) :
    (s.step call).Valid := by
  cases call with
  | write fileOffset count aborts =>
    obtain ⟨haborts, hallocs⟩ := hkeeps
    simp only [FileRun.step]
    by_cases hrefused : fileOffset < 0 ∨ count ≤ 0 ∨ s.tr.getFileSize < fileOffset
    · rwa [if_pos hrefused]
    · rw [if_neg hrefused]
      have hsize := h.tr.nbytes
      cases hrun : s.tr.write fileOffset count aborts with
      | none => exact h.abort
      | some t =>
        refine ⟨h.committed, ?_⟩
        have ht := h.tr.write haborts (by omega) (by omega) (by omega) hallocs hrun
        have hend : (if s.writtenEnd < fileOffset + count then fileOffset + count
            else s.writtenEnd) = max s.writtenEnd (fileOffset + count) := by
          split_ifs <;> omega
        dsimp only
        rwa [hend]
  | commit aborts =>
    exact ⟨h.tr.commitInode hkeeps, FileTransaction.counts_init (h.tr.commitInode hkeeps)⟩
  | abort => exact h.abort

theorem Valid.run {calls : List FileCall} {s : FileRun} (h : s.Valid) (hkeep : AllKeep calls s) :
    (run calls s).Valid := by
  induction calls generalizing s with
  | nil => exact h
  | cons call calls ih => exact ih (h.step hkeep.1) hkeep.2

/-- In every run of writes and commits that meets the condition, the block count and the size of
the committed inode are right. -/
theorem countsRight_of_allKeep (calls : List FileCall) (h : AllKeep calls newFile) :
    (run calls newFile).committed.CountsRight (run calls newFile).committedEnd := by
  have hvalid := valid_newFile.run h
  exact ⟨hvalid.committed.nblocks, hvalid.committed.nbytes⟩

end FileRun

end Counts

/-! ## A block that is counted twice -/

section SmallPage
attribute [local instance] smallPageFs

/-- The transaction after one byte is written behind the data in the inode. -/
def countsOneBlock : FileTransaction where
  file := ⟨⟨1, 0⟩, ∅⟩
  fileOffset := 0
  inodeBuf := ⟨1, 447⟩
  entries := {0}
  maxWrittenOffset := 448
  blocksAllocs := 1
  fileSize := 448

theorem write_countsOneBlock :
    (FileTransaction.init ⟨⟨1, 0⟩, ∅⟩).write 0 448 (fun _ => []) = some countsOneBlock := by
  have hfirst : FileTransaction.writeFileBlock
      { FileTransaction.init ⟨⟨1, 0⟩, ∅⟩ with
        fileSize := (FileTransaction.init ⟨⟨1, 0⟩, ∅⟩).getFileSize } 0 447 []
        = some ⟨⟨⟨1, 0⟩, ∅⟩, 0, ⟨1, 447⟩, ∅, 447, 0, 447⟩ := by decide +kernel
  have hparts : firstBlock 0 448 = ⟨0, 0, 447⟩ := rfl
  rw [FileTransaction.write, hparts]
  show (FileTransaction.writeFileBlock _ 0 447 []).bind _ = _
  rw [hfirst, Option.bind_some]
  dsimp only
  rw [FileTransaction.writeBlocks_last (by decide)]
  decide +kernel

theorem write_countsTwice : countsOneBlock.write 0 1 (fun _ => []) =
    some { countsOneBlock with inodeBuf := ⟨2, 448⟩ } := by
  have hfirst : FileTransaction.writeFileBlock
      { countsOneBlock with fileSize := countsOneBlock.getFileSize } 0 1 []
        = some { countsOneBlock with inodeBuf := ⟨2, 448⟩ } := by decide +kernel
  have hparts : firstBlock 0 1 = ⟨0, 0, 1⟩ := rfl
  rw [FileTransaction.write, hparts]
  show (FileTransaction.writeFileBlock _ 0 1 []).bind _ = _
  rw [hfirst, Option.bind_some]
  dsimp only
  rw [FileTransaction.writeBlocks_last (by decide)]
  decide +kernel

namespace FileRun

/-- A byte behind the data in the inode is written, then the first byte. -/
def countsTwice : List FileCall :=
  [.write 0 448 fun _ => [], .write 0 1 fun _ => [], .commit []]

/-- A byte behind the data in the inode is written, and another transaction is aborted that has
written a block of data. -/
def countsOnce : List FileCall :=
  [.write 0 448 fun _ => [], .commit [[⟨false, ⟨⟨7, 7⟩, ∅⟩⟩]]]

theorem step_countsOneBlock : newFile.step (.write 0 448 fun _ => [])
    = ⟨⟨⟨1, 0⟩, ∅⟩, countsOneBlock, 0, 448⟩ := by
  rw [FileRun.step, if_neg (by decide +kernel)]
  show (match (FileTransaction.init ⟨⟨1, 0⟩, ∅⟩).write 0 448 fun _ => [] with
    | none => newFile.abort
    | some tr => _) = _
  rw [write_countsOneBlock]
  rfl

theorem step_countsTwice :
    FileRun.step ⟨⟨⟨1, 0⟩, ∅⟩, countsOneBlock, 0, 448⟩ (.write 0 1 fun _ => []) =
      ⟨⟨⟨1, 0⟩, ∅⟩, { countsOneBlock with inodeBuf := ⟨2, 448⟩ }, 0, 448⟩ := by
  rw [FileRun.step, if_neg (by decide +kernel)]
  dsimp only
  rw [write_countsTwice]
  rfl

/-- A file of one data block, whose first byte is written again before it is committed, is
committed with a block count of three. -/
theorem run_countsTwice : (run countsTwice newFile).committed = ⟨⟨3, 448⟩, {0}⟩ := by
  rw [run, countsTwice, List.foldl_cons, step_countsOneBlock, List.foldl_cons, step_countsTwice]
  decide +kernel

/-- The block count is not right after every run. -/
theorem not_countsRight : ¬∀ calls : List FileCall,
    (run calls newFile).committed.CountsRight (run calls newFile).committedEnd := by
  intro h
  obtain ⟨hcount, -⟩ := h countsTwice
  rw [run_countsTwice] at hcount
  exact absurd hcount (by decide)

/-- Without the second write it is two. -/
theorem countsRight_oneBlock : (run countsOnce newFile).committed.CountsRight 448 := by
  have hpage : Aborts.NoVots [[⟨false, (⟨⟨7, 7⟩, ∅⟩ : CountedFile)⟩]] := by
    intro pages hpages p hp
    rw [List.mem_singleton.mp hpages] at hp
    rw [List.mem_singleton.mp hp]
  have hkeep : AllKeep countsOnce newFile :=
    ⟨⟨fun _ => Aborts.noVots_nil, fun _ _ => rfl⟩, hpage, trivial⟩
  have hend : (run countsOnce newFile).committedEnd = 448 := by
    rw [run, countsOnce, List.foldl_cons, step_countsOneBlock]
    rfl
  have hright := countsRight_of_allKeep countsOnce hkeep
  rwa [hend] at hright

end FileRun

end SmallPage

end NandFs
