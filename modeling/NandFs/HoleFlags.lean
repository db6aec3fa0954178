import NandFs.AbortBuffer
import NandFs.TreeIndices
import Mathlib.Order.Bounds.Basic

/-! # Free inode numbers

The inodes of all files are the blocks of inode 0.  Bit 31 of an address in its tree says
whether there is room below it: `allocAndWriteBlockTid` sets it when it writes an index block
with a free entry, and `findEmptySparseBlock` follows it down to the lowest number that no file
has.  Here the tree is told by what its addresses lead to, with the calls that change it.
-/
namespace NandFs

/-- What an address of the tree leads to, with the flag of the address: nothing, the inode of a
file, or an index block. -/
inductive HoleTree
  | missing (free : Bool)
  | inode (free : Bool)
  | index (free : Bool) (entries : TreeIndex → HoleTree)

/-- The addresses in inode 0 or in an index block. -/
abbrev IndexBlock := TreeIndex → HoleTree

namespace HoleTree

/-- `IS_ADDR_FREE` -/
def isFree : HoleTree → Bool
  | missing free => free
  | inode free => free
  | index free _ => free

/-- `IS_ADDR_EMPTY` -/
def isMissing : HoleTree → Bool
  | missing _ => true
  | _ => false

/-- The index block at an address.  What has no address reads as erased. -/
def block : HoleTree → IndexBlock
  | index _ entries => entries
  | _ => fun _ => missing true

end HoleTree

section Defs
variable [Config]

/-- `CALC_OFFSET_FROM_INODE` -/
def calcOffsetFromInode (inoNum : Int) : Int := (inoNum - 1) * fsBlockSize + inodeFileDataSize

/-- `CALC_IN_INODES` -/
def calcInInodes (ino0Offset : Int) : Int := calcInBlocks (ino0Offset - inodeFileDataSize) + 1

namespace IndexBlock

/-- `allocAndWriteBlockTid` of a block of entries of inode 0.  The block is written if it has an
address; its own address is marked as one with a hole if an entry is. -/
def allocAndWrite (entries : IndexBlock) : HoleTree :=
  let logAddrs := (List.range logAddressesPerBlock).map fun i : Nat => entries (.entry i)
  let hole := logAddrs.any (·.isFree)
  if logAddrs.all (·.isMissing) then .missing hole else .index hole entries

end IndexBlock

/-! ## What is aborted in a commit -/

/-- The transactions that are aborted in a `commitInode`: at the writes of inode 0 and of the first
and the second block of the path under it, and at the write of votes while the triple block is
in `fs_buffer`. -/
structure CommitAborts where
  ino0 : Aborts IndexBlock
  votes : Aborts IndexBlock
  first : Aborts IndexBlock
  second : Aborts IndexBlock

def CommitAborts.none : CommitAborts := ⟨[], [], [], []⟩

/-- None of them has written a page of VOTS. -/
structure CommitAborts.NoVots (aborts : CommitAborts) : Prop where
  ino0 : aborts.ino0.NoVots
  votes : aborts.votes.NoVots
  first : aborts.first.NoVots
  second : aborts.second.NoVots

/-- By levels from inode 0 on: what is aborted at the write of votes, and at that of the block. -/
def CommitAborts.levels (aborts : CommitAborts) : List (Aborts IndexBlock × Aborts IndexBlock) :=
  [([], aborts.ino0), (aborts.votes, aborts.first), ([], aborts.second)]

namespace IndexBlock

/-- The block at the end of a path. -/
def blockAt : IndexBlock → TreePath → IndexBlock
  | entries, [] => entries
  | entries, i :: path => blockAt (entries i).block path

/-- The block that `commitInode` writes at the start of a path: each block of the path has the
new address of the next, and the active index block is at its end.  All but that one are written
from `fs_buffer`, after `handleMinPages`; the address of the next block is taken from `fs_buffer`
after a vote for the block is written. -/
def commitPath : IndexBlock → TreePath → IndexBlock →
    List (Aborts IndexBlock × Aborts IndexBlock) → IndexBlock
  | _, [], active, _ => active
  | entries, i :: path, active, levels =>
    let level := levels.headD ([], [])
    let next := (level.1.leaves entries i).block
    level.2.leaves (Function.update entries i
      (commitPath next path active levels.tail).allocAndWrite)

/-- `commitInode` of inode 0.  If the inode is the active index block, it is written from the
transaction's buffer. -/
def commitInode (ino0 : IndexBlock) (fileOffset : Int) (active : IndexBlock)
    (aborts : CommitAborts) : IndexBlock :=
  if fileOffset = 0 then active
  else ino0.commitPath (commitInodePath fileOffset) active aborts.levels

/-- `commitInodeToInode0`.  `none` is the failed `FS_VERIFY` of `findIndirectEntriesBlock`. -/
def commitInodeToInode0 (ino0 : IndexBlock) (inoNum : Int) (inoLogAddr : HoleTree)
    (aborts : CommitAborts) : Option IndexBlock := do
  let inoOffset := calcOffsetFromInode inoNum
  let fileOffset ← findIndirectEntriesBlock inoOffset (-1)
  let indirect := ino0.blockAt (readIndirectPath inoOffset)
  -- `writeFileBlock` sets an entry
  let active := Function.update indirect (writeFileBlockIndex inoOffset fileOffset) inoLogAddr
  some (ino0.commitInode fileOffset active aborts)

/-! ## The search -/

/-- `findEmptyDirectEntry`: the entry and its offset. -/
def findEmptyDirectEntry (blockAddr : HoleTree) (offset entryPointerSize : Int) :
    Option (HoleTree × Int) :=
  if offset < fsMaxFilesize then do
    let i ← (List.range logAddressesPerBlock).find? fun i : Nat =>
      (blockAddr.block (.entry i)).isFree
    let offset := offset + i * entryPointerSize
    if offset < fsMaxFilesize ∧ 0 < offset then some (blockAddr.block (.entry i), offset) else none
  else none

/-- The search under the indirect entry, and under one that a block further up has. -/
def findUnderIndirect (indirect : HoleTree) (offset : Int) : Option Int := do
  let (_, offset) ← findEmptyDirectEntry indirect offset fsBlockSize
  some offset

/-- The search under the double entry, and under one that the triple block has.  `none` is also
`FS_ERROR_NON_EXISTING_HOLE`. -/
def findUnderDouble (double : HoleTree) (offset : Int) : Option Int := do
  let (indirect, offset) ← findEmptyDirectEntry double offset inodeIndirectDataSize
  if indirect.isFree then findUnderIndirect indirect offset else none

/-- The search under the triple entry. -/
def findUnderTriple (triple : HoleTree) (offset : Int) : Option Int := do
  let (double, offset) ← findEmptyDirectEntry triple offset inodeDoubleDataSize
  if double.isFree then findUnderDouble double offset else none

/-- `findEmptySparseBlock` of inode 0. -/
def findEmptySparseBlock (ino0 : IndexBlock) : Option Int :=
  match (List.range directIndexEntries).find? fun i : Nat => (ino0 (.direct i)).isFree with
  | some i => some (inodeFileDataSize + i * fsBlockSize)
  | none =>
    let offset := inodeFileDataSize + inodeDirectDataSize
    if (ino0 .indirect).isFree then findUnderIndirect (ino0 .indirect) offset
    else
      let offset := offset + inodeIndirectDataSize
      if (ino0 .double).isFree then findUnderDouble (ino0 .double) offset
      else
        let offset := offset + inodeDoubleDataSize
        if (ino0 .triple).isFree then findUnderTriple (ino0 .triple) offset else none

/-! ## Runs -/

/-- Inode 0 as `handleNoFs` writes it, with the root directory. -/
def format : IndexBlock := fun i => if i = .direct 0 then .inode false else .missing true

/-- What `createNewFile` makes of inode 0: the new inode, then the directory's. -/
def createNewFile (ino0 : IndexBlock) (dirNum : Int) (aborts abortsDir : CommitAborts) :
    Option IndexBlock := do
  let offset ← ino0.findEmptySparseBlock
  let ino0 ← ino0.commitInodeToInode0 (calcInInodes offset) (.inode false) aborts
  ino0.commitInodeToInode0 dirNum (.inode false) abortsDir

/-- What `removeFile` makes of inode 0: an empty address for the file, then the directory's
inode.  The transaction is one that may always write, and aborts no other. -/
def removeFile (ino0 : IndexBlock) (inoNum dirNum : Int) : Option IndexBlock := do
  let ino0 ← ino0.commitInodeToInode0 inoNum (.missing true) .none
  ino0.commitInodeToInode0 dirNum (.inode false) .none

end IndexBlock

/-- How a call ends that has written its blocks of inode 0: it fails before their inode 0 is that
of the file system, it fails after that and before its transaction is initialized, so that its
pages are marked as obsolete, at once or when the transaction is aborted for another, or it goes
on from there. -/
inductive CommitEnd
  | failsBefore
  | failsAfter
  | commits

/-- The calls that change inode 0, and the writes of others to pages that are obsolete.  Those that
write files are told which transactions are aborted in them. -/
inductive Ino0Call
  | createNewFile (dirNum : Int) (aborts abortsDir : CommitAborts) (ending : CommitEnd)
  | removeFile (inoNum dirNum : Int) (ending : CommitEnd)
  | commitTransaction (inoNum : Int) (aborts : CommitAborts) (ending : CommitEnd)
  | reclaim (words : IndexBlock)

/-- Inode 0 of the file system, as it reads, and whether pages of its tree are obsolete. -/
structure Ino0State where
  ino0 : IndexBlock
  obsolete : Bool

/-- The end of a call that has made `ino0` of inode 0, if it came to that. -/
def Ino0State.finish (s : Ino0State) : Option IndexBlock → CommitEnd → Ino0State
  | some ino0, .failsAfter => ⟨ino0, true⟩
  | some ino0, .commits => { s with ino0 := ino0 }
  | _, _ => s

namespace Ino0Call

/-- One call.  Pages that are not obsolete stay when segments are reclaimed. -/
def step (s : Ino0State) : Ino0Call → Ino0State
  | createNewFile dirNum aborts abortsDir ending =>
    s.finish (s.ino0.createNewFile dirNum aborts abortsDir) ending
  | removeFile inoNum dirNum ending => s.finish (s.ino0.removeFile inoNum dirNum) ending
  | commitTransaction inoNum aborts ending =>
    s.finish (s.ino0.commitInodeToInode0 inoNum (.inode false) aborts) ending
  | reclaim words => if s.obsolete then { s with ino0 := words } else s

/-- No transaction that has written a page of VOTS is aborted while inode 0 or an index block of it
is in `fs_buffer`, and the call does not fail between the change of inode 0 and the end of its
transaction. -/
def Keeps : Ino0Call → Prop
  | createNewFile _ aborts abortsDir ending =>
    aborts.NoVots ∧ abortsDir.NoVots ∧ ending ≠ .failsAfter
  | removeFile _ _ ending => ending ≠ .failsAfter
  | commitTransaction _ aborts ending => aborts.NoVots ∧ ending ≠ .failsAfter
  | reclaim _ => True

/-- What a run of calls leaves. -/
def run (calls : List Ino0Call) (s : Ino0State) : Ino0State := calls.foldl step s

end Ino0Call

/-- The file system that `handleNoFs` makes. -/
def Ino0State.format : Ino0State := ⟨IndexBlock.format, false⟩

/-! ## What the flags say -/

/-- An entry with `h` levels of index blocks under it leads to a free inode number or to a missing
block. -/
def HoleTree.HasHole : Nat → HoleTree → Prop
  | 0, t => t.isMissing = true
  | h + 1, t => t.isMissing = true ∨
    ∃ i < logAddressesPerBlock, HasHole h (t.block (.entry (i : Nat)))

/-- The flag of an entry, and those of all entries below it, say whether it has a hole. -/
def HoleTree.FlagsRight : Nat → HoleTree → Prop
  | 0, t => t.isFree = true ↔ t.HasHole 0
  | h + 1, t => (t.isFree = true ↔ t.HasHole (h + 1)) ∧
    ∀ i < logAddressesPerBlock, FlagsRight h (t.block (.entry (i : Nat)))

/-- All flags in inode 0 and in the index blocks under it are right. -/
structure IndexBlock.FlagsRight (ino0 : IndexBlock) : Prop where
  direct : ∀ n < directIndexEntries, (ino0 (.direct (n : Nat))).FlagsRight 0
  indirect : (ino0 .indirect).FlagsRight 1
  double : (ino0 .double).FlagsRight 2
  triple : (ino0 .triple).FlagsRight 3

/-- The entry at the end of a path. -/
def IndexBlock.entryAt (entries : IndexBlock) (path : TreePath) : HoleTree :=
  match path.getLast? with
  | none => .missing true
  | some i => entries.blockAt path.dropLast i

/-- The address of a file's inode, where it is read. -/
def IndexBlock.inodeEntry (ino0 : IndexBlock) (inoNum : Int) : HoleTree :=
  ino0.entryAt (readFileBlockPath (calcOffsetFromInode inoNum))

end Defs

section Holes
variable [FsConfig]

/-- How many inodes the tree has room for. -/
def inodeSlots : Nat :=
  firstTriple + logAddressesPerBlock * (logAddressesPerBlock * logAddressesPerBlock)

/-- The flags find free inode numbers: all are right, the offset that is found is the lowest free
one, and the number that a new file gets is no other file's. -/
structure IndexBlock.HolesFound (ino0 : IndexBlock) : Prop where
  flags : ino0.FlagsRight
  lowest : ∀ offset, ino0.findEmptySparseBlock = some offset ↔
    offset < fsMaxFilesize ∧ ∃ n : Nat, offset = blockOffset n ∧
      IsLeast {n : Nat | n < inodeSlots ∧ (ino0.inodeEntry (n + 1)).isMissing = true} n
  unused : ∀ offset, ino0.findEmptySparseBlock = some offset →
    (ino0.inodeEntry (calcInInodes offset)).isMissing = true

/-! ## Right flags -/

namespace HoleTree
variable {t : HoleTree} {h : Nat}

omit [FsConfig] in
theorem block_of_isMissing (ht : t.isMissing = true) (i : TreeIndex) :
    t.block i = missing true := by
  cases t with
  | missing free => rfl
  | inode free => cases ht
  | index free entries => cases ht

theorem FlagsRight.isFree_iff (ht : t.FlagsRight h) : t.isFree = true ↔ t.HasHole h := by
  cases h with
  | zero => exact ht
  | succ h => exact ht.1

theorem hasHole_of_isMissing (ht : t.isMissing = true) : t.HasHole h := by
  cases h with
  | zero => exact ht
  | succ h => exact .inl ht

theorem flagsRight_missing : ∀ h, (missing true).FlagsRight h
  | 0 => iff_of_true rfl rfl
  | h + 1 => ⟨iff_of_true rfl (.inl rfl), fun _ _ => flagsRight_missing h⟩

theorem flagsRight_inode : (inode false).FlagsRight 0 :=
  iff_of_false Bool.false_ne_true Bool.false_ne_true

end HoleTree

namespace IndexBlock
variable {entries ino0 : IndexBlock} {h : Nat}

/-- The flags of an index block whose entries have `h` levels of index blocks under them. -/
def EntriesRight (h : Nat) (entries : IndexBlock) : Prop :=
  ∀ i < logAddressesPerBlock, (entries (.entry (i : Nat))).FlagsRight h

theorem EntriesRight.hasHole_iff (hes : entries.EntriesRight h) :
    (∃ i < logAddressesPerBlock, (entries (.entry (i : Nat))).HasHole h) ↔
      ((List.range logAddressesPerBlock).map fun i : Nat => entries (.entry i)).any (·.isFree)
        = true := by
  rw [List.any_map, List.any_eq_true]
  constructor
  · rintro ⟨i, hi, hhole⟩
    exact ⟨i, List.mem_range.mpr hi, (hes i hi).isFree_iff.mpr hhole⟩
  · rintro ⟨i, hi, hfree⟩
    exact ⟨i, List.mem_range.mp hi, (hes i (List.mem_range.mp hi)).isFree_iff.mp hfree⟩

/-- The flag that an index block gets when it is written is right. -/
theorem EntriesRight.allocAndWrite (hes : entries.EntriesRight h) :
    entries.allocAndWrite.FlagsRight (h + 1) := by
  have hiff := hes.hasHole_iff
  unfold IndexBlock.allocAndWrite
  dsimp only
  split_ifs with hall
  · -- all entries are missing, so the first one is a hole
    have hpos := logAddressesPerBlock_pos
    have hfirst : (entries (.entry (0 : Nat))).isMissing = true := by
      rw [List.all_map, List.all_eq_true] at hall
      exact hall 0 (List.mem_range.mpr hpos)
    have hfree := hiff.mp ⟨0, hpos, HoleTree.hasHole_of_isMissing hfirst⟩
    rw [hfree]
    exact HoleTree.flagsRight_missing (h + 1)
  · refine ⟨?_, hes⟩
    refine hiff.symm.trans ⟨.inr, ?_⟩
    rintro (hmissing | hhole)
    · cases hmissing
    · exact hhole

theorem entriesRight_block {t : HoleTree} (ht : t.FlagsRight (h + 1)) : t.block.EntriesRight h :=
  ht.2

theorem EntriesRight.update (hes : entries.EntriesRight h) {i : TreeIndex} {t : HoleTree}
    (ht : (∃ j < logAddressesPerBlock, i = .entry (j : Nat)) → t.FlagsRight h) :
    EntriesRight h (Function.update entries i t) := by
  intro j hj
  rcases eq_or_ne (.entry (j : Nat)) i with rfl | hne
  · rw [Function.update_self]
    exact ht ⟨j, hj, rfl⟩
  · rw [Function.update_of_ne hne]
    exact hes j hj

omit [FsConfig] in
theorem noVots_levels {aborts : CommitAborts} (h : aborts.NoVots) :
    ∀ level ∈ aborts.levels, level.1.NoVots ∧ level.2.NoVots := by
  intro level hlevel
  rcases List.mem_cons.mp hlevel with rfl | hlevel
  · exact ⟨Aborts.noVots_nil, h.ino0⟩
  rcases List.mem_cons.mp hlevel with rfl | hlevel
  · exact ⟨h.votes, h.first⟩
  · rw [List.mem_singleton.mp hlevel]
    exact ⟨Aborts.noVots_nil, h.second⟩

/-- Without votes the blocks of the path are written with the new addresses in them. -/
theorem commitPath_of_noVots {path : TreePath} {active : IndexBlock}
    {levels : List (Aborts IndexBlock × Aborts IndexBlock)}
    (h : ∀ level ∈ levels, level.1.NoVots ∧ level.2.NoVots) :
    entries.commitPath path active levels = entries.commitPath path active [] := by
  induction path generalizing entries levels with
  | nil => rfl
  | cons i path ih =>
    have hlevel : (levels.headD ([], [])).1.NoVots ∧ (levels.headD ([], [])).2.NoVots := by
      cases levels with
      | nil => exact ⟨Aborts.noVots_nil, Aborts.noVots_nil⟩
      | cons level levels => exact h level List.mem_cons_self
    rw [commitPath, Aborts.leaves_of_noVots hlevel.2, Aborts.leaves_of_noVots hlevel.1,
      ih fun level hl => h level (List.mem_of_mem_tail hl)]
    rfl

/-- What `commitInode` writes after an entry of the active index block was set. -/
theorem EntriesRight.commitPath (path : TreePath) {i : TreeIndex} {t : HoleTree}
    (hes : entries.EntriesRight path.length) (ht : t.FlagsRight 0) :
    (entries.commitPath path (Function.update (entries.blockAt path) i t) []).EntriesRight
      path.length := by
  induction path generalizing entries with
  | nil => exact hes.update fun _ => ht
  | cons j path ih =>
    refine hes.update ?_
    rintro ⟨k, hk, rfl⟩
    exact (ih (entriesRight_block (hes k hk))).allocAndWrite

/-- An entry of inode 0 and the index blocks under it are written with right flags. -/
theorem FlagsRight.commitPath (hf : ino0.FlagsRight) {g : Nat} {i : TreeIndex} {t : HoleTree}
    (ht : t.FlagsRight 0) :
    FlagsRight (ino0.commitPath (indirectPath g)
      (Function.update (ino0.blockAt (indirectPath g)) i t) []) := by
  unfold indirectPath
  dsimp only
  split_ifs
  · have hblock := entriesRight_block hf.indirect
    exact ⟨hf.direct, (EntriesRight.commitPath [] hblock ht).allocAndWrite, hf.double,
      hf.triple⟩
  · have hblock := entriesRight_block hf.double
    exact ⟨hf.direct, hf.indirect,
      (EntriesRight.commitPath [_] hblock ht).allocAndWrite, hf.triple⟩
  · have hblock := entriesRight_block hf.triple
    exact ⟨hf.direct, hf.indirect, hf.double,
      (EntriesRight.commitPath [_, _] hblock ht).allocAndWrite⟩

/-- An entry of inode 0 itself is set. -/
theorem FlagsRight.update (hf : ino0.FlagsRight) {i : TreeIndex} {t : HoleTree}
    (ht : t.FlagsRight 0) (hi : i = .data ∨ ∃ num, i = .direct num) :
    FlagsRight (Function.update ino0 i t) := by
  rcases hi with rfl | ⟨num, rfl⟩
  · exact ⟨hf.direct, hf.indirect, hf.double, hf.triple⟩
  · refine ⟨fun n hn => ?_, hf.indirect, hf.double, hf.triple⟩
    rcases eq_or_ne (.direct (n : Nat)) (TreeIndex.direct num) with heq | hne
    · rw [heq, Function.update_self]
      exact ht
    · rw [Function.update_of_ne hne]
      exact hf.direct n hn

/-- A transaction that has no index block reads the one that an offset lies under. -/
theorem findIndirectEntriesBlock_empty {offset fileOffset : Int}
    (hfind : findIndirectEntriesBlock offset (-1) = some fileOffset) :
    fileOffset = calcIndirectBlockOffset offset := by
  have hout : isOffsetInIndirect offset (-1) = false := if_pos (by decide)
  unfold findIndirectEntriesBlock at hfind
  rw [hout, if_neg Bool.false_ne_true] at hfind
  split_ifs at hfind
  exact (Option.some.inj hfind).symm

theorem FlagsRight.commitInodeToInode0 (hf : ino0.FlagsRight) {ino0' : IndexBlock} {inoNum : Int}
    {t : HoleTree} (ht : t.FlagsRight 0) {aborts : CommitAborts} (haborts : aborts.NoVots)
    (hcommit : ino0.commitInodeToInode0 inoNum t aborts = some ino0') : ino0'.FlagsRight := by
  obtain ⟨fileOffset, hfind, hcommit⟩ := Option.bind_eq_some_iff.mp hcommit
  obtain rfl := Option.some.inj hcommit
  obtain rfl := findIndirectEntriesBlock_empty hfind
  rcases lt_or_ge (calcOffsetFromInode inoNum) indirectDataOffset with hlt | hge
  · have hzero : calcIndirectBlockOffset (calcOffsetFromInode inoNum) = 0 := if_pos hlt
    have hread : readIndirectPath (calcOffsetFromInode inoNum) = [] := if_pos hlt
    rw [hzero, commitInode, if_pos rfl, hread]
    refine hf.update ht ?_
    unfold writeFileBlockIndex
    rw [if_pos rfl]
    split_ifs
    · exact .inl rfl
    · exact .inr ⟨_, rfl⟩
  · obtain ⟨g, i, p, hi, hp, hoff⟩ := exists_indirectOffset hge
    have hdata := inodeFileDataSize_pos
    have hlt := inodeFileDataSize_lt
    have hfirst := indirectOffset_ge g 0 0
    have hpath : commitInodePath (indirectOffset g 0 0) = indirectPath g := by
      rw [commitInodePath_eq hfirst, readIndirectPath_eq logAddressesPerBlock_pos pageSize_pos]
    rw [hoff, calcIndirectBlockOffset_eq hi hp, commitInode, if_neg (by omega), hpath,
      readIndirectPath_eq hi hp, commitPath_of_noVots (noVots_levels haborts)]
    exact hf.commitPath ht

theorem flagsRight_format : format.FlagsRight := by
  refine ⟨fun n hn => ?_, HoleTree.flagsRight_missing 1, HoleTree.flagsRight_missing 2,
    HoleTree.flagsRight_missing 3⟩
  unfold format
  split_ifs
  · exact HoleTree.flagsRight_inode
  · exact HoleTree.flagsRight_missing 0

theorem FlagsRight.createNewFile (hf : ino0.FlagsRight) {ino0' : IndexBlock} {dirNum : Int}
    {aborts abortsDir : CommitAborts} (haborts : aborts.NoVots) (hdirAborts : abortsDir.NoVots)
    (hrun : ino0.createNewFile dirNum aborts abortsDir = some ino0') : ino0'.FlagsRight := by
  obtain ⟨offset, -, hrun⟩ := Option.bind_eq_some_iff.mp hrun
  obtain ⟨ino0₁, hfile, hdir⟩ := Option.bind_eq_some_iff.mp hrun
  have hfile := hf.commitInodeToInode0 HoleTree.flagsRight_inode haborts hfile
  exact hfile.commitInodeToInode0 HoleTree.flagsRight_inode hdirAborts hdir

omit [FsConfig] in
theorem noVots_none : CommitAborts.none.NoVots :=
  ⟨Aborts.noVots_nil, Aborts.noVots_nil, Aborts.noVots_nil, Aborts.noVots_nil⟩

theorem FlagsRight.removeFile (hf : ino0.FlagsRight) {ino0' : IndexBlock} {inoNum dirNum : Int}
    (hrun : ino0.removeFile inoNum dirNum = some ino0') : ino0'.FlagsRight := by
  obtain ⟨ino0₁, hfile, hdir⟩ := Option.bind_eq_some_iff.mp hrun
  have hfile := hf.commitInodeToInode0 (HoleTree.flagsRight_missing 0) noVots_none hfile
  exact hfile.commitInodeToInode0 HoleTree.flagsRight_inode noVots_none hdir

end IndexBlock

/-- What holds in every run that meets the condition: the flags are right, and no page of the tree
is obsolete. -/
structure Ino0State.Right (s : Ino0State) : Prop where
  flags : s.ino0.FlagsRight
  live : s.obsolete = false

namespace Ino0State.Right
variable {s : Ino0State}

theorem finish (h : s.Right) {r : Option IndexBlock} {ending : CommitEnd}
    (hending : ending ≠ .failsAfter) (hr : ∀ ino0, r = some ino0 → ino0.FlagsRight) :
    (s.finish r ending).Right := by
  cases r with
  | none => exact h
  | some ino0 =>
    cases ending with
    | failsBefore => exact h
    | failsAfter => exact absurd rfl hending
    | commits => exact ⟨hr ino0 rfl, h.live⟩

/-- A call that meets the condition keeps the flags right. -/
theorem step (h : s.Right) {call : Ino0Call} (hkeeps : call.Keeps) : (call.step s).Right := by
  cases call with
  | createNewFile dirNum aborts abortsDir ending =>
    obtain ⟨haborts, hdirAborts, hending⟩ := hkeeps
    exact h.finish hending fun _ hrun => h.flags.createNewFile haborts hdirAborts hrun
  | removeFile inoNum dirNum ending =>
    exact h.finish hkeeps fun _ hrun => h.flags.removeFile hrun
  | commitTransaction inoNum aborts ending =>
    obtain ⟨haborts, hending⟩ := hkeeps
    exact h.finish hending fun _ hrun =>
      h.flags.commitInodeToInode0 HoleTree.flagsRight_inode haborts hrun
  | reclaim words =>
    rw [Ino0Call.step, h.live, if_neg Bool.false_ne_true]
    exact h

theorem run {calls : List Ino0Call} (h : s.Right) (hkeeps : ∀ call ∈ calls, call.Keeps) :
    (Ino0Call.run calls s).Right := by
  induction calls generalizing s with
  | nil => exact h
  | cons call calls ih =>
    obtain ⟨hcall, hcalls⟩ := List.forall_mem_cons.mp hkeeps
    exact ih (h.step hcall) hcalls

end Ino0State.Right

theorem Ino0State.right_format : Ino0State.format.Right := ⟨IndexBlock.flagsRight_format, rfl⟩

/-! ## Inode numbers under an entry -/

namespace HoleTree
variable {t : HoleTree} {h k : Nat}

/-- The `k`-th of the entries for inodes under an entry with `h` levels of index blocks. -/
def slot : Nat → HoleTree → Nat → HoleTree
  | 0, t, _ => t
  | h + 1, t, k => slot h (t.block (.entry (k / logAddressesPerBlock ^ h : Nat)))
    (k % logAddressesPerBlock ^ h)

/-- Those of them that are free. -/
def freeSlots (h : Nat) (t : HoleTree) : Set Nat :=
  {k | k < logAddressesPerBlock ^ h ∧ (slot h t k).isMissing = true}

theorem slotsUnder_pos (h : Nat) : 0 < logAddressesPerBlock ^ h :=
  Nat.pow_pos logAddressesPerBlock_pos

theorem isMissing_slot (ht : t.isMissing = true) : (slot h t k).isMissing = true := by
  induction h generalizing t k with
  | zero => exact ht
  | succ h ih =>
    rw [slot, block_of_isMissing ht]
    exact ih rfl

/-- The entries under entry `i` of a block follow those under the ones before it. -/
theorem slot_succ {i : Nat} (hk : k < logAddressesPerBlock ^ h) :
    slot (h + 1) t (i * logAddressesPerBlock ^ h + k)
      = slot h (t.block (.entry (i : Nat))) k := by
  obtain ⟨hdiv, hmod⟩ := div_mod_at (i := i) hk
  rw [slot, hdiv, hmod]

theorem mem_freeSlots_succ {i : Nat} (hi : i < logAddressesPerBlock)
    (hk : k < logAddressesPerBlock ^ h) :
    i * logAddressesPerBlock ^ h + k ∈ freeSlots (h + 1) t ↔
      k ∈ freeSlots h (t.block (.entry (i : Nat))) := by
  have hlt : i * logAddressesPerBlock ^ h + k < logAddressesPerBlock ^ (h + 1) := by
    calc
      i * logAddressesPerBlock ^ h + k
        < i * logAddressesPerBlock ^ h + logAddressesPerBlock ^ h := Nat.add_lt_add_left hk _
      _ = (i + 1) * logAddressesPerBlock ^ h := (Nat.succ_mul ..).symm
      _ ≤ logAddressesPerBlock * logAddressesPerBlock ^ h := Nat.mul_le_mul_right _ hi
      _ = logAddressesPerBlock ^ (h + 1) := (Nat.pow_succ' ..).symm
  constructor
  · rintro ⟨-, hmissing⟩
    rw [slot_succ hk] at hmissing
    exact ⟨hk, hmissing⟩
  · rintro ⟨-, hmissing⟩
    exact ⟨hlt, by rwa [slot_succ hk]⟩

theorem exists_slot (hk : k < logAddressesPerBlock ^ (h + 1)) : ∃ i k',
    i < logAddressesPerBlock ∧ k' < logAddressesPerBlock ^ h ∧
      k = i * logAddressesPerBlock ^ h + k' := by
  rw [Nat.pow_succ'] at hk
  exact ⟨k / logAddressesPerBlock ^ h, k % logAddressesPerBlock ^ h,
    Nat.div_lt_of_lt_mul (by rwa [Nat.mul_comm]), Nat.mod_lt _ (slotsUnder_pos h),
    (Nat.div_add_mod' _ _).symm⟩

/-- An entry has a hole just if an inode number under it is free. -/
theorem hasHole_iff : t.HasHole h ↔ (freeSlots h t).Nonempty := by
  induction h generalizing t with
  | zero => exact ⟨fun ht => ⟨0, Nat.one_pos, ht⟩, fun ⟨_, _, ht⟩ => ht⟩
  | succ h ih =>
    constructor
    · rintro (hmissing | ⟨i, hi, hhole⟩)
      · exact ⟨0, slotsUnder_pos _, isMissing_slot hmissing⟩
      · obtain ⟨k, hk⟩ := ih.mp hhole
        exact ⟨_, (mem_freeSlots_succ hi hk.1).mpr hk⟩
    · rintro ⟨k, hk⟩
      obtain ⟨i, k', hi, hk', rfl⟩ := exists_slot hk.1
      exact .inr ⟨i, hi, ih.mpr ⟨k', (mem_freeSlots_succ hi hk').mp hk⟩⟩

theorem FlagsRight.isFree_iff_freeSlots (ht : t.FlagsRight h) :
    t.isFree = true ↔ (freeSlots h t).Nonempty :=
  ht.isFree_iff.trans hasHole_iff

/-- The first free inode number under a block is the first one under its first free entry. -/
theorem isLeast_freeSlots_succ (ht : t.FlagsRight (h + 1)) {i : Nat}
    (hi : i < logAddressesPerBlock) (hfree : (t.block (.entry (i : Nat))).isFree = true)
    (hfirst : ∀ j < i, (t.block (.entry (j : Nat))).isFree = false) :
    IsLeast (freeSlots (h + 1) t) k ↔ ∃ k', k = i * logAddressesPerBlock ^ h + k' ∧
      IsLeast (freeSlots h (t.block (.entry (i : Nat)))) k' := by
  constructor
  · rintro ⟨hmem, hleast⟩
    obtain ⟨j, k', hj, hk', rfl⟩ := exists_slot hmem.1
    have hmem' := (mem_freeSlots_succ hj hk').mp hmem
    obtain ⟨m, hm⟩ := (ht.2 i hi).isFree_iff_freeSlots.mp hfree
    have hle := hleast ((mem_freeSlots_succ hi hm.1).mpr hm)
    have hij : ¬j < i := fun hlt => by
      have := (ht.2 j hj).isFree_iff_freeSlots.mpr ⟨k', hmem'⟩
      rw [hfirst j hlt] at this
      cases this
    have hji : ¬i < j := fun hlt => by
      have := Nat.mul_le_mul_right (logAddressesPerBlock ^ h) (Nat.succ_le_of_lt hlt)
      rw [Nat.succ_mul] at this
      have := hm.1
      omega
    obtain rfl : j = i := by omega
    refine ⟨k', rfl, hmem', fun n hn => ?_⟩
    have := hleast ((mem_freeSlots_succ hj hn.1).mpr hn)
    omega
  · rintro ⟨k', rfl, hmem, hleast⟩
    refine ⟨(mem_freeSlots_succ hi hmem.1).mpr hmem, fun n hn => ?_⟩
    obtain ⟨j, m, hj, hm, rfl⟩ := exists_slot hn.1
    have hn' := (mem_freeSlots_succ hj hm).mp hn
    rcases Nat.lt_trichotomy j i with hlt | rfl | hgt
    · have := (ht.2 j hj).isFree_iff_freeSlots.mpr ⟨m, hn'⟩
      rw [hfirst j hlt] at this
      cases this
    · exact Nat.add_le_add_left (hleast hn') _
    · have := Nat.mul_le_mul_right (logAddressesPerBlock ^ h) (Nat.succ_le_of_lt hgt)
      rw [Nat.succ_mul] at this
      have := hmem.1
      omega

end HoleTree

/-! ## The search -/

namespace IndexBlock
variable {h : Nat}

/-- A search from an entry whose first inode number is `a` finds the first free one under it. -/
def FindsFirst (h : Nat) (find : HoleTree → Int → Option Int) (t : HoleTree) (a : Nat) : Prop :=
  ∀ offset, find t (blockOffset a) = some offset ↔
    offset < fsMaxFilesize ∧ ∃ k, offset = blockOffset (a + k) ∧ IsLeast (t.freeSlots h) k

theorem blockOffset_pos (n : Nat) : 0 < blockOffset n :=
  Int.lt_of_lt_of_le inodeFileDataSize_pos (inodeFileDataSize_le_blockOffset n)

/-- A search goes on from the first free entry of a block. -/
theorem findsFirst_succ {find : HoleTree → Int → Option Int}
    (hfind : ∀ t a, t.FlagsRight h → t.isFree = true → blockOffset a < fsMaxFilesize →
      FindsFirst h find t a) {t : HoleTree} (ht : t.FlagsRight (h + 1)) (hfree : t.isFree = true)
    (a : Nat) {size : Int} (hsize : size = (logAddressesPerBlock ^ h : Nat) * fsBlockSize) :
    FindsFirst (h + 1) (fun t offset => do
      let (t, offset) ← findEmptyDirectEntry t offset size
      if t.isFree then find t offset else none) t a := by
  intro offset
  dsimp only
  obtain ⟨k, hk⟩ := ht.isFree_iff_freeSlots.mp hfree
  obtain ⟨j, m, hj, hm, rfl⟩ := HoleTree.exists_slot hk.1
  have hjfree := (ht.2 j hj).isFree_iff_freeSlots.mpr ⟨m, (HoleTree.mem_freeSlots_succ hj hm).mp hk⟩
  -- the entry that the loop stops at
  obtain ⟨i, hi⟩ : ∃ i, (List.range logAddressesPerBlock).find?
      (fun i : Nat => (t.block (.entry i)).isFree) = some i := by
    cases hloop : (List.range logAddressesPerBlock).find?
        (fun i : Nat => (t.block (.entry i)).isFree) with
    | some i => exact ⟨i, rfl⟩
    | none => exact absurd hjfree (List.find?_eq_none.mp hloop j (List.mem_range.mpr hj))
  obtain ⟨hifree, hilt, hfirst⟩ := List.find?_range_eq_some.mp hi
  have hilt := List.mem_range.mp hilt
  have hleast := fun k => HoleTree.isLeast_freeSlots_succ (k := k) ht hilt hifree
    fun j hj => by simpa using hfirst j hj
  have hstart : blockOffset a + i * size
      = blockOffset (a + i * logAddressesPerBlock ^ h) := by
    rw [blockOffset_add, hsize, Nat.cast_mul, mul_assoc]
  have hpos := blockOffset_pos (a + i * logAddressesPerBlock ^ h)
  have hafter : ∀ k', blockOffset (a + i * logAddressesPerBlock ^ h)
      ≤ blockOffset (a + (i * logAddressesPerBlock ^ h + k')) := fun k' =>
    blockOffset_le_iff.mpr (by omega)
  have hbefore : blockOffset a ≤ blockOffset (a + i * logAddressesPerBlock ^ h) :=
    blockOffset_le_iff.mpr (Nat.le_add_right ..)
  unfold findEmptyDirectEntry
  by_cases hmax : blockOffset (a + i * logAddressesPerBlock ^ h) < fsMaxFilesize
  · rw [if_pos (Int.lt_of_le_of_lt hbefore hmax), hi]
    simp only [Option.bind_eq_bind, Option.bind_some, hstart]
    rw [if_pos ⟨hmax, hpos⟩, Option.bind_some]
    dsimp only
    rw [if_pos hifree, hfind _ _ (ht.2 i hilt) hifree hmax offset]
    refine and_congr_right fun _ => ?_
    constructor
    · rintro ⟨k', rfl, hk'⟩
      exact ⟨_, by rw [Nat.add_assoc], (hleast _).mpr ⟨k', rfl, hk'⟩⟩
    · rintro ⟨k, rfl, hk⟩
      obtain ⟨k', rfl, hk'⟩ := (hleast k).mp hk
      exact ⟨k', by rw [Nat.add_assoc], hk'⟩
  · refine iff_of_false ?_ ?_
    · split_ifs
      · simp only [hi, Option.bind_eq_bind, Option.bind_some, hstart]
        rw [if_neg fun hand => hmax hand.1]
        exact Option.some_ne_none offset ∘ Eq.symm
      · exact Option.some_ne_none offset ∘ Eq.symm
    · rintro ⟨hlt, k, rfl, hk⟩
      obtain ⟨k', rfl, hk'⟩ := (hleast k).mp hk
      exact hmax (Int.lt_of_le_of_lt (hafter k') hlt)

omit [FsConfig] in
theorem isFree_of_findEmptyDirectEntry [Config] {t t' : HoleTree} {offset offset' size : Int}
    (h : findEmptyDirectEntry t offset size = some (t', offset')) : t'.isFree = true := by
  unfold findEmptyDirectEntry at h
  split_ifs at h
  obtain ⟨i, hi, h⟩ := Option.bind_eq_some_iff.mp h
  dsimp only at h
  split_ifs at h
  obtain ⟨rfl, -⟩ := Prod.mk.inj (Option.some.inj h)
  have hfree := List.find?_some hi
  exact hfree

theorem findsFirst_entry {t : HoleTree} (ht : t.FlagsRight 0) (hfree : t.isFree = true) {a : Nat}
    (hmax : blockOffset a < fsMaxFilesize) : FindsFirst 0 (fun _ offset => some offset) t a := by
  intro offset
  have hleast : IsLeast (t.freeSlots 0) 0 := ⟨⟨Nat.one_pos, ht.mp hfree⟩, fun _ _ => Nat.zero_le _⟩
  constructor
  · rintro h
    obtain rfl := Option.some.inj h
    exact ⟨hmax, 0, rfl, hleast⟩
  · rintro ⟨-, k, rfl, hk⟩
    rw [hk.unique hleast, Nat.add_zero]

theorem findsFirst_indirect {t : HoleTree} (ht : t.FlagsRight 1) (hfree : t.isFree = true)
    (a : Nat) :
    FindsFirst 1 findUnderIndirect t a := by
  have hsize : fsBlockSize = (logAddressesPerBlock ^ 0 : Nat) * fsBlockSize := by
    rw [Nat.pow_zero, Nat.cast_one, one_mul]
  have hstep := findsFirst_succ (fun _ _ ht hfree hmax => findsFirst_entry ht hfree hmax) ht hfree a
    hsize
  intro offset
  refine Iff.trans (Eq.congr_left ?_) (hstep offset)
  unfold findUnderIndirect
  dsimp only
  cases hfound : findEmptyDirectEntry t (blockOffset a) fsBlockSize with
  | none => rfl
  | some found => exact (if_pos (isFree_of_findEmptyDirectEntry hfound)).symm

theorem findsFirst_double {t : HoleTree} (ht : t.FlagsRight 2) (hfree : t.isFree = true) (a : Nat) :
    FindsFirst 2 findUnderDouble t a :=
  findsFirst_succ (fun _ a ht hfree _ => findsFirst_indirect ht hfree a) ht hfree a
    (by rw [Nat.pow_one, inodeIndirectDataSize_eq])

theorem findsFirst_triple {t : HoleTree} (ht : t.FlagsRight 3) (hfree : t.isFree = true) (a : Nat) :
    FindsFirst 3 findUnderTriple t a :=
  findsFirst_succ (fun _ a ht hfree _ => findsFirst_double ht hfree a) ht hfree a
    (by rw [Nat.pow_two, inodeDoubleDataSize_eq])

/-! ## Inode numbers in the tree -/

section Numbers
variable {ino0 : IndexBlock}

theorem calcOffsetFromInode_eq (n : Nat) : calcOffsetFromInode (n + 1) = blockOffset n := by
  rw [calcOffsetFromInode, blockOffset, Int.add_sub_cancel, Int.add_comm]

theorem calcInInodes_eq (n : Nat) : calcInInodes (blockOffset n) = n + 1 := by
  rw [calcInInodes, calcInBlocks_blockOffset]

omit [FsConfig] in
theorem entryAt_append [Config] (entries : IndexBlock) (path : TreePath) (i : TreeIndex) :
    entries.entryAt (path ++ [i]) = entries.blockAt path i := by
  rw [entryAt, List.getLast?_append, List.dropLast_concat]
  rfl

variable (ino0) in
theorem inodeEntry_direct {n : Nat} (hn : n < directIndexEntries) :
    ino0.inodeEntry (n + 1) = ino0 (.direct n) := by
  have hlt := (blockOffset_lt_iff (k := directIndexEntries) pageSize_pos).mpr hn
  rw [Nat.cast_zero, Int.add_zero, ← indirectDataOffset_eq] at hlt
  rw [inodeEntry, calcOffsetFromInode_eq,
    readFileBlockPath_direct (inodeFileDataSize_le_blockOffset n) hlt, calcInBlocks_blockOffset]
  rfl

variable (ino0) in
theorem inodeEntry_indirect (g : Nat) {i : Nat} (hi : i < logAddressesPerBlock) :
    ino0.inodeEntry ((directIndexEntries + (g * logAddressesPerBlock + i) : Nat) + 1)
      = ino0.blockAt (indirectPath g) (.entry i) := by
  have hoff : blockOffset (directIndexEntries + (g * logAddressesPerBlock + i))
      = indirectOffset g i 0 := by
    rw [indirectOffset, Nat.cast_zero, Int.add_zero]
  rw [inodeEntry, calcOffsetFromInode_eq, hoff, readFileBlockPath_indirect hi pageSize_pos,
    entryAt_append]

variable (ino0) in
/-- The inode numbers under the indirect, the double and the triple entry. -/
theorem inodeEntry_slot :
    (∀ k < logAddressesPerBlock ^ 1, ino0.inodeEntry ((directIndexEntries + k : Nat) + 1)
      = (ino0 .indirect).slot 1 k) ∧
    (∀ k < logAddressesPerBlock ^ 2, ino0.inodeEntry ((firstDouble + k : Nat) + 1)
      = (ino0 .double).slot 2 k) ∧
    ∀ k < logAddressesPerBlock ^ 3, ino0.inodeEntry ((firstTriple + k : Nat) + 1)
      = (ino0 .triple).slot 3 k := by
  have hl := logAddressesPerBlock_pos
  refine ⟨fun k hk => ?_, fun k hk => ?_, fun k hk => ?_⟩
  · rw [Nat.pow_one] at hk
    have hentry := inodeEntry_indirect ino0 0 hk
    rw [Nat.zero_mul, Nat.zero_add] at hentry
    rw [hentry, HoleTree.slot, Nat.pow_zero, Nat.div_one]
    rfl
  · have hmod := Nat.mod_lt k hl
    have hentry := inodeEntry_indirect ino0 (k / logAddressesPerBlock + 1) hmod
    rw [Nat.succ_mul, Nat.add_right_comm, Nat.div_add_mod', Nat.add_comm k,
      ← Nat.add_assoc, ← firstDouble] at hentry
    have hdiv : k / logAddressesPerBlock < logAddressesPerBlock :=
      Nat.div_lt_of_lt_mul (by rwa [Nat.pow_two] at hk)
    rw [hentry, indirectPath, if_neg (Nat.succ_ne_zero _), if_pos (Nat.succ_lt_succ hdiv),
      Nat.add_sub_cancel, HoleTree.slot, HoleTree.slot, Nat.pow_one, Nat.pow_zero, Nat.div_one]
    rfl
  · have hmod := Nat.mod_lt k hl
    have hentry := inodeEntry_indirect ino0
      (k / logAddressesPerBlock + (logAddressesPerBlock + 1)) hmod
    have hnum : directIndexEntries + ((k / logAddressesPerBlock + (logAddressesPerBlock + 1))
        * logAddressesPerBlock + k % logAddressesPerBlock) = firstTriple + k := by
      have hk := Nat.div_add_mod' k logAddressesPerBlock
      rw [firstTriple, firstDouble, Nat.add_mul, Nat.succ_mul]
      omega
    have hsub : k / logAddressesPerBlock + (logAddressesPerBlock + 1) - 1 - logAddressesPerBlock
        = k / logAddressesPerBlock := by
      rw [← Nat.add_assoc, Nat.add_sub_cancel, Nat.add_sub_cancel]
    rw [hnum] at hentry
    have hne : k / logAddressesPerBlock + (logAddressesPerBlock + 1) ≠ 0 := Nat.succ_ne_zero _
    rw [hentry, indirectPath, if_neg hne, if_neg (Nat.not_lt.mpr (Nat.le_add_left ..)), hsub,
      HoleTree.slot, HoleTree.slot, HoleTree.slot,
      Nat.pow_one, Nat.pow_zero, Nat.div_one, Nat.pow_two, Nat.mod_mul_right_mod,
      Nat.mod_mul_right_div_self, Nat.div_div_eq_div_mul]
    rfl

variable (ino0) in
/-- The free inode numbers of the tree, less one. -/
def freeNumbers : Set Nat := {n | n < inodeSlots ∧ (ino0.inodeEntry (n + 1)).isMissing = true}

/-- Where none of the numbers before an entry is free, the first free one is the first under it. -/
theorem isLeast_freeNumbers {h a n : Nat} {t : HoleTree}
    (hunder : ∀ k < logAddressesPerBlock ^ h, a + k ∈ ino0.freeNumbers ↔ k ∈ t.freeSlots h)
    (hbefore : ∀ n < a, n ∉ ino0.freeNumbers) (hfree : (t.freeSlots h).Nonempty) :
    IsLeast ino0.freeNumbers n ↔ ∃ k, n = a + k ∧ IsLeast (t.freeSlots h) k := by
  constructor
  · rintro ⟨hmem, hleast⟩
    obtain ⟨k, rfl⟩ := Nat.exists_eq_add_of_le (Nat.le_of_not_lt fun hlt => hbefore n hlt hmem)
    obtain ⟨m, hm⟩ := hfree
    have hle := hleast ((hunder m hm.1).mpr hm)
    have hk : k < logAddressesPerBlock ^ h := by
      have := hm.1
      omega
    refine ⟨k, rfl, (hunder k hk).mp hmem, fun j hj => ?_⟩
    have := hleast ((hunder j hj.1).mpr hj)
    omega
  · rintro ⟨k, rfl, hmem, hleast⟩
    refine ⟨(hunder k hmem.1).mpr hmem, fun n hn => ?_⟩
    obtain ⟨j, rfl⟩ := Nat.exists_eq_add_of_le (Nat.le_of_not_lt fun hlt => hbefore n hlt hn)
    by_cases hj : j < logAddressesPerBlock ^ h
    · exact Nat.add_le_add_left (hleast ((hunder j hj).mp hn)) _
    · have := hmem.1
      omega

theorem mem_freeNumbers_under {a h k : Nat} {t : HoleTree} (hk : k < logAddressesPerBlock ^ h)
    (hslot : ino0.inodeEntry ((a + k : Nat) + 1) = t.slot h k) (hlt : a + k < inodeSlots) :
    a + k ∈ ino0.freeNumbers ↔ k ∈ t.freeSlots h := by
  constructor
  · rintro ⟨-, hmissing⟩
    rw [hslot] at hmissing
    exact ⟨hk, hmissing⟩
  · rintro ⟨-, hmissing⟩
    exact ⟨hlt, by rwa [hslot]⟩

variable (ino0) in
/-- Which numbers are free: those of the entries of inode 0 itself, then those under its indirect,
its double and its triple entry. -/
theorem mem_freeNumbers :
    (∀ n < directIndexEntries, n ∈ ino0.freeNumbers ↔ (ino0 (.direct n)).isMissing = true) ∧
    (∀ k < logAddressesPerBlock ^ 1, directIndexEntries + k ∈ ino0.freeNumbers ↔
      k ∈ (ino0 .indirect).freeSlots 1) ∧
    (∀ k < logAddressesPerBlock ^ 2, firstDouble + k ∈ ino0.freeNumbers ↔
      k ∈ (ino0 .double).freeSlots 2) ∧
    ∀ k < logAddressesPerBlock ^ 3, firstTriple + k ∈ ino0.freeNumbers ↔
      k ∈ (ino0 .triple).freeSlots 3 := by
  obtain ⟨hindirect, hdouble, htriple⟩ := inodeEntry_slot ino0
  have hslots : inodeSlots = firstTriple + logAddressesPerBlock ^ 3 := by
    rw [inodeSlots, Nat.pow_succ', Nat.pow_two]
  have hto : firstTriple = firstDouble + logAddressesPerBlock ^ 2 := by
    rw [firstTriple, Nat.pow_two]
  have hto' : firstDouble = directIndexEntries + logAddressesPerBlock ^ 1 := by
    rw [firstDouble, Nat.pow_one]
  refine ⟨fun n hn => ?_, fun k hk => ?_, fun k hk => ?_, fun k hk => ?_⟩
  · have hentry := inodeEntry_direct ino0 hn
    rw [← hentry]
    exact and_iff_right (by omega)
  · exact mem_freeNumbers_under hk (hindirect k hk) (by omega)
  · exact mem_freeNumbers_under hk (hdouble k hk) (by omega)
  · exact mem_freeNumbers_under hk (htriple k hk) (by omega)

/-- A search under an entry finds the first free number of all, if none before is free. -/
theorem FindsFirst.lowest {h a : Nat} {t : HoleTree} {find : HoleTree → Int → Option Int}
    (hfind : FindsFirst h find t a)
    (hunder : ∀ k < logAddressesPerBlock ^ h, a + k ∈ ino0.freeNumbers ↔ k ∈ t.freeSlots h)
    (hbefore : ∀ n < a, n ∉ ino0.freeNumbers) (hfree : (t.freeSlots h).Nonempty) (offset : Int) :
    find t (blockOffset a) = some offset ↔ offset < fsMaxFilesize ∧
      ∃ n, offset = blockOffset n ∧ IsLeast ino0.freeNumbers n := by
  refine (hfind offset).trans (and_congr_right fun _ => ?_)
  constructor
  · rintro ⟨k, rfl, hk⟩
    exact ⟨a + k, rfl, (isLeast_freeNumbers hunder hbefore hfree).mpr ⟨k, rfl, hk⟩⟩
  · rintro ⟨n, rfl, hn⟩
    obtain ⟨k, rfl, hk⟩ := (isLeast_freeNumbers hunder hbefore hfree).mp hn
    exact ⟨k, rfl, hk⟩

/-- No number under an entry that is not free is. -/
theorem not_mem_freeNumbers_of_taken {h a : Nat} {t : HoleTree} (ht : t.FlagsRight h)
    (htaken : ¬t.isFree = true)
    (hunder : ∀ k < logAddressesPerBlock ^ h, a + k ∈ ino0.freeNumbers ↔ k ∈ t.freeSlots h)
    (hbefore : ∀ n < a, n ∉ ino0.freeNumbers) :
    ∀ n < a + logAddressesPerBlock ^ h, n ∉ ino0.freeNumbers := by
  intro n hn hmem
  rcases Nat.lt_or_ge n a with hlt | hge
  · exact hbefore n hlt hmem
  · obtain ⟨k, rfl⟩ := Nat.exists_eq_add_of_le hge
    exact htaken (ht.isFree_iff_freeSlots.mpr
      ⟨k, (hunder k (Nat.lt_of_add_lt_add_left hn)).mp hmem⟩)

/-- The blocks of inode 0's own entries lie within the largest size. -/
theorem blockOffset_lt_fsMaxFilesize {n : Nat} (hn : n < directIndexEntries) :
    blockOffset n < fsMaxFilesize := by
  have hpages : 32 ≤ pageCount := by
    have hslots := Config.powSlots_ge
    have hbits := Config.powSlots_lt
    have hpages := Config.powPagesPerEu_pos
    exact Nat.pow_le_pow_right (show 0 < 2 by decide)
      (show 5 ≤ Config.powPagesPerEu + Config.euBits by omega)
  have hle := Nat.mul_le_mul_right pageSize (show n + 1 ≤ pageCount by
    unfold directIndexEntries at hn
    omega)
  have hcast : ((n + 1) * pageSize : Int) ≤ pageCount * pageSize := by exact_mod_cast hle
  rw [blockOffset, fsMaxFilesize, fsBlockSize, inodeFileDataSize]
  rw [add_mul] at hcast
  omega

/-- The search finds the first free number. -/
theorem FlagsRight.lowest (hf : ino0.FlagsRight) (offset : Int) :
    ino0.findEmptySparseBlock = some offset ↔ offset < fsMaxFilesize ∧
      ∃ n, offset = blockOffset n ∧ IsLeast ino0.freeNumbers n := by
  obtain ⟨hdirect, hindirect, hdouble, htriple⟩ := mem_freeNumbers ino0
  unfold findEmptySparseBlock
  cases hloop : (List.range directIndexEntries).find? fun i : Nat => (ino0 (.direct i)).isFree with
  | some i =>
    obtain ⟨hfree, hi, hfirst⟩ := List.find?_range_eq_some.mp hloop
    have hi := List.mem_range.mp hi
    have hleast : IsLeast ino0.freeNumbers i := by
      refine ⟨(hdirect i hi).mpr ((hf.direct i hi).mp hfree), fun n hn => ?_⟩
      by_contra hlt
      have hlt := Nat.lt_of_not_le hlt
      have hn' : n < directIndexEntries := Nat.lt_trans hlt hi
      have hfree := (hf.direct n hn').mpr ((hdirect n hn').mp hn)
      exact absurd hfree (by simpa using hfirst n hlt)
    constructor
    · rintro h
      obtain rfl := Option.some.inj h
      exact ⟨blockOffset_lt_fsMaxFilesize hi, i, rfl, hleast⟩
    · rintro ⟨-, n, rfl, hn⟩
      rw [hn.unique hleast]
      rfl
  | none =>
    have hbefore : ∀ n < directIndexEntries, n ∉ ino0.freeNumbers := fun n hn hmem =>
      List.find?_eq_none.mp hloop n (List.mem_range.mpr hn)
        ((hf.direct n hn).mpr ((hdirect n hn).mp hmem))
    dsimp only
    by_cases hfree : (ino0 .indirect).isFree = true
    · rw [if_pos hfree]
      exact (findsFirst_indirect hf.indirect hfree directIndexEntries).lowest hindirect hbefore
        (hf.indirect.isFree_iff_freeSlots.mp hfree) offset
    rw [if_neg hfree]
    have hbefore := not_mem_freeNumbers_of_taken hf.indirect hfree hindirect hbefore
    rw [Nat.pow_one, ← firstDouble] at hbefore
    have hstart : inodeFileDataSize + inodeDirectDataSize + inodeIndirectDataSize
        = blockOffset firstDouble := doubleDataOffset_eq
    rw [hstart]
    by_cases hfree : (ino0 .double).isFree = true
    · rw [if_pos hfree]
      exact (findsFirst_double hf.double hfree firstDouble).lowest hdouble hbefore
        (hf.double.isFree_iff_freeSlots.mp hfree) offset
    rw [if_neg hfree]
    have hbefore := not_mem_freeNumbers_of_taken hf.double hfree hdouble hbefore
    rw [Nat.pow_two, ← firstTriple] at hbefore
    have hstart : blockOffset firstDouble + inodeDoubleDataSize = blockOffset firstTriple := by
      rw [← doubleDataOffset_eq, ← tripleDataOffset_eq, tripleDataOffset]
    rw [hstart]
    by_cases hfree : (ino0 .triple).isFree = true
    · rw [if_pos hfree]
      exact (findsFirst_triple hf.triple hfree firstTriple).lowest htriple hbefore
        (hf.triple.isFree_iff_freeSlots.mp hfree) offset
    rw [if_neg hfree]
    have hbefore := not_mem_freeNumbers_of_taken hf.triple hfree htriple hbefore
    rw [Nat.pow_succ', Nat.pow_two, ← inodeSlots] at hbefore
    refine iff_of_false (Option.some_ne_none offset).symm ?_
    rintro ⟨-, n, -, hn⟩
    exact hbefore n hn.1.1 hn.1

theorem FlagsRight.holesFound (hf : ino0.FlagsRight) : ino0.HolesFound where
  flags := hf
  lowest := hf.lowest
  unused offset hfind := by
    obtain ⟨-, n, rfl, hn⟩ := (hf.lowest offset).mp hfind
    rw [calcInInodes_eq]
    exact hn.1.2

end Numbers

end IndexBlock

end Holes

/-! ## A block of an aborted transaction -/

section SmallPage
attribute [local instance] smallPageFs

namespace IndexBlock

/-- A block of words `0x7fffffff`, as a file may have for data. -/
def words7f : IndexBlock := fun _ => .missing false

/-- A file is created in the root directory. -/
def createsOne : Ino0Call := .createNewFile 1 .none .none .commits

/-- A transaction that has written a block of a file with words `0x7fffffff` and then one of votes
is aborted at the write of inode 0. -/
def abortsVoter : CommitAborts := { CommitAborts.none with
  ino0 := [[⟨true, fun _ => .missing true⟩, ⟨false, words7f⟩]] }

/-- Nine files are created in the root directory, and a tenth, whose number 11 is the first
under the indirect entry. -/
def createsEleven : List Ino0Call :=
  List.replicate 9 createsOne ++ [.createNewFile 1 abortsVoter .none .commits]

/-- The tenth file is the first with an index block of inode 0 above its inode. -/
example : (Ino0Call.run (List.replicate 9 createsOne) .format).ino0.findEmptySparseBlock
    = some indirectDataOffset := by decide +kernel

/-- The entry of inode number 2 is lost, without being marked as free. -/
theorem run_createsEleven :
    ((Ino0Call.run createsEleven .format).ino0 (.direct 1)).isFree = false ∧
      ((Ino0Call.run createsEleven .format).ino0 (.direct 1)).isMissing = true := by
  decide +kernel

/-- Nor are they where the checkpoint of a creation fails and its pages are used again. -/
theorem not_holesFound_reclaimed :
    ¬(Ino0Call.run [.createNewFile 1 .none .none .failsAfter, .reclaim words7f]
      .format).ino0.HolesFound := by
  intro h
  have hflag := h.flags.direct 0 (by decide)
  exact absurd (hflag.mpr rfl) Bool.false_ne_true

end IndexBlock

end SmallPage

end NandFs
