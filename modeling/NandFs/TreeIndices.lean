import NandFs.FileBlocks

/-! # Where the blocks of a file hang

Writing a block, committing the index block it hangs in, reading it back from the transaction
and reading it from the committed tree each compute their way through the tree on their own.
Here each is told as the entries it goes through, and they are shown to be the same.
-/
namespace NandFs

section Defs
variable [Config]

/-- An entry of the inode, or of an index block.  `data` is the part of the file that is kept
in the inode itself. -/
inductive TreeIndex
  | data
  | direct (num : Int)
  | indirect
  | double
  | triple
  | entry (num : Int)
  deriving DecidableEq, Repr

/-- The entries that lead from the inode to a block. -/
abbrev TreePath := List TreeIndex

/-! ## The transaction -/

/-- `calcIndirectBlockOffset` -/
def calcIndirectBlockOffset (fileBlockOffset : Int) : Int :=
  if fileBlockOffset < indirectDataOffset then 0
  else fileBlockOffset - calcOffsetInIndirectSize (fileBlockOffset - indirectDataOffset)

/-- `isOffsetInIndirect`, of the file offset the transaction has. -/
def isOffsetInIndirect (offset fileOffset : Int) : Bool :=
  -- `IS_INDIRECT_EMPTY`
  if fileOffset < 0 then false
  else
    let margin := offset - fileOffset
    -- `IS_INDIRECT_INODE`
    if fileOffset = 0 then decide (offset < indirectDataOffset)
    else decide (0 ≤ margin) && decide (margin < inodeIndirectDataSize)

/-- `findIndirectEntriesBlock`: the file offset of the transaction after it.  `none` is the
failed `FS_VERIFY`. -/
def findIndirectEntriesBlock (blockOffset fileOffset : Int) : Option Int :=
  if isOffsetInIndirect blockOffset fileOffset then some fileOffset
  else if blockOffset < fsMaxFilesize then some (calcIndirectBlockOffset blockOffset)
  else none

/-! ## The paths -/

/-- `writeFileBlock`: the entry of the active index block that is set. -/
def writeFileBlockIndex (blockOffset fileOffset : Int) : TreeIndex :=
  if fileOffset = 0 then
    if blockOffset < inodeFileDataSize then .data
    else .direct (calcInBlocks (blockOffset - inodeFileDataSize))
  else
    let blockOffset := blockOffset - indirectDataOffset
    .entry (calcInBlocks (calcOffsetInIndirectSize blockOffset))

/-- `commitInode`: the entries that lead to the active index block. -/
def commitInodePath (fileOffset : Int) : TreePath :=
  let offsetIndirect := fileOffset
  if fileOffset = 0 then []
  else if offsetIndirect < doubleDataOffset then [.indirect]
  else if offsetIndirect < tripleDataOffset then
    [.double, .entry (calcOffsetInDoubleBlock (calcOffsetFromDouble offsetIndirect))]
  else
    [.triple, .entry (calcOffsetInTripleBlock (calcOffsetFromTriple offsetIndirect)),
      .entry (calcOffsetInDoubleBlock (calcOffsetInDoubleSize
        (calcOffsetFromTriple offsetIndirect)))]

/-- `readIndirectToBuffer`: the entries that lead to the block that is read. -/
def readIndirectPath (blockOffset : Int) : TreePath :=
  if blockOffset < indirectDataOffset then []
  else if blockOffset < doubleDataOffset then [.indirect]
  else if blockOffset < tripleDataOffset then
    let blockOffset := blockOffset - doubleDataOffset
    [.double, .entry (calcOffsetInDoubleBlock blockOffset)]
  else
    let blockOffset := blockOffset - tripleDataOffset
    [.triple, .entry (calcOffsetInTripleBlock blockOffset),
      .entry (calcOffsetInDoubleBlock (calcOffsetInDoubleSize blockOffset))]

/-- `readFromTransactionIndirectRead`: the entry of the active index block that is read. -/
def readFromTransactionIndex (offset fileOffset : Int) : TreeIndex :=
  let blockOffset := offset - calcOffsetInFileBlock offset
  if fileOffset = 0 then
    if blockOffset < inodeFileDataSize then .data
    else .direct (calcInBlocks (blockOffset - inodeFileDataSize))
  else
    let blockOffset := blockOffset - indirectDataOffset
    .entry (calcInBlocks (calcOffsetInIndirectSize blockOffset))

/-- `readFileBlock` from the committed tree. -/
def readFileBlockPath (offset : Int) : TreePath :=
  if offset < inodeFileDataSize then [.data]
  else if offset < indirectDataOffset then [.direct (calcInBlocks (offset - inodeFileDataSize))]
  else
    readIndirectPath (offset - calcOffsetInFileBlock offset) ++
      [.entry (calcInBlocks (calcOffsetInIndirectSize (calcOffsetFromIndirect offset)))]

/-- The file offset of a transaction: none at first, that of the inode in a transaction that
creates the file, and what `findIndirectEntriesBlock` makes of it. -/
inductive TransactionOffset : Int → Prop
  | empty : TransactionOffset (-1)
  | create : TransactionOffset 0
  | find {fileOffset fileOffset' blockOffset : Int} (h : TransactionOffset fileOffset)
      (hpos : 0 ≤ blockOffset)
      (hfind : findIndirectEntriesBlock blockOffset fileOffset = some fileOffset') :
      TransactionOffset fileOffset'

/-- The number of the block an offset lies in, from behind the data in the inode on. -/
def fileBlockNumber (offset : Int) : Option Int :=
  if offset < inodeFileDataSize then none else some (calcInBlocks (offset - inodeFileDataSize))

end Defs

/-! ## The tree by block numbers -/

section Blocks
variable [FsConfig]

/-- The way to index block `g` of those that hold the addresses of blocks. -/
def indirectPath (g : Nat) : TreePath :=
  let l := logAddressesPerBlock
  if g = 0 then [.indirect]
  else if g < l + 1 then [.double, .entry (g - 1 : Nat)]
  else [.triple, .entry ((g - 1 - l) / l : Nat), .entry ((g - 1 - l) % l : Nat)]

/-- The offset at byte `p` of the block in entry `i` of index block `g`. -/
def indirectOffset (g i p : Nat) : Int :=
  blockOffset (directIndexEntries + (g * logAddressesPerBlock + i)) + p

variable {g i p : Nat}

theorem indirectOffset_ge (g i p : Nat) : indirectDataOffset ≤ indirectOffset g i p := by
  rw [indirectDataOffset_eq, indirectOffset, blockOffset_add]
  have hpos := mul_nonneg (Int.natCast_nonneg (g * logAddressesPerBlock + i))
    (Int.le_of_lt fsBlockSize_pos)
  omega

theorem inodeFileDataSize_lt : inodeFileDataSize < indirectDataOffset := by
  have hpos := fsBlockSize_pos
  rw [indirectDataOffset, inodeDirectDataSize]
  unfold directIndexEntries
  omega

theorem logAddressesPerBlock_pos : 0 < logAddressesPerBlock :=
  Nat.lt_of_lt_of_le (by decide) logAddressesPerBlock_ge

/-- Every offset behind the direct blocks lies under an index block. -/
theorem exists_indirectOffset {offset : Int} (h : indirectDataOffset ≤ offset) :
    ∃ g i p, i < logAddressesPerBlock ∧ p < pageSize ∧ offset = indirectOffset g i p := by
  obtain ⟨d, hd⟩ := Int.eq_ofNat_of_zero_le (Int.sub_nonneg_of_le h)
  refine ⟨d / pageSize / logAddressesPerBlock, d / pageSize % logAddressesPerBlock, d % pageSize,
    Nat.mod_lt _ logAddressesPerBlock_pos, Nat.mod_lt _ pageSize_pos, ?_⟩
  have hblock := Nat.div_add_mod' d pageSize
  rw [indirectOffset, Nat.div_add_mod', blockOffset_add, add_assoc, ← cast_offset, hblock,
    ← indirectDataOffset_eq, ← hd]
  ring

/-- The index blocks follow each other. -/
theorem indirectOffset_lt_iff (hi : i < logAddressesPerBlock) (hp : p < pageSize) (g' : Nat) :
    indirectOffset g i p < blockOffset (directIndexEntries + g' * logAddressesPerBlock) ↔
      g < g' := by
  rw [indirectOffset, blockOffset_lt_iff hp, Nat.add_lt_add_iff_left]
  constructor
  · intro hlt
    by_contra hg
    have := Nat.mul_le_mul_right logAddressesPerBlock (Nat.le_of_not_lt hg)
    omega
  · intro hg
    have := Nat.mul_le_mul_right logAddressesPerBlock (Nat.succ_le_of_lt hg)
    rw [Nat.succ_mul] at this
    omega

theorem indirectOffset_lt_double (hi : i < logAddressesPerBlock) (hp : p < pageSize) :
    indirectOffset g i p < doubleDataOffset ↔ g = 0 := by
  have hlt := indirectOffset_lt_iff (g := g) hi hp 1
  rwa [Nat.one_mul, ← firstDouble, ← doubleDataOffset_eq, Nat.lt_one_iff] at hlt

theorem indirectOffset_lt_triple (hi : i < logAddressesPerBlock) (hp : p < pageSize) :
    indirectOffset g i p < tripleDataOffset ↔ g < logAddressesPerBlock + 1 := by
  have hlt := indirectOffset_lt_iff (g := g) hi hp (logAddressesPerBlock + 1)
  rwa [show directIndexEntries + (logAddressesPerBlock + 1) * logAddressesPerBlock = firstTriple by
    rw [firstTriple, firstDouble]
    ring, ← tripleDataOffset_eq] at hlt

/-- Reading an index block goes to the one its offsets lie under. -/
theorem readIndirectPath_eq (hi : i < logAddressesPerBlock) (hp : p < pageSize) :
    readIndirectPath (indirectOffset g i p) = indirectPath g := by
  have hge := indirectOffset_ge g i p
  have hl := logAddressesPerBlock_pos
  simp only [readIndirectPath, indirectPath, if_neg (not_lt.mpr hge),
    indirectOffset_lt_double hi hp, indirectOffset_lt_triple hi hp]
  by_cases hg : g = 0
  · rw [if_pos hg, if_pos hg]
  rw [if_neg hg, if_neg hg]
  by_cases htriple : g < logAddressesPerBlock + 1
  · obtain ⟨g, rfl⟩ := Nat.exists_eq_succ_of_ne_zero hg
    have hoff : indirectOffset (g + 1) i p - doubleDataOffset
        = ((g * logAddressesPerBlock + i) * pageSize + p : Nat) := by
      rw [indirectOffset, doubleDataOffset_eq, cast_offset, firstDouble, Nat.succ_mul,
        show directIndexEntries + (g * logAddressesPerBlock + logAddressesPerBlock + i)
          = directIndexEntries + logAddressesPerBlock + (g * logAddressesPerBlock + i) by ring,
        blockOffset_add]
      ring
    rw [if_pos htriple, if_pos htriple, hoff, calcOffsetInDoubleBlock_eq _ hp, (div_mod_at hi).1,
      Nat.succ_sub_one]
  · obtain ⟨g, rfl⟩ := Nat.exists_eq_add_of_le (Nat.le_of_not_lt htriple)
    have hoff : indirectOffset (logAddressesPerBlock + 1 + g) i p - tripleDataOffset
        = ((g * logAddressesPerBlock + i) * pageSize + p : Nat) := by
      rw [indirectOffset, tripleDataOffset_eq, cast_offset, firstTriple, firstDouble,
        show directIndexEntries + ((logAddressesPerBlock + 1 + g) * logAddressesPerBlock + i)
          = directIndexEntries + logAddressesPerBlock + logAddressesPerBlock * logAddressesPerBlock
            + (g * logAddressesPerBlock + i) by ring, blockOffset_add]
      ring
    rw [if_neg htriple, if_neg htriple, hoff, calcOffsetInTripleBlock_eq _ hp,
      calcOffsetInDoubleSize_eq _ hp, calcOffsetInDoubleBlock_eq _ hp, ← Nat.div_div_eq_div_mul,
      Nat.mod_mul_right_div_self, (div_mod_at hi).1,
      show logAddressesPerBlock + 1 + g - 1 - logAddressesPerBlock = g by omega]

/-- The entry of an offset in its index block. -/
theorem indirect_entry (hi : i < logAddressesPerBlock) (hp : p < pageSize) :
    calcInBlocks (calcOffsetInIndirectSize (indirectOffset g i p - indirectDataOffset)) = i := by
  have hoff := calcOffsetFromIndirect_eq (g * logAddressesPerBlock + i) p
  rw [calcOffsetFromIndirect] at hoff
  rw [indirectOffset, hoff, calcOffsetInIndirectSize_eq _ hp, calcInBlocks_eq _ hp,
    (div_mod_at hi).2]

/-- An index block is committed where it is read. -/
theorem commitInodePath_eq {fileOffset : Int} (h : indirectDataOffset ≤ fileOffset) :
    commitInodePath fileOffset = readIndirectPath fileOffset := by
  have hpos := inodeFileDataSize_pos
  have hlt := inodeFileDataSize_lt
  have hdouble : calcOffsetFromDouble fileOffset = fileOffset - doubleDataOffset := by
    rw [calcOffsetFromDouble, calcOffsetFromIndirect, doubleDataOffset]
    ring
  have htriple : calcOffsetFromTriple fileOffset = fileOffset - tripleDataOffset := by
    rw [calcOffsetFromTriple, hdouble, tripleDataOffset]
    ring
  simp only [commitInodePath, readIndirectPath, if_neg (show ¬fileOffset = 0 by omega),
    if_neg (not_lt.mpr h), hdouble, htriple]

/-! ## The transaction and its index block -/

theorem calcIndirectBlockOffset_eq (hi : i < logAddressesPerBlock) (hp : p < pageSize) :
    calcIndirectBlockOffset (indirectOffset g i p) = indirectOffset g 0 0 := by
  have hge := indirectOffset_ge g i p
  have hoff := calcOffsetFromIndirect_eq (g * logAddressesPerBlock + i) p
  rw [calcOffsetFromIndirect] at hoff
  rw [calcIndirectBlockOffset, if_neg (not_lt.mpr hge), indirectOffset, hoff,
    calcOffsetInIndirectSize_eq _ hp, (div_mod_at hi).2, cast_offset, indirectOffset, Nat.add_zero,
    ← Nat.add_assoc, blockOffset_add]
  push_cast
  ring

/-- The offsets under an index block are those of its size from its first one on. -/
theorem indirectOffset_margin {g' : Nat} (hi : i < logAddressesPerBlock) (hp : p < pageSize) :
    (0 ≤ indirectOffset g i p - indirectOffset g' 0 0 ∧
      indirectOffset g i p - indirectOffset g' 0 0 < inodeIndirectDataSize) ↔ g = g' := by
  have hfirst : indirectOffset g' 0 0
      = blockOffset (directIndexEntries + g' * logAddressesPerBlock) := by
    rw [indirectOffset, Nat.add_zero, Nat.cast_zero, Int.add_zero]
  have hnext : indirectOffset g' 0 0 + inodeIndirectDataSize
      = blockOffset (directIndexEntries + (g' + 1) * logAddressesPerBlock) := by
    rw [hfirst, inodeIndirectDataSize_eq, Nat.succ_mul, ← Nat.add_assoc, ← blockOffset_add]
  have hbelow := indirectOffset_lt_iff (g := g) hi hp g'
  have habove := indirectOffset_lt_iff (g := g) hi hp (g' + 1)
  rw [← hfirst] at hbelow
  rw [← hnext] at habove
  constructor
  · rintro ⟨h0, h1⟩
    have hnot := mt hbelow.mpr (show ¬indirectOffset g i p < indirectOffset g' 0 0 by omega)
    have hlt := habove.mp (by omega)
    by_contra hne
    have hge : ¬g < g' := fun hg => (not_lt.mpr (show indirectOffset g' 0 0 ≤ _ by omega))
      (hbelow.mpr hg)
    omega
  · rintro rfl
    have h0 := mt hbelow.mp (Nat.lt_irrefl g)
    have h1 := habove.mpr (Nat.lt_succ_self g)
    omega

/-- The file offset of a transaction that has an index block is that of the inode, or of the
first block under the index block. -/
theorem TransactionOffset.cases {fileOffset : Int} (h : TransactionOffset fileOffset) :
    fileOffset = -1 ∨ fileOffset = 0 ∨ ∃ g, fileOffset = indirectOffset g 0 0 := by
  induction h with
  | empty => exact .inl rfl
  | create => exact .inr (.inl rfl)
  | @find fileOffset fileOffset' blockOffset h hpos hfind ih =>
    unfold findIndirectEntriesBlock at hfind
    split_ifs at hfind
    · rwa [← Option.some.inj hfind]
    · rw [← Option.some.inj hfind]
      by_cases hlt : blockOffset < indirectDataOffset
      · exact .inr (.inl (if_pos hlt))
      · obtain ⟨g, i, p, hi, hp, rfl⟩ := exists_indirectOffset (Int.not_lt.mp hlt)
        exact .inr (.inr ⟨g, calcIndirectBlockOffset_eq hi hp⟩)

/-- An offset under the active index block has it for its index block. -/
theorem calcIndirectBlockOffset_of_in {fileOffset offset : Int} (h : TransactionOffset fileOffset)
    (hin : isOffsetInIndirect offset fileOffset = true) :
    calcIndirectBlockOffset offset = fileOffset := by
  unfold isOffsetInIndirect at hin
  rcases h.cases with rfl | rfl | ⟨g, rfl⟩
  · rw [if_pos (by decide)] at hin
    cases hin
  · rw [if_neg (Int.lt_irrefl 0), if_pos rfl, decide_eq_true_iff] at hin
    rw [calcIndirectBlockOffset, if_pos hin]
  · have hge := indirectOffset_ge g 0 0
    have hpos := inodeFileDataSize_pos
    have hlt := inodeFileDataSize_lt
    rw [if_neg (by omega), if_neg (by omega), Bool.and_eq_true, decide_eq_true_iff,
      decide_eq_true_iff] at hin
    obtain ⟨g', i, p, hi, hp, rfl⟩ := exists_indirectOffset
      (show indirectDataOffset ≤ offset by omega)
    rw [calcIndirectBlockOffset_eq hi hp, (indirectOffset_margin hi hp).mp hin]

/-- The index block the transaction has after it looked for that of an offset. -/
theorem findIndirectEntriesBlock_eq {fileOffset offset : Int} (h : TransactionOffset fileOffset)
    (hmax : offset < fsMaxFilesize) :
    findIndirectEntriesBlock offset fileOffset = some (calcIndirectBlockOffset offset) := by
  unfold findIndirectEntriesBlock
  by_cases hin : isOffsetInIndirect offset fileOffset = true
  · rw [if_pos hin, calcIndirectBlockOffset_of_in h hin]
  · rw [if_neg hin, if_pos hmax]

/-! ## The paths agree -/

theorem readFileBlockPath_indirect (hi : i < logAddressesPerBlock) (hp : p < pageSize) :
    readFileBlockPath (indirectOffset g i p) = indirectPath g ++ [.entry i] := by
  have hge := indirectOffset_ge g i p
  have hlt := inodeFileDataSize_lt
  have hstart : indirectOffset g i p - calcOffsetInFileBlock (indirectOffset g i p)
      = indirectOffset g i 0 := by
    rw [indirectOffset, calcOffsetInFileBlock_eq _ hp, indirectOffset]
    omega
  rw [readFileBlockPath, if_neg (by omega), if_neg (by omega), hstart,
    readIndirectPath_eq hi pageSize_pos, calcOffsetFromIndirect, indirect_entry hi hp]

/-- Under an index block all paths go through it. -/
theorem paths_indirect (hi : i < logAddressesPerBlock) (hp : p < pageSize) :
    commitInodePath (indirectOffset g 0 0) = readIndirectPath (indirectOffset g i p) ∧
    writeFileBlockIndex (indirectOffset g i p) (indirectOffset g 0 0) = .entry i ∧
    readFromTransactionIndex (indirectOffset g i p) (indirectOffset g 0 0) = .entry i := by
  have hge := indirectOffset_ge g 0 0
  have hpos := inodeFileDataSize_pos
  have hlt := inodeFileDataSize_lt
  have hstart : indirectOffset g i p - calcOffsetInFileBlock (indirectOffset g i p)
      = indirectOffset g i 0 := by
    rw [indirectOffset, calcOffsetInFileBlock_eq _ hp, indirectOffset]
    omega
  refine ⟨?_, ?_, ?_⟩
  · rw [commitInodePath_eq hge, readIndirectPath_eq logAddressesPerBlock_pos pageSize_pos,
      readIndirectPath_eq hi hp]
  · rw [writeFileBlockIndex, if_neg (by omega)]
    exact congrArg TreeIndex.entry (indirect_entry hi hp)
  · rw [readFromTransactionIndex, hstart, if_neg (by omega)]
    exact congrArg TreeIndex.entry (indirect_entry hi pageSize_pos)

/-- In the inode all paths are the entry itself. -/
theorem paths_inode {offset : Int} (hlt : offset < indirectDataOffset) :
    readIndirectPath offset = [] ∧ readFileBlockPath offset = [writeFileBlockIndex offset 0] ∧
    readFromTransactionIndex offset 0 = writeFileBlockIndex offset 0 := by
  refine ⟨if_pos hlt, ?_, ?_⟩
  · unfold readFileBlockPath writeFileBlockIndex
    rw [if_pos rfl]
    by_cases hdata : offset < inodeFileDataSize
    · rw [if_pos hdata, if_pos hdata]
    · rw [if_neg hdata, if_neg hdata, if_pos hlt]
  · unfold readFromTransactionIndex writeFileBlockIndex calcOffsetInFileBlock
    rw [if_pos rfl, if_pos rfl]
    by_cases hdata : offset < inodeFileDataSize
    · rw [if_neg (not_le.mpr hdata), Int.sub_zero, if_pos hdata]
    · have hmod := Int.emod_nonneg (offset - inodeFileDataSize) (ne_of_gt fsBlockSize_pos)
      have hdiv := Int.mul_ediv_add_emod (offset - inodeFileDataSize) fsBlockSize
      have hblock : fsBlockSize = (2 : Int) ^ Config.powPageSize := by
        rw [fsBlockSize, pageSize]
        push_cast
        rfl
      have hblocks : 0 ≤ fsBlockSize * ((offset - inodeFileDataSize) / fsBlockSize) :=
        mul_nonneg (Int.le_of_lt fsBlockSize_pos)
          (Int.ediv_nonneg (by omega) (Int.le_of_lt fsBlockSize_pos))
      have hstart : offset - (offset - inodeFileDataSize) % fsBlockSize - inodeFileDataSize
          = (offset - inodeFileDataSize) / fsBlockSize * fsBlockSize := by
        rw [Int.mul_comm]
        omega
      rw [if_pos (Int.not_lt.mp hdata), if_neg hdata, if_neg (by omega), calcInBlocks, calcInBlocks,
        hstart, ← hblock, Int.mul_ediv_cancel _ (ne_of_gt fsBlockSize_pos)]

/-- Whatever index block the transaction has, writing a block, committing it and reading it go
through the same entries. -/
theorem paths_agree {fileOffset offset : Int} (h : TransactionOffset fileOffset)
    (hmax : offset < fsMaxFilesize) :
    ∃ fileOffset', findIndirectEntriesBlock offset fileOffset = some fileOffset' ∧
      commitInodePath fileOffset' = readIndirectPath offset ∧
      commitInodePath fileOffset' ++ [writeFileBlockIndex offset fileOffset']
        = readFileBlockPath offset ∧
      commitInodePath fileOffset' ++ [readFromTransactionIndex offset fileOffset']
        = readFileBlockPath offset := by
  refine ⟨_, findIndirectEntriesBlock_eq h hmax, ?_⟩
  by_cases hlt : offset < indirectDataOffset
  · obtain ⟨hread, hfile, htransaction⟩ := paths_inode hlt
    rw [calcIndirectBlockOffset, if_pos hlt, hread, hfile, htransaction]
    exact ⟨rfl, rfl, rfl⟩
  · obtain ⟨g, i, p, hi, hp, rfl⟩ := exists_indirectOffset (Int.not_lt.mp hlt)
    obtain ⟨hcommit, hwrite, htransaction⟩ := paths_indirect (g := g) hi hp
    rw [calcIndirectBlockOffset_eq hi hp, hwrite, htransaction, hcommit,
      readFileBlockPath_indirect hi hp, readIndirectPath_eq hi hp]
    exact ⟨rfl, rfl, rfl⟩

/-! ## The blocks at their ends -/

namespace StoredFiles
variable (m : StoredFiles)

/-- The block behind an entry of a block that was read. -/
def behind (buf : Block) : TreeIndex → Block
  | .data => fun j => if (j : Int) < inodeFileDataSize then buf j else 0xff
  | .direct num => m.fsReadBlock (inodeGetDirect buf num.toNat)
  | .indirect => m.fsReadBlock (inodeGetIndirect buf)
  | .double => m.fsReadBlock (inodeGetDouble buf)
  | .triple => m.fsReadBlock (inodeGetTriple buf)
  | .entry num => m.fsReadBlock (blockGetIndex buf num.toNat)

/-- The block at the end of a path. -/
def follow (inode : Block) (path : TreePath) : Block := path.foldl m.behind inode

/-- `readIndirectToBuffer` reads the block at the end of its path. -/
theorem readIndirectToBuffer_follow (blockOffset : Int) (inoLogAddr : LogAddr) (buf : Block) :
    m.readIndirectToBuffer blockOffset inoLogAddr buf =
      m.follow (if isAddrEmpty inoLogAddr then buf else m.fsReadBlock inoLogAddr)
        (readIndirectPath blockOffset) := by
  unfold readIndirectToBuffer readIndirectPath
  dsimp only
  split_ifs <;> rfl

/-- `readFileBlock` reads the block at the end of its path. -/
theorem readFromInode_follow {inode : Block} {offset : Int} {inoLogAddr : LogAddr}
    (inoNum : BitVec 32) (hsize : offset ≤ (inodeGetNbytes inode).toNat)
    (hinode : isAddrEmpty inoLogAddr = true ∨ inode = m.fsReadBlock inoLogAddr) :
    (m.readFromInode inode inoNum offset inoLogAddr).block =
      m.follow inode (readFileBlockPath offset) := by
  have hsame : (if isAddrEmpty inoLogAddr then inode else m.fsReadBlock inoLogAddr) = inode := by
    rcases hinode with hempty | hread
    · rw [if_pos hempty]
    · rw [← hread, ite_self]
  unfold readFromInode readFileBlockPath
  rw [if_neg (not_lt.mpr hsize), readIndirectToBuffer_follow, hsame]
  split_ifs
  · rfl
  · rfl
  · simp only [follow, List.foldl_append]
    rfl

end StoredFiles

/-! ## Different blocks -/

theorem indirectPath_injective {g' : Nat} (h : indirectPath g = indirectPath g') : g = g' := by
  have hl := logAddressesPerBlock_pos
  unfold indirectPath at h
  dsimp only at h
  split_ifs at h with h0 h0' h1' h1 h0' h1' h0' h1'
  · rw [h0, h0']
  · simp at h
  · simp at h
  · simp at h
  · simp only [List.cons.injEq, TreeIndex.entry.injEq, Nat.cast_inj, and_true, true_and] at h
    omega
  · simp at h
  · simp at h
  · simp at h
  · simp only [List.cons.injEq, TreeIndex.entry.injEq, Nat.cast_inj, and_true, true_and] at h
    have hdiv := Nat.div_add_mod' (g - 1 - logAddressesPerBlock) logAddressesPerBlock
    have hdiv' := Nat.div_add_mod' (g' - 1 - logAddressesPerBlock) logAddressesPerBlock
    rw [h.1, h.2] at hdiv
    omega

/-- An offset lies in the data of the inode, in a direct block or under an index block. -/
theorem offset_cases (offset : Int) : offset < inodeFileDataSize ∨
    (inodeFileDataSize ≤ offset ∧ offset < indirectDataOffset) ∨
    ∃ g i p, i < logAddressesPerBlock ∧ p < pageSize ∧ offset = indirectOffset g i p := by
  rcases lt_or_ge offset inodeFileDataSize with hdata | hdata
  · exact .inl hdata
  rcases lt_or_ge offset indirectDataOffset with hlt | hge
  · exact .inr (.inl ⟨hdata, hlt⟩)
  · exact .inr (.inr (exists_indirectOffset hge))

theorem readFileBlockPath_direct {offset : Int} (hdata : inodeFileDataSize ≤ offset)
    (hlt : offset < indirectDataOffset) :
    readFileBlockPath offset = [.direct (calcInBlocks (offset - inodeFileDataSize))] := by
  rw [readFileBlockPath, if_neg (not_lt.mpr hdata), if_pos hlt]

theorem indirectPath_append_ne (g : Nat) (x y : TreeIndex) : indirectPath g ++ [x] ≠ [y] := by
  unfold indirectPath
  dsimp only
  split_ifs <;> simp

/-- Two offsets have one path only if they lie in one block. -/
theorem fileBlockNumber_eq_of_path {offset offset' : Int}
    (h : readFileBlockPath offset = readFileBlockPath offset') :
    fileBlockNumber offset = fileBlockNumber offset' := by
  have hnumber : ∀ {g i p}, p < pageSize → fileBlockNumber (indirectOffset g i p)
      = some ((directIndexEntries + (g * logAddressesPerBlock + i) : Nat) : Int) := by
    intro g i p hp
    have hge := indirectOffset_ge g i p
    have hlt := inodeFileDataSize_lt
    rw [fileBlockNumber, if_neg (by omega), indirectOffset, blockOffset,
      show inodeFileDataSize + ((directIndexEntries + (g * logAddressesPerBlock + i) : Nat) : Int)
        * fsBlockSize + p - inodeFileDataSize
        = ((directIndexEntries + (g * logAddressesPerBlock + i)) * pageSize + p : Nat) by
          rw [cast_offset]; ring, calcInBlocks_eq _ hp]
  rcases offset_cases offset with hdata | ⟨hdata, hlt⟩ | ⟨g, i, p, hi, hp, rfl⟩ <;>
    rcases offset_cases offset' with hdata' | ⟨hdata', hlt'⟩ | ⟨g', i', p', hi', hp', rfl⟩
  · rw [fileBlockNumber, if_pos hdata, fileBlockNumber, if_pos hdata']
  · rw [readFileBlockPath, if_pos hdata, readFileBlockPath_direct hdata' hlt'] at h
    simp at h
  · rw [readFileBlockPath, if_pos hdata, readFileBlockPath_indirect hi' hp'] at h
    exact absurd h.symm (indirectPath_append_ne _ _ _)
  · rw [readFileBlockPath_direct hdata hlt, readFileBlockPath, if_pos hdata'] at h
    simp at h
  · rw [readFileBlockPath_direct hdata hlt, readFileBlockPath_direct hdata' hlt'] at h
    simp only [List.cons.injEq, TreeIndex.direct.injEq, and_true] at h
    rw [fileBlockNumber, if_neg (not_lt.mpr hdata), fileBlockNumber, if_neg (not_lt.mpr hdata'), h]
  · rw [readFileBlockPath_direct hdata hlt, readFileBlockPath_indirect hi' hp'] at h
    exact absurd h.symm (indirectPath_append_ne _ _ _)
  · rw [readFileBlockPath_indirect hi hp, readFileBlockPath, if_pos hdata'] at h
    exact absurd h (indirectPath_append_ne _ _ _)
  · rw [readFileBlockPath_indirect hi hp, readFileBlockPath_direct hdata' hlt'] at h
    exact absurd h (indirectPath_append_ne _ _ _)
  · rw [readFileBlockPath_indirect hi hp, readFileBlockPath_indirect hi' hp'] at h
    obtain ⟨hpath, hentry⟩ := List.append_inj' h rfl
    simp only [List.cons.injEq, TreeIndex.entry.injEq, Nat.cast_inj, and_true] at hentry
    rw [hnumber hp, hnumber hp', indirectPath_injective hpath, hentry]

/-- All code paths agree where a block of a file lives: in any transaction, for any offset, the
index block that is found is the one the offset is read under, and the block is written,
committed and read through the same entries.  Different blocks have different ones. -/
theorem treePaths_agree :
    (∀ fileOffset, TransactionOffset fileOffset → ∀ offset, 0 ≤ offset → offset < fsMaxFilesize →
      ∃ fileOffset', findIndirectEntriesBlock offset fileOffset = some fileOffset' ∧
        commitInodePath fileOffset' = readIndirectPath offset ∧
        commitInodePath fileOffset' ++ [writeFileBlockIndex offset fileOffset']
          = readFileBlockPath offset ∧
        commitInodePath fileOffset' ++ [readFromTransactionIndex offset fileOffset']
          = readFileBlockPath offset) ∧
    ∀ offset offset', fileBlockNumber offset ≠ fileBlockNumber offset' →
      readFileBlockPath offset ≠ readFileBlockPath offset' :=
  ⟨fun _ h _ _ hmax => paths_agree h hmax, fun _ _ hne h => hne (fileBlockNumber_eq_of_path h)⟩

end Blocks

section SmallPage

attribute [local instance] smallPageFs

/-- The first offset behind the direct blocks is found, committed and read in the indirect block,
and hangs elsewhere than the last offset before it. -/
theorem treePaths_agree_smallPage :
    (∃ fileOffset', findIndirectEntriesBlock indirectDataOffset (-1) = some fileOffset' ∧
      commitInodePath fileOffset' = readIndirectPath indirectDataOffset ∧
      commitInodePath fileOffset' ++ [writeFileBlockIndex indirectDataOffset fileOffset']
        = readFileBlockPath indirectDataOffset ∧
      commitInodePath fileOffset' ++ [readFromTransactionIndex indirectDataOffset fileOffset']
        = readFileBlockPath indirectDataOffset) ∧
    readFileBlockPath (indirectDataOffset - 1) ≠ readFileBlockPath indirectDataOffset :=
  ⟨treePaths_agree.1 (-1) .empty indirectDataOffset (by decide) (by decide),
    treePaths_agree.2 (indirectDataOffset - 1) indirectDataOffset (by decide)⟩

end SmallPage

end NandFs
