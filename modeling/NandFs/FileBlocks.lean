import NandFs.InodeTree
import Mathlib.Algebra.Order.Ring.Int

/-! # The blocks of a file by number

Block `n` of a file begins `n` blocks after the data kept in the inode.  Here the offsets of
`fs.h` are told in blocks, `blockAddr` says where in the tree the address of a block is, and
`readFileBlock` is shown to read the block at that address.
-/
namespace NandFs

open Config

theorem add_div_mul {n p b : Nat} (hp : p < b) (k : Nat) : (n * b + p) / (b * k) = n / k := by
  rw [← Nat.div_div_eq_div_mul, Nat.mul_comm, Nat.mul_add_div (by omega), Nat.div_eq_of_lt hp,
    Nat.add_zero]

theorem add_mod_mul {n p b : Nat} (hp : p < b) (k : Nat) :
    (n * b + p) % (b * k) = n % k * b + p := by
  rw [Nat.mod_mul, Nat.mul_comm n, Nat.mul_add_mod, Nat.mod_eq_of_lt hp,
    Nat.mul_add_div (by omega), Nat.div_eq_of_lt hp, Nat.add_zero, Nat.mul_comm, Nat.add_comm]

theorem div_mod_at {i j l : Nat} (hj : j < l) : (i * l + j) / l = i ∧ (i * l + j) % l = j := by
  constructor
  · rw [Nat.mul_comm, Nat.mul_add_div (by omega), Nat.div_eq_of_lt hj, Nat.add_zero]
  · rw [Nat.mul_comm, Nat.mul_add_mod, Nat.mod_eq_of_lt hj]

theorem at_lt {i j l : Nat} (hi : i < l) (hj : j < l) : i * l + j < l * l := by
  have := Nat.mul_le_mul_right l (Nat.succ_le_of_lt hi)
  rw [Nat.succ_mul] at this
  omega

section Numbers
variable [FsConfig]

theorem pageSize_eq_four_mul : pageSize = 4 * 2 ^ (powPageSize - 2) := by
  have := FsConfig.powPageSize_ge_nine
  rw [pageSize, show (4 : Nat) = 2 ^ 2 from rfl, ← Nat.pow_add]
  congr 1
  omega

theorem logAddressesPerBlock_eq : logAddressesPerBlock = 2 ^ (powPageSize - 2) := by
  rw [logAddressesPerBlock, pageSize_eq_four_mul]
  omega

theorem four_mul_logAddressesPerBlock : 4 * logAddressesPerBlock = pageSize := by
  rw [logAddressesPerBlock_eq, pageSize_eq_four_mul]

theorem logAddressesPerBlock_ge : 128 ≤ logAddressesPerBlock := by
  have := FsConfig.powPageSize_ge_nine
  rw [logAddressesPerBlock_eq]
  exact Nat.pow_le_pow_right (show 0 < 2 by decide) (show 7 ≤ powPageSize - 2 by omega)

theorem pageSize_ge : 512 ≤ pageSize := by
  have := logAddressesPerBlock_ge
  have := four_mul_logAddressesPerBlock
  omega

/-- The number of the first block under the double entry. -/
def firstDouble : Nat := directIndexEntries + logAddressesPerBlock

/-- The number of the first block under the triple entry. -/
def firstTriple : Nat := firstDouble + logAddressesPerBlock * logAddressesPerBlock

/-- The offset at which block `n` begins. -/
def blockOffset (n : Nat) : Int := inodeFileDataSize + n * fsBlockSize

theorem blockOffset_add (n k : Nat) : blockOffset (n + k) = blockOffset n + k * fsBlockSize := by
  rw [blockOffset, blockOffset]
  push_cast
  ring

theorem blockOffset_le_iff {n k : Nat} : blockOffset n ≤ blockOffset k ↔ n ≤ k := by
  rw [blockOffset, blockOffset, add_le_add_iff_left, mul_le_mul_iff_left₀ fsBlockSize_pos,
    Nat.cast_le]

theorem blockOffset_lt_iff {n k p : Nat} (hp : p < pageSize) :
    blockOffset n + p < blockOffset k ↔ n < k := by
  constructor
  · intro h
    by_contra hkn
    have := blockOffset_le_iff.mpr (Nat.le_of_not_lt hkn)
    omega
  · intro h
    have := blockOffset_le_iff.mpr (Nat.succ_le_of_lt h)
    have hs := blockOffset_add n 1
    rw [fsBlockSize] at hs
    rw [Nat.succ_eq_add_one] at this
    omega

theorem inodeFileDataSize_pos : 0 < inodeFileDataSize := by
  have hsize := pageSize_ge
  unfold inodeFileDataSize
  omega

theorem inodeFileDataSize_le_blockOffset (n : Nat) : inodeFileDataSize ≤ blockOffset n :=
  le_add_of_nonneg_right (mul_nonneg (Int.natCast_nonneg n) (Int.le_of_lt fsBlockSize_pos))

theorem inodeIndirectDataSize_eq :
    inodeIndirectDataSize = (logAddressesPerBlock : Int) * fsBlockSize := by
  rw [inodeIndirectDataSize, fsBlockSize, logAddressesPerBlock]
  norm_cast

theorem inodeDoubleDataSize_eq : inodeDoubleDataSize =
    ((logAddressesPerBlock * logAddressesPerBlock : Nat) : Int) * fsBlockSize := by
  have h := four_mul_logAddressesPerBlock
  have hq : inodeIndirectDataSize / 4 = logAddressesPerBlock * logAddressesPerBlock := by
    rw [inodeIndirectDataSize_eq, fsBlockSize, ← h]
    push_cast
    rw [show (logAddressesPerBlock : Int) * (4 * logAddressesPerBlock)
      = logAddressesPerBlock * logAddressesPerBlock * 4 by ring]
    exact Int.mul_ediv_cancel _ (by decide)
  rw [inodeDoubleDataSize, hq]
  push_cast
  rfl

theorem indirectDataOffset_eq : indirectDataOffset = blockOffset directIndexEntries := rfl

theorem doubleDataOffset_eq : doubleDataOffset = blockOffset firstDouble := by
  rw [doubleDataOffset, indirectDataOffset_eq, inodeIndirectDataSize_eq, firstDouble,
    blockOffset_add]

theorem tripleDataOffset_eq : tripleDataOffset = blockOffset firstTriple := by
  rw [tripleDataOffset, doubleDataOffset_eq, inodeDoubleDataSize_eq, firstTriple, blockOffset_add]

theorem cast_offset (n p : Nat) :
    ((n * pageSize + p : Nat) : Int) = (n : Int) * fsBlockSize + p := by
  rw [fsBlockSize]
  push_cast
  rfl

theorem calcOffsetFromIndirect_eq (n p : Nat) :
    calcOffsetFromIndirect (blockOffset (directIndexEntries + n) + p) =
      (n * pageSize + p : Nat) := by
  rw [calcOffsetFromIndirect, indirectDataOffset_eq, blockOffset_add, cast_offset]
  ring

theorem calcOffsetFromDouble_eq (n p : Nat) :
    calcOffsetFromDouble (blockOffset (firstDouble + n) + p) = (n * pageSize + p : Nat) := by
  rw [calcOffsetFromDouble, firstDouble, Nat.add_assoc, calcOffsetFromIndirect_eq,
    inodeIndirectDataSize_eq, cast_offset, cast_offset]
  push_cast
  ring

theorem calcOffsetFromTriple_eq (n p : Nat) :
    calcOffsetFromTriple (blockOffset (firstTriple + n) + p) = (n * pageSize + p : Nat) := by
  rw [calcOffsetFromTriple, firstTriple, Nat.add_assoc, calcOffsetFromDouble_eq,
    inodeDoubleDataSize_eq, cast_offset, cast_offset]
  push_cast
  ring

/-! ## Offsets within the tree -/

theorem pow_indirect :
    (2 : Int) ^ powInodeIndirectDataSize = ((pageSize * logAddressesPerBlock : Nat) : Int) := by
  rw [powInodeIndirectDataSize, pageSize, logAddressesPerBlock_eq, ← Nat.pow_add]
  push_cast
  congr 1
  omega

theorem pow_double : (2 : Int) ^ powInodeDoubleDataSize =
    ((pageSize * (logAddressesPerBlock * logAddressesPerBlock) : Nat) : Int) := by
  rw [powInodeDoubleDataSize, powInodeIndirectDataSize, pageSize, logAddressesPerBlock_eq,
    ← Nat.pow_add, ← Nat.pow_add]
  push_cast
  congr 1
  omega

variable {p : Nat}

theorem calcInBlocks_eq (n : Nat) (hp : p < pageSize) :
    calcInBlocks (n * pageSize + p : Nat) = n := by
  have hn := add_div_mul (n := n) hp 1
  rw [Nat.mul_one, Nat.div_one] at hn
  rw [calcInBlocks, show (2 : Int) ^ powPageSize = (pageSize : Nat) by simp [pageSize],
    ← Int.natCast_ediv, hn]

theorem calcInBlocks_blockOffset (n : Nat) :
    calcInBlocks (blockOffset n - inodeFileDataSize) = n := by
  have hoff : blockOffset n - inodeFileDataSize = ((n * pageSize + 0 : Nat) : Int) := by
    rw [cast_offset, blockOffset]
    ring
  rw [hoff, calcInBlocks_eq n pageSize_pos]

theorem calcOffsetInIndirectSize_eq (n : Nat) (hp : p < pageSize) :
    calcOffsetInIndirectSize (n * pageSize + p : Nat) =
      (n % logAddressesPerBlock * pageSize + p : Nat) := by
  rw [calcOffsetInIndirectSize, pow_indirect, ← Int.natCast_emod, add_mod_mul hp]

theorem calcOffsetInDoubleSize_eq (n : Nat) (hp : p < pageSize) :
    calcOffsetInDoubleSize (n * pageSize + p : Nat) =
      (n % (logAddressesPerBlock * logAddressesPerBlock) * pageSize + p : Nat) := by
  rw [calcOffsetInDoubleSize, pow_double, ← Int.natCast_emod, add_mod_mul hp]

theorem calcOffsetInDoubleBlock_eq (n : Nat) (hp : p < pageSize) :
    calcOffsetInDoubleBlock (n * pageSize + p : Nat) = (n / logAddressesPerBlock : Nat) := by
  rw [calcOffsetInDoubleBlock, pow_indirect, ← Int.natCast_ediv, add_div_mul hp]

theorem calcOffsetInTripleBlock_eq (n : Nat) (hp : p < pageSize) :
    calcOffsetInTripleBlock (n * pageSize + p : Nat) =
      (n / (logAddressesPerBlock * logAddressesPerBlock) : Nat) := by
  rw [calcOffsetInTripleBlock, pow_double, ← Int.natCast_ediv, add_div_mul hp]

theorem calcOffsetInFileBlock_eq (n : Nat) (hp : p < pageSize) :
    calcOffsetInFileBlock (blockOffset n + p) = p := by
  have hle : inodeFileDataSize ≤ blockOffset n + p := by
    have := mul_nonneg (Int.natCast_nonneg n) (Int.le_of_lt fsBlockSize_pos)
    rw [blockOffset]
    omega
  rw [calcOffsetInFileBlock, if_pos hle, blockOffset,
    show inodeFileDataSize + n * fsBlockSize + p - inodeFileDataSize = p + n * fsBlockSize by ring,
    Int.add_mul_emod_self_right, fsBlockSize]
  exact Int.emod_eq_of_lt (by omega) (by omega)

/-! ## The tree -/

namespace StoredFiles
variable (m : StoredFiles)

/-- The address in entry `i` of the block at `a`. -/
def entry (a : LogAddr) (i : Nat) : LogAddr := blockGetIndex (m.fsReadBlock a) i

/-- The address of block `n` of the file whose inode is at `inoAddr`, empty where the tree has
none. -/
def blockAddr (inoAddr : LogAddr) (n : Nat) : LogAddr :=
  let inode := m.fsReadBlock inoAddr
  let l := logAddressesPerBlock
  if n < directIndexEntries then inodeGetDirect inode n
  else if n < firstDouble then m.entry (inodeGetIndirect inode) (n - directIndexEntries)
  else if n < firstTriple then
    m.entry (m.entry (inodeGetDouble inode) ((n - firstDouble) / l)) ((n - firstDouble) % l)
  else
    let double := m.entry (inodeGetTriple inode) ((n - firstTriple) / (l * l))
    m.entry (m.entry double ((n - firstTriple) % (l * l) / l)) ((n - firstTriple) % l)

variable {m} {a : LogAddr} {n p : Nat}

theorem blockAddr_direct (h : n < directIndexEntries) :
    m.blockAddr a n = inodeGetDirect (m.fsReadBlock a) n := by
  simp only [blockAddr, if_pos h]

theorem blockAddr_indirect {c : Nat} (hc : c < logAddressesPerBlock) :
    m.blockAddr a (directIndexEntries + c) =
      m.entry (inodeGetIndirect (m.fsReadBlock a)) c := by
  have h : ¬directIndexEntries + c < directIndexEntries := by omega
  have h' : directIndexEntries + c < firstDouble := by rw [firstDouble]; omega
  simp only [blockAddr, if_neg h, if_pos h', Nat.add_sub_cancel_left]

theorem blockAddr_double {d : Nat} (hd : d < logAddressesPerBlock * logAddressesPerBlock) :
    m.blockAddr a (firstDouble + d) =
      m.entry (m.entry (inodeGetDouble (m.fsReadBlock a)) (d / logAddressesPerBlock))
        (d % logAddressesPerBlock) := by
  have h : ¬firstDouble + d < directIndexEntries := by rw [firstDouble]; omega
  have h' : ¬firstDouble + d < firstDouble := by omega
  have h'' : firstDouble + d < firstTriple := by rw [firstTriple]; omega
  simp only [blockAddr, if_neg h, if_neg h', if_pos h'', Nat.add_sub_cancel_left]

theorem blockAddr_triple (t : Nat) :
    m.blockAddr a (firstTriple + t) =
      m.entry (m.entry (m.entry (inodeGetTriple (m.fsReadBlock a))
        (t / (logAddressesPerBlock * logAddressesPerBlock)))
        (t % (logAddressesPerBlock * logAddressesPerBlock) / logAddressesPerBlock))
        (t % logAddressesPerBlock) := by
  have h : ¬firstTriple + t < directIndexEntries := by rw [firstTriple, firstDouble]; omega
  have h' : ¬firstTriple + t < firstDouble := by rw [firstTriple]; omega
  have h'' : ¬firstTriple + t < firstTriple := by omega
  simp only [blockAddr, if_neg h, if_neg h', if_neg h'', Nat.add_sub_cancel_left]

theorem blockAddr_double_at {i j : Nat} (hi : i < logAddressesPerBlock)
    (hj : j < logAddressesPerBlock) :
    m.blockAddr a (firstDouble + (i * logAddressesPerBlock + j)) =
      m.entry (m.entry (inodeGetDouble (m.fsReadBlock a)) i) j := by
  obtain ⟨hdiv, hmod⟩ := div_mod_at (i := i) hj
  rw [blockAddr_double (at_lt hi hj), hdiv, hmod]

theorem exists_double_path {d : Nat} (hd : d < logAddressesPerBlock * logAddressesPerBlock) :
    ∃ i j, i < logAddressesPerBlock ∧ j < logAddressesPerBlock ∧
      d = i * logAddressesPerBlock + j :=
  ⟨d / logAddressesPerBlock, d % logAddressesPerBlock, Nat.div_lt_of_lt_mul hd,
    Nat.mod_lt d (Nat.lt_of_lt_of_le (by decide) logAddressesPerBlock_ge),
    (Nat.div_add_mod' d _).symm⟩

theorem exists_triple_path (u : Nat) : ∃ i j k, j < logAddressesPerBlock ∧
    k < logAddressesPerBlock ∧
    u = i * (logAddressesPerBlock * logAddressesPerBlock) + (j * logAddressesPerBlock + k) := by
  have hl : 0 < logAddressesPerBlock := Nat.lt_of_lt_of_le (by decide) logAddressesPerBlock_ge
  refine ⟨u / (logAddressesPerBlock * logAddressesPerBlock),
    u % (logAddressesPerBlock * logAddressesPerBlock) / logAddressesPerBlock,
    u % logAddressesPerBlock, ?_, Nat.mod_lt _ hl, ?_⟩
  · exact Nat.div_lt_of_lt_mul (Nat.mod_lt _ (Nat.mul_pos hl hl))
  · have hu := Nat.div_add_mod' u (logAddressesPerBlock * logAddressesPerBlock)
    have hv := Nat.div_add_mod' (u % (logAddressesPerBlock * logAddressesPerBlock))
      logAddressesPerBlock
    rw [Nat.mod_mul_right_mod] at hv
    omega

theorem blockAddr_triple_at {i j k : Nat} (hj : j < logAddressesPerBlock)
    (hk : k < logAddressesPerBlock) :
    m.blockAddr a
      (firstTriple + (i * (logAddressesPerBlock * logAddressesPerBlock)
        + (j * logAddressesPerBlock + k))) =
      m.entry (m.entry (m.entry (inodeGetTriple (m.fsReadBlock a)) i) j) k := by
  have hjk : j * logAddressesPerBlock + k < logAddressesPerBlock * logAddressesPerBlock := by
    calc
      j * logAddressesPerBlock + k < j * logAddressesPerBlock + logAddressesPerBlock := by omega
      _ = (j + 1) * logAddressesPerBlock := by ring
      _ ≤ logAddressesPerBlock * logAddressesPerBlock := Nat.mul_le_mul_right _ hj
  have hi := Nat.mul_add_div (m := logAddressesPerBlock * logAddressesPerBlock) (by omega) i
    (j * logAddressesPerBlock + k)
  have hij := Nat.mul_add_mod (logAddressesPerBlock * logAddressesPerBlock) i
    (j * logAddressesPerBlock + k)
  have hdiv := Nat.mul_add_div (m := logAddressesPerBlock) (by omega) j k
  have hmod := Nat.mul_add_mod logAddressesPerBlock
    (i * logAddressesPerBlock + j) k
  rw [Nat.mul_comm, Nat.div_eq_of_lt hjk, Nat.add_zero] at hi
  rw [Nat.mul_comm, Nat.mod_eq_of_lt hjk] at hij
  rw [Nat.mul_comm, Nat.div_eq_of_lt hk, Nat.add_zero] at hdiv
  rw [Nat.mod_eq_of_lt hk, show logAddressesPerBlock * (i * logAddressesPerBlock + j) + k
    = i * (logAddressesPerBlock * logAddressesPerBlock) + (j * logAddressesPerBlock + k) by
      ring] at hmod
  rw [blockAddr_triple, hi, hij, hdiv, hmod]

/-- A block that is at no particular place lies under one of the four kinds of entry. -/
theorem number_cases (n : Nat) : n < directIndexEntries ∨
    (∃ c < logAddressesPerBlock, n = directIndexEntries + c) ∨
    (∃ d < logAddressesPerBlock * logAddressesPerBlock, n = firstDouble + d) ∨
    ∃ t, n = firstTriple + t := by
  by_cases h : n < directIndexEntries
  · exact .inl h
  by_cases h' : n < firstDouble
  · refine .inr (.inl ⟨n - directIndexEntries, ?_, by omega⟩)
    rw [firstDouble] at h'
    omega
  by_cases h'' : n < firstTriple
  · refine .inr (.inr (.inl ⟨n - firstDouble, ?_, by omega⟩))
    rw [firstTriple] at h''
    omega
  · exact .inr (.inr (.inr ⟨n - firstTriple, by omega⟩))

theorem entry_in_indirect {n k : Nat} (hp : p < pageSize)
    (hn : n % logAddressesPerBlock = k % logAddressesPerBlock) :
    (calcInBlocks (calcOffsetInIndirectSize
      (calcOffsetFromIndirect (blockOffset (directIndexEntries + n) + p)))).toNat =
      k % logAddressesPerBlock := by
  rw [calcOffsetFromIndirect_eq, calcOffsetInIndirectSize_eq _ hp, calcInBlocks_eq _ hp,
    Int.toNat_natCast, hn]

theorem readFromInode_eq {inoNum : BitVec 32} (hin : inoNum ≠ 0) (hp : p < pageSize)
    (hsize : blockOffset n + p ≤ (inodeGetNbytes (m.fsReadBlock a)).toNat)
    (ha : isAddrEmpty a = false) :
    m.readFromInode (m.fsReadBlock a) inoNum (blockOffset n + p) a =
      ⟨0, m.fsReadBlock (m.blockAddr a n), a⟩ := by
  have hdata : ¬blockOffset n + p < inodeFileDataSize := by
    have := mul_nonneg (Int.natCast_nonneg n) (Int.le_of_lt fsBlockSize_pos)
    rw [blockOffset]
    omega
  have hstart : blockOffset n + p - calcOffsetInFileBlock (blockOffset n + p)
      = blockOffset n + (0 : Nat) := by
    rw [calcOffsetInFileBlock_eq n hp]
    omega
  have hzero := pageSize_pos
  simp only [readFromInode, if_neg (not_lt.mpr hsize), if_neg hdata, hin, false_and, if_false,
    indirectDataOffset_eq, blockOffset_lt_iff hp, hstart, readIndirectToBuffer, ha,
    doubleDataOffset_eq, tripleDataOffset_eq, blockOffset_lt_iff hzero, Bool.false_eq_true]
  rcases number_cases n with h | ⟨c, hc, rfl⟩ | ⟨d, hd, rfl⟩ | ⟨t, rfl⟩
  · rw [if_pos h, blockAddr_direct h, show blockOffset n + p - inodeFileDataSize
      = (n * pageSize + p : Nat) by rw [blockOffset, cast_offset]; ring, calcInBlocks_eq n hp,
      Int.toNat_natCast]
  · have h : ¬directIndexEntries + c < directIndexEntries := by omega
    have h' : directIndexEntries + c < firstDouble := by rw [firstDouble]; omega
    rw [if_neg h, if_pos h', if_neg h, blockAddr_indirect hc, entry_in_indirect hp rfl,
      Nat.mod_eq_of_lt hc, entry]
  · have h : ¬firstDouble + d < directIndexEntries := by rw [firstDouble]; omega
    have h' : ¬firstDouble + d < firstDouble := by omega
    have h'' : firstDouble + d < firstTriple := by rw [firstTriple]; omega
    have hd' : blockOffset (firstDouble + d) + (0 : Nat) - blockOffset firstDouble
        = (d * pageSize + 0 : Nat) := by
      rw [blockOffset_add, cast_offset]
      ring
    have hk := entry_in_indirect (n := logAddressesPerBlock + d) (k := d) hp (Nat.add_mod_left ..)
    rw [← Nat.add_assoc, ← firstDouble] at hk
    rw [if_neg h, if_neg h, if_neg h', if_pos h'', hd', calcOffsetInDoubleBlock_eq d hzero,
      Int.toNat_natCast, hk, blockAddr_double hd, entry, entry]
  · have h : ¬firstTriple + t < directIndexEntries := by rw [firstTriple, firstDouble]; omega
    have h' : ¬firstTriple + t < firstDouble := by rw [firstTriple]; omega
    have h'' : ¬firstTriple + t < firstTriple := by omega
    have ht : blockOffset (firstTriple + t) + (0 : Nat) - blockOffset firstTriple
        = (t * pageSize + 0 : Nat) := by
      rw [blockOffset_add, cast_offset]
      ring
    have hmod : (logAddressesPerBlock + (logAddressesPerBlock * logAddressesPerBlock + t))
        % logAddressesPerBlock = t % logAddressesPerBlock := by
      rw [Nat.add_mod_left, Nat.mul_add_mod]
    have hk := entry_in_indirect (k := t) hp hmod
    rw [← Nat.add_assoc, ← Nat.add_assoc, ← firstDouble, ← firstTriple] at hk
    rw [if_neg h, if_neg h, if_neg h', if_neg h'', ht, calcOffsetInTripleBlock_eq t hzero,
      Int.toNat_natCast, calcOffsetInDoubleSize_eq t hzero, calcOffsetInDoubleBlock_eq _ hzero,
      Int.toNat_natCast, hk, blockAddr_triple, entry, entry, entry]

theorem readFileBlock_eq {inoNum : BitVec 32} (hin : inoNum ≠ 0) (hidle : inoNum ∉ m.involved)
    (hp : p < pageSize) (hmax : blockOffset n + p ≤ fsMaxFilesize)
    (hsize : blockOffset n + p ≤ (inodeGetNbytes (m.fsReadBlock a)).toNat)
    (ha : isAddressEmpty a = false) :
    m.readFileBlock inoNum (blockOffset n + p) a = ⟨0, m.fsReadBlock (m.blockAddr a n), a⟩ := by
  have ha' : isAddrEmpty a = false := by
    rw [isAddrEmpty_eq_false]
    rintro rfl
    simp [isAddressEmpty, LogAddr.empty] at ha
  have hidle' : m.involved.contains inoNum = false := by simpa using hidle
  have hdata := inodeFileDataSize_pos
  have hle := inodeFileDataSize_le_blockOffset n
  have hinside : ¬(blockOffset n + p < 0 ∨ fsMaxFilesize < blockOffset n + p) := by omega
  rw [readFileBlock, readInodeBlock, if_neg hin, ha, if_neg Bool.false_ne_true, readFileBlockOf,
    hidle', if_neg Bool.false_ne_true, if_neg hinside, if_neg (by simp)]
  exact readFromInode_eq hin hp hsize ha'

end StoredFiles

end Numbers

end NandFs
