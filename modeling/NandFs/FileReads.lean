import NandFs.BlockCount
import NandFs.ReaddirRuns
import NandFs.MutexReleased
import NandFs.Machines
import Mathlib.Algebra.Order.BigOperators.Group.List

/-! # Reading files

A file that no transaction has is a stream of bytes: the first ones are kept in its inode, the
others in the blocks of its tree, where what has no block reads as erased.  `nandfs_read` copies
block after block into the caller's buffer, which comes to copying the bytes from the offset on, as
many as there are.  Each open file is read from an offset of its own.
-/
namespace NandFs

open Program FileTables

/-- The buffer with the first `n` bytes from place `at_` of `byte` on. -/
def readInto (byte : Nat → UInt8) (at_ n : Int) (buf : Nat → UInt8) : Nat → UInt8 := fun j =>
  if (j : Int) < n then byte (at_ + j).toNat else buf j

section Bytes
variable [Config] {byte buf : Nat → UInt8} {at_ n len from_ : Int} {block : Block}

/-- What is copied behind the first bytes is read with them, where the block holds what follows. -/
theorem copyToBuf_readInto (hlen : 0 ≤ len)
    (hblock : ∀ i : Int, 0 ≤ i → i < len →
      block.byte (from_ + i).toNat = byte (at_ + n + i).toNat) :
    copyToBuf (readInto byte at_ n buf) n block from_ len = readInto byte at_ (n + len) buf := by
  funext j
  unfold copyToBuf readInto
  by_cases hold : (j : Int) < n
  · rw [if_neg (by omega), if_pos hold, if_pos (by omega)]
  · by_cases hnew : (j : Int) < n + len
    · rw [if_pos ⟨by omega, hnew⟩, if_pos hnew, hblock (j - n) (by omega) (by omega)]
      congr 2
      omega
    · rw [if_neg (by omega), if_neg hold, if_neg hnew]

omit [Config] in
theorem readInto_zero : readInto byte at_ 0 buf = buf := by
  funext j
  rw [readInto, if_neg (by omega)]

end Bytes

section Files
variable [FsConfig]

/-! ## The bytes of a file -/

namespace StoredFiles
variable (m : StoredFiles)

/-- The size in the inode at `a` -/
def size (a : LogAddr) : Int := (inodeGetNbytes (m.fsReadBlock a)).toInt

/-- Byte `k` of the file whose inode is at `a` -/
def fileByte (a : LogAddr) (k : Nat) : UInt8 :=
  if (k : Int) < inodeFileDataSize then (m.fsReadBlock a).byte k
  else
    let k := k - inodeFileDataSize.toNat
    (m.fsReadBlock (m.blockAddr a (k / pageSize))).byte (k % pageSize)

/-- A file that no transaction has: its inode is found at `a`, and its size is one that a file can
have. -/
structure IsFile (inoNum : BitVec 32) (a : LogAddr) : Prop where
  inoNum_ne : inoNum ≠ 0
  idle : inoNum ∉ m.involved
  inoAddr : isAddressEmpty a = false
  found : m.readFileBlock 0 (inodeFileDataSize + (inoNum.toInt - 1) * fsBlockSize) LogAddr.empty =
    ⟨0, m.fsReadBlock a, a⟩
  size_nonneg : 0 ≤ m.size a
  size_le : m.size a ≤ fsMaxFilesize

variable {m} {inoNum : BitVec 32} {a b : LogAddr} {offset : Int}

theorem fileByte_data (h0 : 0 ≤ offset) (h : offset < inodeFileDataSize) :
    m.fileByte a offset.toNat = (m.fsReadBlock a).byte offset.toNat := by
  rw [fileByte, if_pos (by omega)]

theorem fileByte_block (n : Nat) {p : Nat} (hp : p < pageSize) :
    m.fileByte a (blockOffset n + p).toNat = (m.fsReadBlock (m.blockAddr a n)).byte p := by
  have hdata := inodeFileDataSize_pos
  have hplace : (blockOffset n + p).toNat - inodeFileDataSize.toNat = n * pageSize + p := by
    have hcast := cast_offset n p
    rw [blockOffset]
    omega
  have hge : ¬((blockOffset n + p).toNat : Int) < inodeFileDataSize := by
    have := inodeFileDataSize_le_blockOffset n
    omega
  have hdiv := add_div_mul (n := n) hp 1
  have hmod := add_mod_mul (n := n) hp 1
  rw [Nat.mul_one, Nat.div_one] at hdiv
  rw [Nat.mul_one, Nat.mod_one, Nat.zero_mul, Nat.zero_add] at hmod
  rw [fileByte, if_neg hge]
  simp only [hplace, hdiv, hmod]

namespace IsFile

theorem nbytes (h : m.IsFile inoNum a) :
    ((inodeGetNbytes (m.fsReadBlock a)).toNat : Int) = m.size a := by
  have h0 := h.size_nonneg
  rw [size, BitVec.toInt_eq_toNat_cond] at h0
  rw [size, BitVec.toInt_eq_toNat_cond]
  split at h0
  · rw [if_pos ‹_›]
  · omega

theorem fileSize (h : m.IsFile inoNum a) : m.fileSize inoNum = m.size a := by
  have hidle : m.involved.contains inoNum = false := by simpa using h.idle
  simp only [StoredFiles.fileSize, hidle, h.found, size, Bool.false_eq_true, if_false, ne_eq,
    not_true_eq_false]

/-- The inode is read, also where its address is not known yet. -/
theorem readInodeBlock (h : m.IsFile inoNum a) (hb : b = LogAddr.empty ∨ b = a) :
    m.readInodeBlock inoNum b = ⟨0, m.fsReadBlock a, a⟩ := by
  rw [StoredFiles.readInodeBlock, if_neg h.inoNum_ne]
  rcases hb with rfl | rfl
  · rw [if_pos (by rfl), ← h.found]
    simp [readFileBlock, StoredFiles.readInodeBlock]
  · rw [h.inoAddr, if_neg Bool.false_ne_true]

theorem readFileBlock_eq (h : m.IsFile inoNum a) (hb : b = LogAddr.empty ∨ b = a) :
    m.readFileBlock inoNum offset b = m.readFileBlock inoNum offset a := by
  rw [readFileBlock, readFileBlock, h.readInodeBlock hb, h.readInodeBlock (.inr rfl)]

/-- The data kept in the inode are read. -/
theorem readFileBlock_data (h : m.IsFile inoNum a) (hb : b = LogAddr.empty ∨ b = a)
    (h0 : 0 ≤ offset) (hle : offset ≤ m.size a) (hdata : offset < inodeFileDataSize) :
    ∃ block : Block, m.readFileBlock inoNum offset b = ⟨0, block, a⟩ ∧
      ∀ i : Int, 0 ≤ i → i < inodeFileDataSize → block.byte i.toNat = m.fileByte a i.toNat := by
  have hidle : m.involved.contains inoNum = false := by simpa using h.idle
  have hinside : ¬(offset < 0 ∨ fsMaxFilesize < offset) :=
    not_or.mpr ⟨not_lt.mpr h0, not_lt.mpr (hle.trans h.size_le)⟩
  have hnbytes : ¬((inodeGetNbytes (m.fsReadBlock a)).toNat : Int) < offset := by
    rw [h.nbytes]
    exact not_lt.mpr hle
  refine ⟨fun j => if (j : Int) < inodeFileDataSize then m.fsReadBlock a j else 0xff, ?_,
    fun i h0 hi => ?_⟩
  · rw [readFileBlock, h.readInodeBlock hb, readFileBlockOf, hidle, if_neg Bool.false_ne_true,
      if_neg hinside, if_neg (by simp), readFromInode, if_neg hnbytes, if_pos hdata]
  · have hsize : i.toNat < pageSize := by
      unfold inodeFileDataSize at hi
      omega
    rw [fileByte_data h0 hi, Block.byte, Block.byte, dif_pos hsize, dif_pos hsize]
    exact if_pos (show (i.toNat : Int) < inodeFileDataSize by omega)

/-- A block of the tree is read. -/
theorem readFileBlock_block (h : m.IsFile inoNum a) (hb : b = LogAddr.empty ∨ b = a) {n p : Nat}
    (hp : p < pageSize) (hle : blockOffset n + p ≤ m.size a) : ∃ block : Block,
      m.readFileBlock inoNum (blockOffset n + p) b = ⟨0, block, a⟩ ∧
      ∀ q < pageSize, block.byte q = m.fileByte a (blockOffset n + q).toNat := by
  refine ⟨_, ?_, fun q hq => (fileByte_block n hq).symm⟩
  rw [h.readFileBlock_eq hb]
  exact StoredFiles.readFileBlock_eq h.inoNum_ne h.idle hp (hle.trans h.size_le)
    (by rw [h.nbytes]; exact hle) h.inoAddr

end IsFile

end StoredFiles

/-! ## `nandfs_read` -/

section Read
variable {m : StoredFiles} {inoNum : BitVec 32} {a b : LogAddr} {fd offset : Int}
  {buf : Nat → UInt8} {s : FileSystem StoredFiles}

omit [FsConfig] in
theorem openFileIncOffset_add (hfd : fd ≠ fsErrorFentryMax) (t : FileTables) (k l : Int) :
    (t.openFileIncOffset fd k).openFileIncOffset fd l = t.openFileIncOffset fd (k + l) := by
  simp [openFileIncOffset_of_ne hfd, openFileSetOffset_of_ne hfd, Int.add_assoc]

omit [FsConfig] in
theorem openFileIncOffset_zero (hfd : fd ≠ fsErrorFentryMax) (t : FileTables) :
    t.openFileIncOffset fd 0 = t := by
  simp [openFileIncOffset_of_ne hfd, openFileSetOffset_of_ne hfd]

/-- A call that moves an offset returns. -/
theorem modifyTables_sysReturn {β : Type} (hheld : s.mutex = true) (f : FileTables → FileTables)
    (err res : β) : ((modifyTables f : FsM StoredFiles Unit) >>= fun _ => sysReturn err res) s =
      .ok res { s with tables := f s.tables, mutex := false } :=
  have hmoved : ({ s with tables := f s.tables } : FileSystem StoredFiles).mutex = true := hheld
  (bind_ok (show (modifyTables f : FsM StoredFiles Unit) s = .ok () _ from rfl)).trans
    (fsMutexUnlock_held hmoved)

/-- The bytes from the offset on are in one block, from this place on: in the inode, or in a block
of the tree. -/
def InOneBlock (offset place len : Int) : Prop :=
  (0 ≤ offset ∧ place = offset ∧ offset + len ≤ inodeFileDataSize ∧ offset < inodeFileDataSize) ∨
    ∃ k p : Nat, p < pageSize ∧ offset = blockOffset k + p ∧ place = p ∧ p + len ≤ fsBlockSize

/-- Reading one block at the offset, behind what was read. -/
theorem readFileBlock_bind {β : Type} (hfile : m.IsFile inoNum a) (hs : s.storage = m)
    (hb : b = LogAddr.empty ∨ b = a) (hle : offset ≤ m.size a) (tid : Int)
    {from_ at_ n len : Int} (hlen : 0 ≤ len) (hat : at_ + n = offset)
    (hplace : InOneBlock offset from_ len) (buf : Nat → UInt8)
    (next : BlockRead → FsM StoredFiles β) : ∃ block : Block,
      (onStorage (Storage.readFileBlock inoNum offset b tid) >>= next) s =
        next ⟨0, block, a⟩ s ∧
      copyToBuf (readInto (fun k => m.fileByte a k) at_ n buf) n block from_ len =
        readInto (fun k => m.fileByte a k) at_ (n + len) buf := by
  have hrun : ∀ block, m.readFileBlock inoNum offset b = ⟨0, block, a⟩ →
      (onStorage (Storage.readFileBlock inoNum offset b tid) >>= next) s =
        next ⟨0, block, a⟩ s := by
    intro block hblock
    have hread : (onStorage (Storage.readFileBlock inoNum offset b tid) : FsM StoredFiles _) s =
        .ok (m.readFileBlock inoNum offset b) s := by
      rw [← hs]
      rfl
    rw [bind_ok hread, hblock]
  rcases hplace with ⟨h0, rfl, hend, hdata⟩ | ⟨k, p, hp, rfl, rfl, hend⟩
  · obtain ⟨block, hblock, hbytes⟩ := hfile.readFileBlock_data hb (by omega) hle hdata
    refine ⟨block, hrun block hblock, copyToBuf_readInto hlen fun i hi0 hi => ?_⟩
    rw [hbytes _ (by omega) (by omega), hat]
  · obtain ⟨block, hblock, hbytes⟩ := hfile.readFileBlock_block hb hp hle
    refine ⟨block, hrun block hblock, copyToBuf_readInto hlen fun i hi0 hi => ?_⟩
    unfold fsBlockSize at hend
    rw [hbytes _ (by omega), hat]
    congr 2
    omega

/-- The last block, where the offset is that of a block or nothing is left to read. -/
theorem readLast_eq (hfd : fd ≠ fsErrorFentryMax) (hfile : m.IsFile inoNum a) (hs : s.storage = m)
    (hheld : s.mutex = true) {start bytesRead tempCount readSize left : Int} (tid : Int)
    (hoff : (s.tables.openFiles fd).offset = start + bytesRead)
    (hat : left = 0 ∨ ∃ n : Nat, start + bytesRead = blockOffset n) (hsize : 0 ≤ readSize)
    (htemp : 0 ≤ tempCount) (hleft : left = min readSize tempCount) (hblock : left ≤ fsBlockSize)
    (hend : start + bytesRead + left ≤ m.size a) :
    readLast fd tid inoNum a (readInto (fun k => m.fileByte a k) start bytesRead buf) bytesRead
        tempCount readSize s =
      .ok (bytesRead + left, readInto (fun k => m.fileByte a k) start (bytesRead + left) buf)
        { s with tables := s.tables.openFileIncOffset fd left, mutex := false } := by
  unfold readLast
  rw [bind_ok (show (getTables : FsM StoredFiles _) s = .ok s.tables s from rfl)]
  by_cases hnone : readSize = 0 ∨ tempCount = 0
  · obtain rfl : left = 0 := by omega
    rw [if_pos hnone, sysReturn, fsMutexUnlock_held hheld, openFileIncOffset_zero hfd,
      Int.add_zero]
    rfl
  · obtain ⟨n, hn⟩ := hat.resolve_left (by omega)
    have hlast : (if tempCount < readSize then tempCount else readSize) = left := by
      rw [hleft]
      split <;> omega
    obtain ⟨block, hread, hcopy⟩ := readFileBlock_bind hfile hs (.inr rfl)
      (show start + bytesRead ≤ m.size a by omega) tid (show 0 ≤ left by omega) rfl
      (.inr ⟨n, 0, pageSize_pos, by omega, Nat.cast_zero.symm, by omega⟩) buf _
    rw [if_neg hnone, hoff, hread]
    simp only [sysVerify, beq_self_eq_true, if_true, hlast, hcopy]
    exact modifyTables_sysReturn hheld _ _ _

omit [FsConfig] in
/-- What is read with a whole block before it. -/
theorem add_min_sub (size tempCount room : Int) :
    size + min (tempCount - size) (room - size) = min tempCount room := by
  omega

omit [FsConfig] in
/-- What is read with the last block. -/
theorem last_size {size room tempCount readSize : Int}
    (hmore : ¬(size < tempCount ∧ readSize = size)) (hblock : readSize ≤ size)
    (hmin : min readSize tempCount = min (min size tempCount) room) :
    min tempCount room = min readSize tempCount := by
  rcases le_or_gt tempCount size with hle | hgt
  · rw [hmin, min_eq_right hle]
  · have hshort : readSize < size := lt_of_le_of_ne hblock fun heq => hmore ⟨hgt, heq⟩
    rw [min_eq_left hgt.le] at hmin
    rw [min_eq_left (hshort.trans hgt).le] at hmin ⊢
    have hroom : room = readSize := by
      rcases min_choice size room with hm | hm
      · exact absurd (hmin.trans hm) hshort.ne
      · rw [hmin, hm]
    rw [hroom, min_eq_right (hshort.trans hgt).le]

omit [FsConfig] in
/-- What holds of the sizes after a whole block, once the next read is cut at the end. -/
theorem next_sizes {size tempCount at_ next end_ : Int} (hpos : 0 < size) (hlong : size < tempCount)
    (hend : at_ + size ≤ end_) (hnext : next = at_ + size) :
    (tempCount - size).toNat < tempCount.toNat ∧ 0 ≤ min size (end_ - next) ∧
      0 ≤ tempCount - size ∧ next + min size (end_ - next) ≤ end_ ∧
      min (min size (end_ - next)) (tempCount - size) =
        min (min size (tempCount - size)) (end_ - next) := by
  refine ⟨by omega, by omega, by omega, by omega, ?_⟩
  rw [min_right_comm]

omit [FsConfig] in
theorem ite_lt_eq_min (k l : Int) : (if k < l then k else l) = min k l := by
  split <;> omega

omit [FsConfig] in
theorem cutAtEof_eq (fileOffset readSize fSize : Int) :
    cutAtEof fileOffset readSize fSize = min readSize (fSize - fileOffset) := by
  unfold cutAtEof
  split <;> omega

/-- The blocks that follow are read up to the end of the file, or as many bytes as are asked for. -/
theorem readBlocks_eq (hfd : fd ≠ fsErrorFentryMax) (hfile : m.IsFile inoNum a)
    (hs : s.storage = m) (hheld : s.mutex = true) {start bytesRead tempCount readSize : Int}
    (tid : Int) (buf : Nat → UInt8)
    (hoff : (s.tables.openFiles fd).offset = start + bytesRead)
    (hat : min readSize tempCount = 0 ∨ ∃ n : Nat, start + bytesRead = blockOffset n)
    (hsize : 0 ≤ readSize) (htemp : 0 ≤ tempCount) (hblock : readSize ≤ fsBlockSize)
    (hend : start + bytesRead + readSize ≤ m.size a)
    (hmin : min readSize tempCount =
      min (min fsBlockSize tempCount) (m.size a - (start + bytesRead))) :
    readBlocks fd tid inoNum (m.size a) a
        (readInto (fun k => m.fileByte a k) start bytesRead buf) bytesRead tempCount readSize s =
      .ok (bytesRead + min tempCount (m.size a - (start + bytesRead)),
          readInto (fun k => m.fileByte a k) start
            (bytesRead + min tempCount (m.size a - (start + bytesRead))) buf)
        { s with
          tables := s.tables.openFileIncOffset fd
            (min tempCount (m.size a - (start + bytesRead)))
          mutex := false } := by
  induction hk : tempCount.toNat using Nat.strong_induction_on
    generalizing s bytesRead tempCount readSize with
  | _ k ih =>
    have hpos := fsBlockSize_pos
    rw [readBlocks]
    by_cases hmore : fsBlockSize < tempCount ∧ readSize = fsBlockSize
    · obtain ⟨hlong, rfl⟩ := hmore
      have hsome : min fsBlockSize tempCount ≠ 0 := by
        rw [min_eq_left hlong.le]
        exact hpos.ne'
      obtain ⟨n, hn⟩ := hat.resolve_left hsome
      have hnext : start + (bytesRead + fsBlockSize) = blockOffset (n + 1) := by
        rw [blockOffset_add, ← hn, Nat.cast_one, one_mul, add_assoc]
      have hwithin : start + bytesRead ≤ m.size a := by omega
      have hroom : fsBlockSize ≤ m.size a - (start + bytesRead) := by omega
      obtain ⟨block, hread, hcopy⟩ := readFileBlock_bind hfile hs (.inr rfl) hwithin tid hsize rfl
        (.inr ⟨n, 0, pageSize_pos, by rw [hn, Nat.cast_zero, add_zero], Nat.cast_zero.symm,
          by rw [Nat.cast_zero, zero_add]⟩) buf _
      rw [dif_pos ⟨hlong, rfl⟩,
        bind_ok (show (getTables : FsM StoredFiles _) s = .ok s.tables s from rfl), hoff, hread]
      simp only [sysVerify, beq_self_eq_true, if_true, hcopy, cutAtEof_eq]
      rw [bind_ok (show (modifyTables _ : FsM StoredFiles Unit) s = .ok () _ from rfl)]
      have hoff' : ((s.tables.openFileIncOffset fd fsBlockSize).openFiles fd).offset =
          start + (bytesRead + fsBlockSize) := by
        rw [offset_openFileIncOffset hfd, hoff, add_assoc]
      have hassoc : start + bytesRead + fsBlockSize = start + (bytesRead + fsBlockSize) :=
        add_assoc ..
      obtain ⟨hless, hsize', htemp', hend', hmin'⟩ := next_sizes hpos hlong hend hassoc.symm
      have hrest := ih (tempCount - fsBlockSize).toNat (hk ▸ hless)
        (show ({ s with tables := s.tables.openFileIncOffset fd fsBlockSize } :
          FileSystem StoredFiles).storage = m from hs) hheld hoff' (.inr ⟨n + 1, hnext⟩) hsize'
        htemp' (min_le_left _ _) hend' hmin' rfl
      rw [openFileIncOffset_add hfd, ← hassoc, ← sub_sub, add_min_sub, add_assoc,
        add_min_sub] at hrest
      rw [← sub_sub]
      exact hrest
    · rw [dif_neg hmore, last_size hmore hblock hmin]
      exact readLast_eq hfd hfile hs hheld tid hoff hat hsize htemp rfl
        ((min_le_left _ _).trans hblock) ((add_le_add_right (min_le_left _ _) _).trans hend)

/-- The first read goes to the end of its block, of the file, or of what is asked for. -/
theorem firstRead_eq (h0 : 0 ≤ offset) (count fSize : Int) : ∃ place room : Int,
    firstRead offset count fSize = (min (min room count) (fSize - offset), place) ∧ 0 < room ∧
      (∃ n : Nat, offset + room = blockOffset n) ∧
      ∀ len ≤ room, InOneBlock offset place len := by
  by_cases hdata : offset < inodeFileDataSize
  · refine ⟨offset, inodeFileDataSize - offset, ?_, sub_pos.mpr hdata, ⟨0, ?_⟩, fun len hlen => ?_⟩
    · simp only [firstRead, if_pos hdata, cutAtEof_eq, ite_lt_eq_min]
    · simp [blockOffset]
    · exact .inl ⟨h0, rfl, by rw [add_comm]; exact le_sub_iff_add_le.mp hlen, hdata⟩
  · obtain ⟨n, hn, hpos, hlt⟩ := FileTransaction.exists_blockOffset (not_lt.mp hdata)
    refine ⟨calcOffsetInFileBlock offset, fsBlockSize - calcOffsetInFileBlock offset, ?_,
      sub_pos.mpr hlt, ⟨n + 1, ?_⟩, fun len hlen =>
        .inr ⟨n, (calcOffsetInFileBlock offset).toNat, ?_, ?_, (Int.toNat_of_nonneg hpos).symm, ?_⟩⟩
    · simp only [firstRead, if_neg hdata, cutAtEof_eq, ite_lt_eq_min]
    · rw [blockOffset_add, ← hn]
      push_cast
      ring
    · rw [fsBlockSize] at hlt
      exact (Int.toNat_lt hpos).mpr hlt
    · rw [Int.toNat_of_nonneg hpos, ← hn, sub_add_cancel]
    · rw [Int.toNat_of_nonneg hpos, add_comm]
      exact le_sub_iff_add_le.mp hlen

omit [FsConfig] in
/-- What holds of the sizes after the first read. -/
theorem first_sizes {room size count left k : Int} (hroom : 0 < room) (hsize : 0 < size)
    (hcount : 0 ≤ count) (hleft : 0 ≤ left) (hk : k = min (min room count) left) :
    0 ≤ k ∧ k ≤ room ∧ k ≤ left ∧ 0 ≤ min (min size (count - k)) (left - k) ∧ 0 ≤ count - k ∧
      min (min size (count - k)) (left - k) ≤ size ∧
      (k = room ∨ min (min (min size (count - k)) (left - k)) (count - k) = 0) ∧
      min (min (min size (count - k)) (left - k)) (count - k) =
        min (min size (count - k)) (left - k) := by
  refine ⟨by omega, by omega, by omega, by omega, by omega, by omega, by omega, by omega⟩

theorem getFileSize_run (hfile : m.IsFile inoNum a) (hs : s.storage = m) :
    (onStorage (Storage.getFileSize inoNum) : FsM StoredFiles _) s = .ok (m.size a) s := by
  rw [← hfile.fileSize, ← hs]
  rfl

/-- A descriptor that is open to read the file, at this offset. -/
structure OpenToRead (m : StoredFiles) (inoNum : BitVec 32) (fd offset : Int)
    (s : FileSystem StoredFiles) : Prop where
  storage : s.storage = m
  verified : s.tables.verifyFd fd = 0
  fileId : s.tables.getFileIdByFd fd = inoNum
  rdonly : isRdonly (s.tables.openFiles fd).flags = true
  regular : isDirectory (s.tables.openFiles fd).fType = false
  at_offset : (s.tables.openFiles fd).offset = offset

theorem OpenToRead.fd_ne (h : OpenToRead m inoNum fd offset s) : fd ≠ fsErrorFentryMax :=
  ne_fentryMax (verifyFd_eq_zero h.verified).1

/-- A read gives as many bytes as are asked for, or as there are, and goes behind them. -/
theorem OpenToRead.nandfsRead (h : OpenToRead m inoNum fd offset s) (hfile : m.IsFile inoNum a)
    (hfree : s.mutex = false) (h0 : 0 ≤ offset) (hle : offset ≤ m.size a) {count : Int}
    (hcount : 0 ≤ count) :
    NandFs.nandfsRead fd buf count s = .ok (min count (m.size a - offset),
        readInto (fun k => m.fileByte a k) offset (min count (m.size a - offset)) buf)
      { s with tables := s.tables.openFileIncOffset fd (min count (m.size a - offset)) } := by
  have hsize := getFileSize_run hfile
    (show ({ s with mutex := true } : FileSystem StoredFiles).storage = m from h.storage)
  have htid : (onStorage (Storage.findTidByFileId inoNum) : FsM StoredFiles _)
      { s with mutex := true } = .ok tidEmpty { s with mutex := true } := rfl
  obtain ⟨place, room, hfirst, hroom, ⟨n, hn⟩, hplace⟩ := firstRead_eq h0 count (m.size a)
  generalize hk : min (min room count) (m.size a - offset) = k at hfirst
  obtain ⟨hk0, hkroom, hkleft, hnext0, hcount0, hblock, hlast, hmin⟩ :=
    first_sizes hroom fsBlockSize_pos hcount (sub_nonneg.mpr hle) hk.symm
  obtain ⟨block, hread, hcopy⟩ := readFileBlock_bind hfile
    (show ({ s with mutex := true } : FileSystem StoredFiles).storage = m from h.storage) (.inl rfl)
    hle tidEmpty hk0 (add_zero offset) (hplace k hkroom) buf _
  rw [NandFs.nandfsRead, fsMutexLock_free hfree,
    bind_ok (show (getTables : FsM StoredFiles _) _ = .ok _ _ from rfl)]
  simp only [sysVerify, h.verified, h.rdonly, h.regular, h.fileId, h.at_offset, beq_self_eq_true,
    if_true, hcount, decide_true, Bool.not_false]
  rw [bind_ok hsize]
  simp only [hle, decide_true, if_true]
  rw [bind_ok htid]
  rw [hfirst, hread]
  have hsecond : nextReadSize (offset + k) (count - k) (m.size a) =
      min (min fsBlockSize (count - k)) (m.size a - (offset + k)) := by
    rw [nextReadSize, cutAtEof_eq, ite_lt_eq_min]
  rw [readInto_zero, zero_add] at hcopy
  simp only [beq_self_eq_true, if_true, hcopy, hsecond]
  rw [bind_ok (show (modifyTables _ : FsM StoredFiles Unit) _ = .ok () _ from rfl)]
  rw [sub_sub] at hnext0 hblock hlast hmin
  have hoff : ((s.tables.openFileIncOffset fd k).openFiles fd).offset = offset + k := by
    rw [offset_openFileIncOffset h.fd_ne, h.at_offset]
  have hat : min (min (min fsBlockSize (count - k)) (m.size a - (offset + k))) (count - k) = 0 ∨
      ∃ n : Nat, offset + k = blockOffset n :=
    hlast.symm.imp_right fun heq => ⟨n, by rw [heq, hn]⟩
  have hend := le_sub_iff_add_le'.mp
    (min_le_right (min fsBlockSize (count - k)) (m.size a - (offset + k)))
  have hrest := readBlocks_eq h.fd_ne hfile
    (show ({ s with tables := s.tables.openFileIncOffset fd k, mutex := true } :
      FileSystem StoredFiles).storage = m from h.storage) rfl tidEmpty buf hoff hat hnext0
    hcount0 hblock hend hmin
  rw [openFileIncOffset_add h.fd_ne, ← sub_sub, add_min_sub] at hrest
  rw [hfree]
  rw [← sub_sub]
  exact hrest

/-! ## Reading in pieces -/

/-- `n` bytes from place `at_` on -/
def bytesFrom (byte : Nat → UInt8) (at_ n : Int) : List UInt8 :=
  (List.range n.toNat).map fun j : Nat => byte (at_ + j).toNat

omit [FsConfig] in
theorem bytesFrom_add {byte : Nat → UInt8} {at_ n k : Int} (hn : 0 ≤ n) (hk : 0 ≤ k) :
    bytesFrom byte at_ (n + k) = bytesFrom byte at_ n ++ bytesFrom byte (at_ + n) k := by
  unfold bytesFrom
  rw [Int.toNat_add hn hk, List.range_add, List.map_append, List.map_map]
  refine congrArg _ (List.map_congr_left fun j _ => ?_)
  have hplace : (at_ + ((n.toNat + j : Nat) : Int)).toNat = (at_ + n + j).toNat := by omega
  rw [Function.comp_apply, hplace]

omit [FsConfig] in
theorem map_readInto {byte : Nat → UInt8} {at_ n : Int} (hn : 0 ≤ n) :
    (List.range n.toNat).map (readInto byte at_ n buf) = bytesFrom byte at_ n := by
  refine List.map_congr_left fun j hj => if_pos (?_ : (j : Int) < n)
  have hlt := List.mem_range.mp hj
  omega

omit [FsConfig] in
/-- What a read and the next one give of what is left. -/
theorem min_add_split {k l room : Int} (hl : 0 ≤ l) :
    min (k + l) room = min k room + min l (room - min k room) := by
  omega

/-- A read, with the bytes it has read. -/
def readBytes (fd count : Int) : FsM StoredFiles (List UInt8) := do
  let r ← nandfsRead fd (fun _ => 0) count
  return (List.range r.1.toNat).map r.2

/-- The state once the descriptor is at another offset. -/
def FileSystem.movedTo (s : FileSystem StoredFiles) (fd offset : Int) : FileSystem StoredFiles :=
  { s with tables := s.tables.openFileSetOffset fd offset }

theorem FileSystem.movedTo_eq (hfd : fd ≠ fsErrorFentryMax) (s : FileSystem StoredFiles)
    (offset : Int) : s.movedTo fd offset = { s with tables := { s.tables with
      openFiles := Function.update s.tables.openFiles fd
        { s.tables.openFiles fd with offset := offset } } } := by
  rw [FileSystem.movedTo, openFileSetOffset_of_ne hfd]

theorem FileSystem.movedTo_movedTo (hfd : fd ≠ fsErrorFentryMax) (s : FileSystem StoredFiles)
    (offset offset' : Int) : (s.movedTo fd offset).movedTo fd offset' = s.movedTo fd offset' := by
  simp [FileSystem.movedTo_eq hfd]

namespace OpenToRead

theorem movedTo (h : OpenToRead m inoNum fd offset s) (offset' : Int) :
    OpenToRead m inoNum fd offset' (s.movedTo fd offset') := by
  have hverified := h.verified
  have hfile := h.fileId
  rw [FileSystem.movedTo_eq h.fd_ne]
  refine ⟨h.storage, ?_, ?_, ?_, ?_, ?_⟩
  · simpa [verifyFd, isOpenFileEntryEmpty, isUserLegal] using hverified
  · simpa [getFileIdByFd, isOpenFileEntryEmpty] using hfile
  · simpa using h.rdonly
  · simpa using h.regular
  · simp

/-- Another descriptor is where it was. -/
theorem other (h : OpenToRead m inoNum fd offset s) {fd' : Int} (hfd' : fd' ≠ fsErrorFentryMax)
    (hne : fd ≠ fd') (offset' : Int) : OpenToRead m inoNum fd offset (s.movedTo fd' offset') := by
  have hmoved := FileSystem.movedTo_eq hfd' s offset'
  have hentry : (s.movedTo fd' offset').tables.openFiles fd = s.tables.openFiles fd := by
    rw [hmoved]
    exact Function.update_of_ne hne ..
  have hvnodes : (s.movedTo fd' offset').tables.vnodes = s.tables.vnodes := by rw [hmoved]
  have huser : (s.movedTo fd' offset').tables.currentUser = s.tables.currentUser := by rw [hmoved]
  refine ⟨h.storage, ?_, ?_, ?_, ?_, ?_⟩
  · rw [← h.verified]
    unfold verifyFd isOpenFileEntryEmpty isUserLegal
    rw [hentry, huser]
  · rw [← h.fileId]
    unfold getFileIdByFd isOpenFileEntryEmpty
    rw [hentry, hvnodes]
  · rw [hentry, h.rdonly]
  · rw [hentry, h.regular]
  · rw [hentry, h.at_offset]

theorem movedTo_self (h : OpenToRead m inoNum fd offset s) : s.movedTo fd offset = s := by
  rw [FileSystem.movedTo_eq h.fd_ne, ← h.at_offset]
  simp

theorem incOffset (h : OpenToRead m inoNum fd offset s) (n : Int) :
    ({ s with tables := s.tables.openFileIncOffset fd n } : FileSystem StoredFiles) =
      s.movedTo fd (offset + n) := by
  rw [FileSystem.movedTo, openFileIncOffset_of_ne h.fd_ne, h.at_offset]

theorem readBytes (h : OpenToRead m inoNum fd offset s) (hfile : m.IsFile inoNum a)
    (hfree : s.mutex = false) (h0 : 0 ≤ offset) (hle : offset ≤ m.size a) {count : Int}
    (hcount : 0 ≤ count) : NandFs.readBytes fd count s =
      .ok (bytesFrom (fun k => m.fileByte a k) offset (min count (m.size a - offset)))
        (s.movedTo fd (offset + min count (m.size a - offset))) := by
  rw [NandFs.readBytes, bind_ok (h.nandfsRead hfile hfree h0 hle hcount), ← h.incOffset,
    ← map_readInto (le_min hcount (sub_nonneg.mpr hle))]
  rfl

end OpenToRead

/-- However a read is cut into reads, their bytes are together those of the one read, and the
descriptor is left at the same offset. -/
theorem reads_inPieces (h : OpenToRead m inoNum fd offset s) (hfile : m.IsFile inoNum a)
    (hfree : s.mutex = false) (h0 : 0 ≤ offset) (hle : offset ≤ m.size a) {counts : List Int}
    (hcounts : ∀ count ∈ counts, 0 ≤ count) : ∃ pieces t,
      Machines.runAll readBytes (counts.map (fd, ·)) s = .ok pieces t ∧
        readBytes fd counts.sum s = .ok pieces.flatten t := by
  induction counts generalizing s offset with
  | nil =>
    refine ⟨[], s, rfl, ?_⟩
    have hnone : min 0 (m.size a - offset) = 0 := min_eq_left (sub_nonneg.mpr hle)
    rw [List.sum_nil, h.readBytes hfile hfree h0 hle le_rfl, hnone, ← h.incOffset,
      openFileIncOffset_zero h.fd_ne]
    rfl
  | cons count counts ih =>
    have hcount := hcounts count List.mem_cons_self
    have hrest : ∀ c ∈ counts, 0 ≤ c := fun c hc => hcounts c (List.mem_cons_of_mem _ hc)
    have hsum := List.sum_nonneg hrest
    have hfirst := h.readBytes hfile hfree h0 hle hcount
    have hn : 0 ≤ min count (m.size a - offset) := le_min hcount (sub_nonneg.mpr hle)
    have hle' := le_sub_iff_add_le'.mp (min_le_right count (m.size a - offset))
    obtain ⟨pieces, t, hpieces, hlast⟩ :=
      ih (h.movedTo _) hfree (add_nonneg h0 hn) hle' hrest
    have hwhole := h.readBytes hfile hfree h0 hle (add_nonneg hcount hsum)
    have hafter := (h.movedTo (offset + min count (m.size a - offset))).readBytes hfile hfree
      (add_nonneg h0 hn) hle' hsum
    obtain ⟨hbytes, rfl⟩ := EStateM.Result.ok.inj (hlast.symm.trans hafter)
    refine ⟨_ :: pieces, _, (bind_ok hfirst).trans ((bind_ok hpieces).trans rfl), ?_⟩
    have hsplit : min (count + counts.sum) (m.size a - offset) = min count (m.size a - offset) +
        min counts.sum (m.size a - (offset + min count (m.size a - offset))) := by
      rw [← sub_sub]
      exact min_add_split hsum
    have hrest0 := le_min hsum (sub_nonneg.mpr hle')
    rw [List.sum_cons, hwhole, hsplit, bytesFrom_add hn hrest0, List.flatten_cons, hbytes,
      FileSystem.movedTo_movedTo h.fd_ne, add_assoc]

/-! ## Seeking -/

/-- Where a seek goes in a file of this size: not before its start, and not behind its end. -/
def seekTo (size at_ offset : Int) (whence : Whence) : Option Int :=
  if offset < 0 then none
  else
    let target := match whence with
      | .cur => some (at_ + offset)
      | .set => some offset
      | .end => some (size + offset)
      | .other => none
    target.filter fun new => decide (new ≤ fsMaxFilesize) && decide (new ≤ size)

theorem seekTo_within {size at_ new : Int} {whence : Whence} (hat : 0 ≤ at_) (hsize : 0 ≤ size)
    (h : seekTo size at_ offset whence = some new) : 0 ≤ new ∧ new ≤ size := by
  unfold seekTo at h
  split at h
  · cases h
  · obtain ⟨htarget, hfits⟩ := Option.filter_eq_some_iff.mp h
    simp only [Bool.and_eq_true, decide_eq_true_eq] at hfits
    refine ⟨?_, hfits.2⟩
    cases whence with
    | cur =>
      obtain rfl := Option.some.inj htarget
      omega
    | set =>
      obtain rfl := Option.some.inj htarget
      omega
    | «end» =>
      obtain rfl := Option.some.inj htarget
      omega
    | other => cases htarget

/-- A seek replies where it went to, or that it did not. -/
theorem OpenToRead.nandfsLseek (h : OpenToRead m inoNum fd offset s) (hfile : m.IsFile inoNum a)
    (hfree : s.mutex = false) (by_ : Int) (whence : Whence) :
    NandFs.nandfsLseek fd by_ whence s =
      .ok ((seekTo (m.size a) offset by_ whence).getD (-1))
        (s.movedTo fd ((seekTo (m.size a) offset by_ whence).getD offset)) := by
  have hsize := getFileSize_run hfile
    (show ({ s with mutex := true } : FileSystem StoredFiles).storage = m from h.storage)
  have hunlock : ∀ t : FileSystem StoredFiles, t.mutex = false →
      ({ t with mutex := false } : FileSystem StoredFiles) = t := fun t ht => by rw [← ht]
  have hstays : (fsMutexUnlock (-1) (pure (-1)) : FsM StoredFiles Int) { s with mutex := true } =
      .ok (-1) (s.movedTo fd offset) := by
    rw [fsMutexUnlock_held rfl, h.movedTo_self]
    exact congrArg (EStateM.Result.ok (-1)) (hunlock s hfree)
  have hseek : ∀ new : Int, (sysVerify (-1) (decide (new ≤ fsMaxFilesize))
      (sysVerify (-1) (decide (new ≤ m.size a))
        ((modifyTables fun s => s.openFileSetOffset fd new) >>= fun _ => sysReturn (-1) new)) :
          FsM StoredFiles Int) { s with mutex := true } =
      .ok (((some new).filter fun new => decide (new ≤ fsMaxFilesize) &&
          decide (new ≤ m.size a)).getD (-1))
        (s.movedTo fd (((some new).filter fun new => decide (new ≤ fsMaxFilesize) &&
          decide (new ≤ m.size a)).getD offset)) := by
    intro new
    by_cases hmax : new ≤ fsMaxFilesize
    · by_cases hend : new ≤ m.size a
      · simp only [sysVerify, hmax, hend, decide_true, if_true, Option.filter, Bool.and_self,
          Option.getD_some]
        rw [modifyTables_sysReturn rfl]
        exact congrArg (EStateM.Result.ok new) (hunlock (s.movedTo fd new) hfree)
      · simpa [sysVerify, hmax, hend, Option.filter] using hstays
    · simpa [sysVerify, hmax, Option.filter] using hstays
  rw [NandFs.nandfsLseek, fsMutexLock_free hfree,
    bind_ok (show (getTables : FsM StoredFiles _) _ = .ok _ _ from rfl)]
  simp only [h.verified, h.fileId, ne_eq, not_true_eq_false, if_false]
  by_cases hneg : by_ < 0
  · simp only [if_pos hneg, seekTo, Option.getD_none]
    exact hstays
  · simp only [if_neg hneg, seekTo]
    rw [bind_ok hsize, if_neg (not_lt.mpr hfile.size_nonneg)]
    cases whence with
    | cur =>
      simp only [h.at_offset]
      exact hseek _
    | set => exact hseek _
    | «end» => exact hseek _
    | other => exact hstays

/-! ## Files side by side -/

end Read

/-- A call on an open file -/
inductive FileReadCall
  | read (buf : Nat → UInt8) (count : Int)
  | lseek (offset : Int) (whence : Whence)

/-- What it returns, with what a read leaves in the buffer. -/
inductive FileReply
  | read (res : Int) (buf : Nat → UInt8)
  | lseek (res : Int)

def FileReply.res : FileReply → Int
  | read res _ => res
  | lseek res => res

namespace FileReadCall

def exec (fd : Int) : FileReadCall → FsM StoredFiles FileReply
  | read buf count => do
    let r ← nandfsRead fd buf count
    return .read r.1 r.2
  | lseek offset whence => do return .lseek (← nandfsLseek fd offset whence)

/-- The call on a stream of `size` bytes, at place `at_`: the reply, and the place then. -/
def ask (size : Int) (byte : Nat → UInt8) (at_ : Int) : FileReadCall → FileReply × Int
  | read buf count =>
    if count < 0 then (.read (-1) buf, at_)
    else
      let n := min count (size - at_)
      (.read n (readInto byte at_ n buf), at_ + n)
  | lseek offset whence =>
    let new := seekTo size at_ offset whence
    (.lseek (new.getD (-1)), new.getD at_)

theorem ask_within {size at_ : Int} {byte : Nat → UInt8} (hat : 0 ≤ at_) (hle : at_ ≤ size)
    (c : FileReadCall) : 0 ≤ (c.ask size byte at_).2 ∧ (c.ask size byte at_).2 ≤ size := by
  cases c with
  | read buf count =>
    by_cases hcount : count < 0
    · simp only [ask, if_pos hcount]
      exact ⟨hat, hle⟩
    · simp only [ask, if_neg hcount]
      omega
  | lseek offset whence =>
    cases hnew : seekTo size at_ offset whence with
    | none =>
      simp only [ask, hnew, Option.getD_none]
      exact ⟨hat, hle⟩
    | some new =>
      simp only [ask, hnew, Option.getD_some]
      exact seekTo_within hat (hat.trans hle) hnew

end FileReadCall

/-- Calls on several descriptors, one after the other -/
def fileCalls : List (Int × FileReadCall) → FsM StoredFiles (List FileReply) :=
  Machines.runAll FileReadCall.exec

/-- A file that a descriptor reads: its inode's number and address -/
structure FileInode where
  inoNum : BitVec 32
  inoAddr : LogAddr

/-- The descriptors that have a file are open to read it, at these places. -/
structure ReadSideBySide (m : StoredFiles) (files : Int → Option FileInode) (at_ : Int → Int)
    (s : FileSystem StoredFiles) : Prop where
  free : s.mutex = false
  isFile : ∀ fd, ∀ f ∈ files fd, m.IsFile f.inoNum f.inoAddr
  openToRead : ∀ fd, ∀ f ∈ files fd, OpenToRead m f.inoNum fd (at_ fd) s
  within : ∀ fd, ∀ f ∈ files fd, 0 ≤ at_ fd ∧ at_ fd ≤ m.size f.inoAddr

/-- The descriptors as streams of the bytes of their files -/
def streamsOf (m : StoredFiles) (files : Int → Option FileInode) (fd at_ : Int)
    (c : FileReadCall) : FileReply × Int :=
  (files fd).elim (.lseek (-1), at_) fun f =>
    c.ask (m.size f.inoAddr) (fun k => m.fileByte f.inoAddr k) at_

section Side
variable {m : StoredFiles} {files : Int → Option FileInode} {at_ : Int → Int} {inoNum : BitVec 32}
  {a : LogAddr} {fd offset : Int} {s : FileSystem StoredFiles}

/-- A call on a descriptor is one on the stream of its file. -/
theorem OpenToRead.exec (h : OpenToRead m inoNum fd offset s) (hfile : m.IsFile inoNum a)
    (hfree : s.mutex = false) (h0 : 0 ≤ offset) (hle : offset ≤ m.size a) (c : FileReadCall) :
    c.exec fd s = .ok (c.ask (m.size a) (fun k => m.fileByte a k) offset).1
      (s.movedTo fd (c.ask (m.size a) (fun k => m.fileByte a k) offset).2) := by
  cases c with
  | read buf count =>
    by_cases hcount : count < 0
    · have hrun : NandFs.nandfsRead fd buf count s = .ok (-1, buf) s := by
        rw [NandFs.nandfsRead, fsMutexLock_free hfree,
          bind_ok (show (getTables : FsM StoredFiles _) _ = .ok _ _ from rfl)]
        simp only [sysVerify, h.verified, not_le.mpr hcount, beq_self_eq_true, if_true,
          decide_false, Bool.false_eq_true, if_false]
        rw [fsMutexUnlock_held rfl, ← hfree]
        rfl
      simp only [FileReadCall.ask, if_pos hcount, h.movedTo_self]
      exact bind_ok hrun
    · simp only [FileReadCall.ask, if_neg hcount]
      rw [← h.incOffset]
      exact bind_ok (h.nandfsRead hfile hfree h0 hle (not_lt.mp hcount))
  | lseek by_ whence => exact bind_ok (h.nandfsLseek hfile hfree by_ whence)

theorem ReadSideBySide.exec (fd : Int) (c : FileReadCall) (at_ : Int → Int)
    (s : FileSystem StoredFiles) (hfd : (files fd).isSome) (h : ReadSideBySide m files at_ s) :
    ∃ t, c.exec fd s = .ok (streamsOf m files fd (at_ fd) c).1 t ∧
      ReadSideBySide m files
        (Function.update at_ fd (streamsOf m files fd (at_ fd) c).2) t := by
  obtain ⟨f, hf⟩ := Option.isSome_iff_exists.mp hfd
  obtain ⟨h0, hle⟩ := h.within fd f hf
  have hopen := h.openToRead fd f hf
  have hrun := hopen.exec (h.isFile fd f hf) h.free h0 hle c
  have hstream : streamsOf m files fd (at_ fd) c =
      c.ask (m.size f.inoAddr) (fun k => m.fileByte f.inoAddr k) (at_ fd) := by
    rw [streamsOf, hf, Option.elim_some]
  rw [hstream]
  refine ⟨_, hrun, h.free, h.isFile, fun fd' f' hf' => ?_, fun fd' f' hf' => ?_⟩
  · by_cases heq : fd' = fd
    · subst heq
      obtain rfl : f = f' := Option.some.inj (hf.symm.trans hf')
      rw [Function.update_self]
      exact hopen.movedTo _
    · rw [Function.update_of_ne heq]
      exact (h.openToRead fd' f' hf').other hopen.fd_ne heq _
  · by_cases heq : fd' = fd
    · subst heq
      obtain rfl : f = f' := Option.some.inj (hf.symm.trans hf')
      rw [Function.update_self]
      exact FileReadCall.ask_within h0 hle c
    · rw [Function.update_of_ne heq]
      exact h.within fd' f' hf'

/-- Whatever calls are made in whatever order on descriptors that are open to read, each of them is
one on the stream of the bytes of its file, from the place where the calls on the same descriptor
before have left it. -/
theorem fileCalls_streams (h : ReadSideBySide m files at_ s) {calls : List (Int × FileReadCall)}
    (hopen : ∀ call ∈ calls, (files call.1).isSome) :
    ∃ t, fileCalls calls s = .ok (Machines.repliesOf (streamsOf m files) calls at_) t ∧
      ReadSideBySide m files (Machines.statesOf (streamsOf m files) calls at_) t :=
  Machines.runAll_replies ReadSideBySide.exec hopen h

end Side

end Files

/-! ## A file that is open twice -/

section TwoBlocks
attribute [local instance] smallPageFs

/-- File 2, of 962 bytes, that are kept in its inode, in block 0 and in block 1. -/
def twoBlocks : StoredFiles where
  page a :=
    match a.offset with
    | 0 => pageOf 448 [0xbf, 3, 0, 0, 0, 0, 0, 0, 0, 0, 0, 0, 0xff, 0xff, 0xff, 0xff, 1, 0, 0, 0xff]
    | 1 => pageOf 448 [0xc2, 3, 0, 0, 0, 0, 0, 0, 0, 0, 0, 0, 2, 0, 0, 0xff, 3, 0, 0, 0xff]
    | 2 => fun _ => 2
    | 3 => fun _ => 3
    | _ => initBuf.main
  ino0Addr := ⟨0, 0⟩
  involved := []
  names := [([47, 102], ⟨2, ftypeFile, 0⟩)]

theorem isFile_twoBlocks : twoBlocks.IsFile 2 ⟨0, 1⟩ where
  inoNum_ne := by decide
  idle := List.not_mem_nil
  inoAddr := by decide
  found := by rfl
  size_nonneg := by decide
  size_le := by decide

def openTwice (fd : Int) : Option FileInode :=
  if fd = 0 ∨ fd = 1 then some ⟨2, ⟨0, 1⟩⟩ else none

theorem readSideBySide_twoBlocks : ∃ s : FileSystem StoredFiles,
    ReadSideBySide twoBlocks openTwice (fun _ => 0) s := by
  have hopen : ∃ t, (nandfsOpen [47, 102] oRdonly 0 >>= fun _ => nandfsOpen [47, 102] oRdonly 0)
      (FileSystem.booted twoBlocks) = .ok 1 t ∧
      ReadSideBySide twoBlocks openTwice (fun _ => 0) t := by
    refine ⟨_, rfl, rfl, fun fd f hf => ?_, fun fd f hf => ?_, fun fd f hf => ?_⟩
    · obtain ⟨-, ⟨⟩⟩ := Option.ite_none_right_eq_some.mp hf
      exact isFile_twoBlocks
    · obtain ⟨hfd, ⟨⟩⟩ := Option.ite_none_right_eq_some.mp hf
      rcases hfd with rfl | rfl
      · exact ⟨rfl, by decide, by decide, by decide, by decide, by decide⟩
      · exact ⟨rfl, by decide, by decide, by decide, by decide, by decide⟩
    · obtain ⟨-, ⟨⟩⟩ := Option.ite_none_right_eq_some.mp hf
      exact ⟨le_rfl, isFile_twoBlocks.size_nonneg⟩
  obtain ⟨t, -, ht⟩ := hopen
  exact ⟨t, ht⟩

/-- One descriptor reads over all blocks and behind the end, the other one seeks and reads. -/
def turnsOnFile : List (Int × FileReadCall) :=
  [(0, .read (fun _ => 0) 500), (1, .lseek 446 .set), (1, .read (fun _ => 0) 3),
    (1, .lseek 963 .set), (0, .read (fun _ => 0) 500)]

theorem fileCalls_streams_twoBlocks : ∃ (s t : FileSystem StoredFiles) (rs : List FileReply),
    fileCalls turnsOnFile s = .ok rs t ∧ rs.map FileReply.res = [500, 446, 3, -1, 462] := by
  obtain ⟨s, h⟩ := readSideBySide_twoBlocks
  obtain ⟨t, hrun, -⟩ := fileCalls_streams h (show ∀ call ∈ turnsOnFile,
    (openTwice call.1).isSome by decide)
  exact ⟨s, t, _, hrun, by decide⟩

theorem reads_inPieces_twoBlocks : ∃ (s t : FileSystem StoredFiles) (pieces : List (List UInt8)),
    Machines.runAll readBytes [(0, 500), (0, 0), (0, 400), (0, 500)] s = .ok pieces t ∧
      readBytes 0 1400 s = .ok pieces.flatten t := by
  obtain ⟨s, h⟩ := readSideBySide_twoBlocks
  have hfile : (⟨2, ⟨0, 1⟩⟩ : FileInode) ∈ openTwice 0 := rfl
  obtain ⟨h0, hle⟩ := h.within 0 _ hfile
  obtain ⟨pieces, t, hpieces, hwhole⟩ := reads_inPieces (h.openToRead 0 _ hfile) isFile_twoBlocks
    h.free h0 hle (show ∀ count ∈ [500, 0, 400, 500], (0 : Int) ≤ count by decide)
  exact ⟨s, t, pieces, hpieces, hwhole⟩

end TwoBlocks

end NandFs
