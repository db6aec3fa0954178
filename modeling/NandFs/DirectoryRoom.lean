import NandFs.BlockScans
import NandFs.TransactionCalls
import Mathlib.Data.List.Flatten
import Mathlib.Logic.Relation

/-! # Room in the blocks of a directory

`allocAndWriteBlockTid` gives the address of a block of entries the hole flag if the last 257
bytes hold no terminator of a name, and `writeDirEntry` adds to a block with the flag.  Whatever
entries are added and deleted, such a block has room for one more, and the last entry of a block
begins where the scans still look for one, unless `..` is deleted from the root, where
`deleteDirEntry` takes the length of `.` for its.
-/
namespace NandFs

section Defs
variable [Config]

/-- A block of a directory, and the hole flag of its index entry. -/
structure DirentsBlock where
  data : Block
  hole : Bool

/-- `init_fsbuf` -/
def initFsbuf : Block := fun _ => 0xff

/-- `DIRENT_MAX_SIZE` -/
def direntMaxSize : Nat := 256

/-- The loop of `allocAndWriteBlockTid` that looks for the end of a name, from byte `i - 1` down. -/
def lastPathEnd (data : Block) : (rounds i : Nat) → Nat
  | 0, i => i
  | rounds + 1, i => if data.byte (i - 1) = 0 then i else lastPathEnd data rounds (i - 1)

/-- The flag of an address that a block of entries is written to. -/
def direntsHole (data : Block) : Bool :=
  decide (lastPathEnd data (direntMaxSize + 1) pageSize < pageSize - direntMaxSize)

/-- A block of entries that `allocAndWriteBlockTid` wrote, with the flag of its address. -/
def allocAndWriteDirents (data : Block) : DirentsBlock := ⟨data, direntsHole data⟩

/-- The block of a directory that `setNewInode` writes, with the entries `.` and `..`. -/
def newDirectoryBlock (fId parentFId : BitVec 32) : DirentsBlock :=
  let buf := setNewDirentry initFsbuf 0 fId 1 [46]
  ⟨setNewDirentry buf (direntGetLen (blockAt buf 0)) parentFId 1 [46, 46], true⟩

/-- What `writeDirEntry` makes of the block with a hole that it was given. -/
def writeDirEntry (inoNum : BitVec 32) (fName : Path) (fType : UInt8) (dataBuf : Block) :
    Scan DirentsBlock := do
  let place ← dataBuf.scanFirstEmpty pageSize 0
  let dataBuf := setNewDirentry dataBuf place inoNum fType fName
  return allocAndWriteDirents dataBuf

/-- What `deleteDirEntry` makes of the block that `deOffset` lies in, as a place in it. -/
def deleteDirEntry (inoNum : BitVec 32) (deOffset : Nat) (dataBuf : Block) :
    Scan DirentsBlock := do
  let place ← dataBuf.scanInoNum inoNum pageSize 0
  let dataBuf := deleteDeFromBlock (← dataBuf.readLen place) deOffset dataBuf
  if ← dataBuf.readIsEmpty 0 then
    -- the address is left empty: it has the flag, and the block is read as erased
    return ⟨initFsbuf, true⟩
  return allocAndWriteDirents dataBuf

/-! ## A directory and what is done with it -/

/-- The blocks of a directory, and the entries that were added to each and not deleted since. -/
structure DirectoryState where
  blocks : Nat → DirentsBlock
  entries : Nat → List Record

/-- The directory `mkdir` makes.  The blocks it has not got are read as erased. -/
def newDirectory (fId parentFId : BitVec 32) : DirectoryState where
  blocks := Function.update (fun _ => ⟨initFsbuf, true⟩) 0 (newDirectoryBlock fId parentFId)
  entries := Function.update (fun _ => []) 0
    [newDirentry fId 1 [46], newDirentry parentFId 1 [46, 46]]

/-- Block `k` is written with these entries in it. -/
def DirectoryState.setBlock (s : DirectoryState) (k : Nat) (blk : DirentsBlock)
    (es : List Record) : DirectoryState where
  blocks := Function.update s.blocks k blk
  entries := Function.update s.entries k es

/-- What `createNewFile` verifies of a name. -/
structure IsEntryName (name : Path) : Prop where
  nameLen : verifyNameLen name.length = true
  nul : 0 ∉ name

/-- An entry that `createNewFile` or `mkdir` adds. -/
def IsEntry (e : Record) : Prop :=
  ∃ inoNum fType name, isNegative inoNum = false ∧ IsEntryName name ∧
    e = newDirentry inoNum fType name

/-- A file is created in the directory, with an entry in block `k`, or the file of entry `e` of
block `k` is removed, which has the entries `pre` before it. -/
inductive DirectoryCall
  | create (k : Nat) (inoNum : BitVec 32) (fType : UInt8) (name : Path)
  | remove (k : Nat) (pre : List Record) (e : Record) (post : List Record)

/-- `deleteDirEntry`, which looks for the inode number, finds the entry that the look-up of the
name has found. -/
def DirectoryCall.TakesItsOwn : DirectoryCall → Prop
  | create _ _ _ _ => True
  | remove _ pre e _ => ∀ e' ∈ pre, recordInoNum e' ≠ recordInoNum e

/-- A call that returns.  The entries of the new state are those that the directory should have:
`unlink` refuses no name, and takes out `.` and `..` as it does others. -/
inductive DirectoryStep : DirectoryCall → DirectoryState → DirectoryState → Prop
  | add {s : DirectoryState} {k : Nat} {inoNum : BitVec 32} {fType : UInt8} {name : Path}
      {blk : DirentsBlock} (hhole : (s.blocks k).hole = true) (hname : IsEntryName name)
      (hino : isNegative inoNum = false)
      -- the file does not exist, and its inode number is that of a free inode
      (hfresh : ∀ j, ∀ e ∈ s.entries j, recordName e ≠ name ∧ recordInoNum e ≠ inoNum)
      (hwrite : writeDirEntry inoNum name fType (s.blocks k).data = .ok blk) :
      DirectoryStep (.create k inoNum fType name) s
        (s.setBlock k blk (s.entries k ++ [newDirentry inoNum fType name]))
  | delete {s : DirectoryState} {k : Nat} {e : Record} {pre post : List Record}
      {blk : DirentsBlock} (hentries : s.entries k = pre ++ e :: post)
      (hdelete : deleteDirEntry (recordInoNum e) pre.flatten.length (s.blocks k).data = .ok blk) :
      DirectoryStep (.remove k pre e post) s (s.setBlock k blk (pre ++ post))

/-- What holds of a block with these entries. -/
structure DirentsBlock.Keeps (blk : DirentsBlock) (fId parentFId : BitVec 32)
    (es : List Record) : Prop where
  entries : DirentsAt blk.data 0 es
  erased : ∀ k, es.flatten.length ≤ k → blk.data.byte k = 0xff
  legal : ∀ e ∈ es, IsEntry e
  /-- the last entry begins where there was room for the longest one -/
  starts : es.dropLast.flatten.length + direntMaxSize < pageSize
  hole : blk.hole = true ↔ es.flatten.length + direntMaxSize < pageSize
  /-- a file has one entry, but for a directory that is its own parent -/
  distinct : es.Pairwise fun e e' => recordInoNum e = recordInoNum e' →
    recordInoNum e = fId ∧ parentFId = fId

end Defs

/-! ## Legal entries -/

section Legal
variable {inoNum : BitVec 32} {fType : UInt8} {name : Path}

theorem IsEntryName.length_le (h : IsEntryName name) : name.length ≤ fsMaxNameLen :=
  of_decide_eq_true (Bool.and_eq_true_iff.mp h.nameLen).2

theorem recordName_newDirentry : recordName (newDirentry inoNum fType name) = name := by
  rw [recordName, length_newDirentry, Nat.add_sub_cancel]
  exact List.take_left

theorem recordInoNum_newDirentry : recordInoNum (newDirentry inoNum fType name) = inoNum := by
  have hino : getUint32 (fun i => (newDirentry inoNum fType name).getD i 0) 1 = inoNum.toNat :=
    getUint32_bytes inoNum.isLt fun j hj => by interval_cases j <;> rfl
  rw [recordInoNum, direntGetInoNum, hino, BitVec.ofNat_toNat, BitVec.setWidth_eq]

theorem ne_inoNumEmpty (h : isNegative inoNum = false) : inoNum ≠ inoNumEmpty := by
  rintro rfl
  cases h

variable (inoNum fType name) in
/-- A name ends with its terminator. -/
theorem getD_last_newDirentry :
    (newDirentry inoNum fType name).getD (name.length + 9) 0 = 0 := by
  rw [newDirentry, show name.length + 9 = name.length + 8 + 1 from rfl, List.getD_cons_succ,
    ← List.append_assoc, ← List.append_assoc, List.getD_append_right _ _ _ _ (by
      simp only [uint32Bytes, List.length_append, List.length_cons, List.length_nil]; omega)]
  have hlen : name.length + 8 - (uint32Bytes inoNum.toNat
      ++ uint32Bytes (name.length + direntFlashSize) ++ name).length = 0 := by
    simp only [uint32Bytes, List.length_append, List.length_cons, List.length_nil]
    omega
  rw [hlen]
  rfl

end Legal

/-! ## The hole flag -/

section Hole
variable [Config] {b : Block} {p : Nat} {es : List Record}

/-- The loop passes the bytes that are no terminator. -/
theorem lastPathEnd_lt {rounds i : Nat} (h : rounds ≤ i) :
    lastPathEnd b rounds i < i - rounds + 1 ↔ ∀ k, i ≤ k + rounds → k < i → b.byte k ≠ 0 := by
  induction rounds generalizing i with
  | zero =>
    rw [lastPathEnd]
    exact iff_of_true (by omega) fun k _ _ => absurd ‹k < i› (by omega)
  | succ rounds ih =>
    rw [lastPathEnd]
    by_cases hzero : b.byte (i - 1) = 0
    · rw [if_pos hzero]
      refine iff_of_false (by omega) fun hall => hall (i - 1) (by omega) (by omega) hzero
    · rw [if_neg hzero, show i - (rounds + 1) + 1 = i - 1 - rounds + 1 by omega,
        ih (by omega)]
      constructor
      · intro hall k hk hlt
        rcases Nat.eq_or_lt_of_le (Nat.le_sub_one_of_lt hlt) with heq | hlt'
        · rwa [heq]
        · exact hall k (by omega) hlt'
      · intro hall k hk hlt
        exact hall k (by omega) (by omega)

theorem direntsHole_iff (hsize : direntMaxSize < pageSize) : direntsHole b = true ↔
    ∀ k, pageSize ≤ k + (direntMaxSize + 1) → k < pageSize → b.byte k ≠ 0 := by
  rw [← lastPathEnd_lt (by omega), direntsHole, decide_eq_true_iff]
  omega

/-- The byte before the end of the last entry. -/
theorem DirentsAt.byte_last {inoNum : BitVec 32} {fType : UInt8} {name : Path}
    (h : DirentsAt b p (es ++ [newDirentry inoNum fType name])) :
    b.byte (p + (es ++ [newDirentry inoNum fType name]).flatten.length - 1) = 0 := by
  have hlast := h.suffix
  have hlength := length_newDirentry inoNum fType name
  generalize hq : p + es.flatten.length = q at hlast
  generalize he : newDirentry inoNum fType name = e at hlast hlength
  cases hlast with
  | entry hne hlen hroom hrest =>
    rw [length_recordOf] at hlength
    have hget := getD_last_newDirentry inoNum fType name
    have hshort : name.length + 9 < (recordOf (blockAt b q)).length := by
      rw [length_recordOf]
      unfold direntFlashSize at hlength
      omega
    rw [he, List.getD_eq_getElem _ _ hshort] at hget
    simp only [recordOf, List.getElem_map, List.getElem_range] at hget
    rw [List.flatten_append, List.length_append, List.flatten_singleton, length_recordOf,
      ← Nat.add_assoc, hq, hlength]
    exact hget

theorem byte_initFsbuf (k : Nat) : initFsbuf.byte k = 0xff := by
  unfold Block.byte initFsbuf
  split_ifs <;> rfl

end Hole

/-! ## One block -/

theorem IsEntry.length {e : Record} (h : IsEntry e) :
    direntFlashSize < e.length ∧ e.length ≤ direntMaxSize := by
  obtain ⟨inoNum, fType, name, -, hname, rfl⟩ := h
  have hpos := of_decide_eq_true (Bool.and_eq_true_iff.mp hname.nameLen).1
  have hle := hname.length_le
  rw [length_newDirentry]
  unfold fsMaxNameLen direntFlashSize direntMaxSize at *
  omega

section Keeps
variable [FsConfig] {b : Block} {p : Nat} {es : List Record} {blk : DirentsBlock}
  {fId parentFId : BitVec 32}

theorem direntMaxSize_lt : direntMaxSize < pageSize := by
  have hsize := pageSize_ge
  unfold direntMaxSize
  omega

/-- Entries that begin where there was room for the longest one are all looked at. -/
theorem DirentsAt.holds (h : DirentsAt b p es)
    (herased : ∀ k, p + es.flatten.length ≤ k → b.byte k = 0xff) (hes : ∀ e ∈ es, IsEntry e)
    (hstarts : p + es.dropLast.flatten.length + direntMaxSize < pageSize) :
    HoldsEntries b p es := by
  rw [direntMaxSize] at hstarts
  induction h with
  | @done p hle hend =>
    have hp : p < pageSize := Nat.lt_of_le_of_lt (Nat.le_add_right p _)
      (Nat.lt_of_le_of_lt (Nat.le_add_right _ 256) hstarts)
    exact .erased hp fun k hk _ => herased k hk
  | @entry p es hne hlen hroom hrest ih =>
    have hentry := (hes _ List.mem_cons_self).length
    rw [length_recordOf] at hentry
    unfold direntFlashSize direntMaxSize at hentry
    rw [List.flatten_cons, List.length_append, length_recordOf, ← Nat.add_assoc] at herased
    have hp : p + 256 < pageSize := by
      generalize (recordOf (blockAt b p) :: es).dropLast.flatten.length = n at hstarts
      omega
    have hrestHolds : HoldsEntries b (p + direntGetLen (blockAt b p)) es := by
      cases hes' : es with
      | nil =>
        rw [hes', List.flatten_nil, List.length_nil, Nat.add_zero] at herased
        exact .erased (by omega) fun k hk _ => herased k hk
      | cons e rest =>
        rw [← hes']
        refine ih herased (fun e he => hes e (List.mem_cons_of_mem _ he)) ?_
        rw [List.dropLast_cons_of_ne_nil (hes' ▸ List.cons_ne_nil e rest), List.flatten_cons,
          List.length_append, length_recordOf] at hstarts
        omega
    exact .entry hne (Nat.lt_of_le_of_lt (Nat.zero_le 10) hentry.1) hentry.2 hp hrestHolds

/-- The flag says whether the longest entry would fit. -/
theorem DirentsAt.hole_iff (h : DirentsAt b 0 es)
    (herased : ∀ k, es.flatten.length ≤ k → b.byte k = 0xff) (hes : ∀ e ∈ es, IsEntry e) :
    (allocAndWriteDirents b).hole = true ↔ es.flatten.length + direntMaxSize < pageSize := by
  have hsize := direntMaxSize_lt
  rw [allocAndWriteDirents, direntsHole_iff hsize]
  constructor
  · intro hall
    by_contra hfull
    rcases List.eq_nil_or_concat es with rfl | ⟨pre, e, rfl⟩
    · exact hfull (by rw [List.flatten_nil, List.length_nil, Nat.zero_add]; exact hsize)
    rw [List.concat_eq_append] at *
    obtain ⟨inoNum, fType, name, -, -, rfl⟩ := hes e (by simp)
    have hzero := h.byte_last
    have hle := h.length_le
    rw [Nat.zero_add] at hzero hle
    exact hall _ (by omega) (by omega) hzero
  · intro hroom k hk hlt
    rw [herased k (by omega)]
    decide

namespace DirentsBlock.Keeps

theorem holds (h : blk.Keeps fId parentFId es) : HoldsEntries blk.data 0 es :=
  h.entries.holds (by simpa only [Nat.zero_add] using h.erased) h.legal
    (by simpa only [Nat.zero_add] using h.starts)

/-- `MARK_BLOCK_WITH_HOLE` of the address of a block with room. -/
theorem mark (h : blk.Keeps fId parentFId es)
    (hroom : es.flatten.length + direntMaxSize < pageSize) :
    Keeps ⟨blk.data, true⟩ fId parentFId es :=
  ⟨h.entries, h.erased, h.legal, h.starts, iff_of_true rfl hroom, h.distinct⟩

theorem flash_le (h : blk.Keeps fId parentFId es) : ∀ e ∈ es, direntFlashSize ≤ e.length :=
  fun e he => Nat.le_of_lt (IsEntry.length (h.legal e he)).1

/-- A legal entry fits in a block with a hole, and the block it is added to is kept. -/
theorem setNewDirentry (h : blk.Keeps fId parentFId es) (hhole : blk.hole = true)
    {inoNum : BitVec 32} (fType : UInt8) {name : Path} (hname : IsEntryName name)
    (hino : isNegative inoNum = false)
    (hfresh : ∀ e ∈ es, recordInoNum e = inoNum → inoNum = fId ∧ parentFId = fId) :
    (allocAndWriteDirents (NandFs.setNewDirentry blk.data es.flatten.length inoNum fType
      name)).Keeps fId parentFId (es ++ [newDirentry inoNum fType name]) := by
  have hroom := h.hole.mp hhole
  have hnew : IsEntry (newDirentry inoNum fType name) := ⟨inoNum, fType, name, hino, hname, rfl⟩
  have hfit : es.flatten.length + (newDirentry inoNum fType name).length ≤ pageSize :=
    Nat.le_of_lt (Nat.lt_of_le_of_lt (Nat.add_le_add_left hnew.length.2 _) hroom)
  have hadd := h.entries.add fType h.erased (ne_inoNumEmpty hino) hname.length_le
    (by rwa [length_newDirentry] at hfit)
  have herased := fun k => erased_setNewDirentry inoNum fType name h.erased
    (by rwa [length_newDirentry] at hfit) (k := k)
  have hlegal : ∀ e ∈ es ++ [newDirentry inoNum fType name], IsEntry e := by
    intro e he
    rcases List.mem_append.mp he with he | he
    · exact h.legal e he
    · rwa [List.mem_singleton.mp he]
  refine ⟨hadd, herased, hlegal, ?_, hadd.hole_iff herased hlegal, ?_⟩
  · rw [List.dropLast_concat]
    exact hroom
  · refine List.pairwise_append.mpr
      ⟨h.distinct, List.pairwise_singleton _ _, fun e he e' he' heq => ?_⟩
    rw [List.mem_singleton.mp he', recordInoNum_newDirentry] at heq
    rw [heq]
    exact hfresh e he heq

theorem scanFirstEmpty (h : blk.Keeps fId parentFId es) (hhole : blk.hole = true) :
    blk.data.scanFirstEmpty pageSize 0 = .ok es.flatten.length := by
  have hroom := h.hole.mp hhole
  unfold direntMaxSize at hroom
  rw [Block.scanFirstEmpty_ok h.holds (by omega) (by omega), Nat.zero_add]

/-- `writeDirEntry` adds a legal entry to a block with a hole. -/
theorem writeDirEntry (h : blk.Keeps fId parentFId es) (hhole : blk.hole = true)
    {inoNum : BitVec 32} (fType : UInt8) {name : Path} (hname : IsEntryName name)
    (hino : isNegative inoNum = false) (hfresh : ∀ e ∈ es, recordInoNum e ≠ inoNum) :
    ∃ blk', NandFs.writeDirEntry inoNum name fType blk.data = .ok blk' ∧
      blk'.Keeps fId parentFId (es ++ [newDirentry inoNum fType name]) := by
  refine ⟨_, ?_, h.setNewDirentry hhole fType hname hino fun e he heq => absurd heq (hfresh e he)⟩
  rw [NandFs.writeDirEntry, h.scanFirstEmpty hhole]
  rfl

variable (fId parentFId) in
theorem erasedBlock : Keeps ⟨initFsbuf, true⟩ fId parentFId [] := by
  have hsize := direntMaxSize_lt
  have hempty : isDirentEmpty (blockAt initFsbuf 0) = true :=
    isDirentEmpty_erased fun k _ _ => byte_initFsbuf k
  refine ⟨.done (Nat.zero_le _) hempty, fun k _ => byte_initFsbuf k, fun e he => ?_, ?_, ?_,
    List.Pairwise.nil⟩
  · cases he
  · simpa using hsize
  · simpa using hsize

/-- The bytes of an entry that is deleted are those of the entries behind it, and erased. -/
theorem deleteDeFromBlock {e : Record} {pre post : List Record}
    (h : blk.Keeps fId parentFId (pre ++ e :: post)) :
    (allocAndWriteDirents (NandFs.deleteDeFromBlock e.length pre.flatten.length blk.data)).Keeps
      fId parentFId (pre ++ post) := by
  have hle := h.entries.length_le
  have hdel := ((deleteDeFromBlock_removes blk.data).1 pre e post h.entries).1
  have hsub : (pre ++ post).Sublist (pre ++ e :: post) :=
    List.Sublist.append_left (List.sublist_cons_self e post) pre
  simp only [List.flatten_append, List.flatten_cons, List.length_append] at hle
  have herased : ∀ k, (pre ++ post).flatten.length ≤ k →
      (NandFs.deleteDeFromBlock e.length pre.flatten.length blk.data).byte k = 0xff := by
    intro k hk
    rw [List.flatten_append, List.length_append] at hk
    rw [byte_deleteDeFromBlock (by omega), if_neg (by omega)]
    refine h.erased _ ?_
    simp only [List.flatten_append, List.flatten_cons, List.length_append]
    omega
  have hlegal : ∀ e' ∈ pre ++ post, IsEntry e' := fun e' he' => h.legal e' (hsub.subset he')
  refine ⟨hdel, herased, hlegal, ?_, hdel.hole_iff herased hlegal, h.distinct.sublist hsub⟩
  have hstarts := h.starts
  have hlast : (pre ++ post).dropLast.Sublist (pre ++ e :: post).dropLast := by
    have htail := hsub.reverse.tail
    rwa [List.tail_reverse, List.tail_reverse, List.reverse_sublist] at htail
  exact Nat.lt_of_le_of_lt (Nat.add_le_add_right hlast.flatten.length_le _) hstarts

/-- The length of an entry is read. -/
theorem readLen {e : Record} {pre post : List Record}
    (h : blk.Keeps fId parentFId (pre ++ e :: post)) :
    blk.data.readLen pre.flatten.length = .ok e.length := by
  have hsuffix := h.entries.suffix
  rw [Nat.zero_add] at hsuffix
  cases hsuffix with
  | entry hne hlen hroom hrest =>
    unfold direntFlashSize at hlen
    rw [Block.readLen_ok (by omega), length_recordOf]

/-- `deleteDirEntry` takes out the entry of a file. -/
theorem deleteDirEntry {e : Record} {pre post : List Record}
    (h : blk.Keeps fId parentFId (pre ++ e :: post))
    (hpre : ∀ e' ∈ pre, recordInoNum e' ≠ recordInoNum e) :
    ∃ blk', NandFs.deleteDirEntry (recordInoNum e) pre.flatten.length blk.data = .ok blk' ∧
      blk'.Keeps fId parentFId (pre ++ post) := by
  have hsize := pageSize_ge
  have hscan := Block.scanInoNum_ok (n := pageSize) h.holds h.flash_le hpre (by omega)
  rw [Nat.zero_add] at hscan
  have hkeeps := h.deleteDeFromBlock
  rw [NandFs.deleteDirEntry, hscan, scan_bind, h.readLen, scan_bind]
  dsimp only
  rw [Block.readIsEmpty_ok (by omega), scan_bind]
  by_cases hempty : isDirentEmpty
      (blockAt (NandFs.deleteDeFromBlock e.length pre.flatten.length blk.data) 0) = true
  · rw [if_pos hempty]
    refine ⟨_, rfl, ?_⟩
    have hnil : pre ++ post = [] := by
      cases hrest : pre ++ post with
      | nil => rfl
      | cons e' rest =>
        have hentries := hkeeps.entries
        rw [hrest] at hentries
        cases hentries with
        | entry hne hlen hroom hrest =>
          exact absurd hempty (Bool.eq_false_iff.mp hne)
    rw [hnil]
    exact erasedBlock fId parentFId
  · rw [if_neg hempty]
    exact ⟨_, rfl, hkeeps⟩

/-- The block `mkdir` writes holds the entries of the directory itself and its parent. -/
theorem newDirectoryBlock (hfId : isNegative fId = false) (hparent : isNegative parentFId = false) :
    (newDirectoryBlock fId parentFId).Keeps fId parentFId
      [newDirentry fId 1 [46], newDirentry parentFId 1 [46, 46]] := by
  have hsize := pageSize_ge
  have hdotName : IsEntryName [46] := ⟨rfl, by decide⟩
  have hdotdotName : IsEntryName [46, 46] := ⟨rfl, by decide⟩
  have hdot := (erasedBlock fId parentFId).setNewDirentry rfl 1 hdotName hfId
    fun e he => nomatch he
  have hhole := hdot.hole.mpr (by
    rw [List.nil_append, List.flatten_singleton, length_newDirentry]
    unfold direntMaxSize direntFlashSize
    simp only [List.length_singleton]
    omega)
  have hdotdot := hdot.setNewDirentry hhole 1 hdotdotName hparent fun e he heq => by
    rw [List.nil_append, List.mem_singleton] at he
    rw [he, recordInoNum_newDirentry] at heq
    exact ⟨heq.symm, heq.symm⟩
  have hlen : direntGetLen (blockAt (NandFs.setNewDirentry initFsbuf 0 fId 1 [46]) 0) = 11 :=
    (newDirentry_read _ fId 1 [46] (by decide) (by unfold direntFlashSize; simp; omega)).2.1
  have hblock : (allocAndWriteDirents (NandFs.setNewDirentry
      (allocAndWriteDirents (NandFs.setNewDirentry initFsbuf 0 fId 1 [46])).data 11 parentFId 1
      [46, 46])).data = (NandFs.newDirectoryBlock fId parentFId).data := by
    rw [NandFs.newDirectoryBlock, hlen]
    rfl
  have hflat : ([] ++ [newDirentry fId 1 [46]]).flatten.length = 11 := rfl
  rw [hflat, List.nil_append, List.flatten_nil, List.length_nil] at hdotdot
  have hroom : ([newDirentry fId 1 [46]] ++ [newDirentry parentFId 1 [46, 46]]).flatten.length
      + direntMaxSize < pageSize := by
    rw [show ([newDirentry fId 1 [46]] ++ [newDirentry parentFId 1 [46, 46]]).flatten.length = 23
      from rfl]
    unfold direntMaxSize
    omega
  have hmarked := hdotdot.mark hroom
  rw [show (⟨initFsbuf, true⟩ : DirentsBlock).data = initFsbuf from rfl, hblock] at hmarked
  exact hmarked

end DirentsBlock.Keeps

end Keeps

/-! ## Runs -/

section Runs
variable [FsConfig] {fId parentFId : BitVec 32} {s s' : DirectoryState} {call : DirectoryCall}

/-- Every block is kept, and no two files of the directory have one name. -/
structure DirectoryState.Keeps (s : DirectoryState) (fId parentFId : BitVec 32) : Prop where
  block : ∀ k, (s.blocks k).Keeps fId parentFId (s.entries k)
  names : ∀ j k, ∀ e ∈ s.entries j, ∀ e' ∈ s.entries k, recordName e = recordName e' → e = e'

theorem mem_newDirectory {j : Nat} {e : Record} (he : e ∈ (newDirectory fId parentFId).entries j) :
    e = newDirentry fId 1 [46] ∨ e = newDirentry parentFId 1 [46, 46] := by
  rcases eq_or_ne j 0 with rfl | hj
  · simpa [newDirectory] using he
  · simp [newDirectory, hj] at he

theorem newDirectory_keeps (hfId : isNegative fId = false)
    (hparent : isNegative parentFId = false) :
    (newDirectory fId parentFId).Keeps fId parentFId := by
  constructor
  · intro k
    rcases eq_or_ne k 0 with rfl | hk
    · simpa [newDirectory] using DirentsBlock.Keeps.newDirectoryBlock hfId hparent
    · simpa [newDirectory, hk] using DirentsBlock.Keeps.erasedBlock fId parentFId
  · intro j k e he e' he' hname
    rcases mem_newDirectory he with rfl | rfl <;> rcases mem_newDirectory he' with rfl | rfl
    · rfl
    · rw [recordName_newDirentry, recordName_newDirentry] at hname
      exact absurd hname (by decide)
    · rw [recordName_newDirentry, recordName_newDirentry] at hname
      exact absurd hname (by decide)
    · rfl

theorem mem_setBlock {k j : Nat} {blk : DirentsBlock} {es : List Record} {e : Record}
    (he : e ∈ (s.setBlock k blk es).entries j) : (j = k ∧ e ∈ es) ∨ e ∈ s.entries j := by
  rcases eq_or_ne j k with rfl | hj
  · simp only [DirectoryState.setBlock, Function.update_self] at he
    exact .inl ⟨rfl, he⟩
  · simp only [DirectoryState.setBlock, Function.update_of_ne hj] at he
    exact .inr he

/-- A block is written that is kept, and its names are those it had or new ones. -/
theorem DirectoryState.Keeps.setBlock (h : s.Keeps fId parentFId) {k : Nat} {blk : DirentsBlock}
    {es : List Record} (hblk : blk.Keeps fId parentFId es)
    (hnames : ∀ e ∈ es, e ∈ s.entries k ∨
      ∀ e', (e' ∈ es ∨ ∃ j, e' ∈ s.entries j) → recordName e = recordName e' → e = e') :
    (s.setBlock k blk es).Keeps fId parentFId := by
  constructor
  · intro j
    rcases eq_or_ne j k with rfl | hj
    · simpa only [DirectoryState.setBlock, Function.update_self] using hblk
    · simpa only [DirectoryState.setBlock, Function.update_of_ne hj] using h.block j
  · have hold : ∀ j, ∀ e ∈ (s.setBlock k blk es).entries j, (∃ i, e ∈ s.entries i) ∨
        ∀ e', (e' ∈ es ∨ ∃ j, e' ∈ s.entries j) → recordName e = recordName e' → e = e' := by
      intro j e he
      rcases mem_setBlock he with ⟨-, he⟩ | he
      · exact (hnames e he).imp_left fun he => ⟨k, he⟩
      · exact .inl ⟨j, he⟩
    have hmem : ∀ j, ∀ e ∈ (s.setBlock k blk es).entries j, e ∈ es ∨ ∃ i, e ∈ s.entries i :=
      fun j e he => (mem_setBlock he).imp And.right fun he => ⟨j, he⟩
    intro i j e he e' he' hname
    rcases hold i e he with ⟨i', he1⟩ | hnew
    · rcases hold j e' he' with ⟨j', he2⟩ | hnew
      · exact h.names i' j' e he1 e' he2 hname
      · exact (hnew e (hmem i e he) hname.symm).symm
    · exact hnew e' (hmem j e' he') hname

/-- A call that takes out the entry it is to take out keeps the blocks. -/
theorem DirectoryStep.keeps (hstep : DirectoryStep call s s') (htakes : call.TakesItsOwn)
    (h : s.Keeps fId parentFId) : s'.Keeps fId parentFId := by
  cases hstep with
  | @add _ k inoNum fType name blk hhole hname hino hfresh hwrite =>
    obtain ⟨blk', hwrite', hkeeps⟩ := (h.block k).writeDirEntry hhole fType hname
      hino fun e he => (hfresh k e he).2
    rw [hwrite] at hwrite'
    cases hwrite'
    refine h.setBlock hkeeps fun e he => (List.mem_append.mp he).imp_right fun he e' he' heq => ?_
    rw [List.mem_singleton.mp he] at heq ⊢
    rw [recordName_newDirentry] at heq
    have hother : ∀ j, e' ∉ s.entries j := fun j hj => (hfresh j e' hj).1 heq.symm
    rcases he' with he' | ⟨j, he'⟩
    · rcases List.mem_append.mp he' with he' | he'
      · exact absurd he' (hother k)
      · exact (List.mem_singleton.mp he').symm
    · exact absurd he' (hother j)
  | @delete _ k e pre post blk hentries hdelete =>
    have hblock := h.block k
    rw [hentries] at hblock
    obtain ⟨blk', hdelete', hkeeps⟩ := hblock.deleteDirEntry htakes
    rw [hdelete] at hdelete'
    cases hdelete'
    have hsub : (pre ++ post).Sublist (pre ++ e :: post) :=
      List.Sublist.append_left (List.sublist_cons_self e post) pre
    exact h.setBlock hkeeps fun e he => .inl (hentries ▸ hsub.subset he)

/-- Only `..` of a directory that is its own parent, behind `.` in the block, has an entry with
its inode number before it. -/
theorem DirectoryStep.takesItsOwn (hstep : DirectoryStep call s s') (h : s.Keeps fId parentFId)
    (hown : ∀ k pre e post, call = .remove k pre e post → recordInoNum e = fId → parentFId ≠ fId) :
    call.TakesItsOwn := by
  cases hstep with
  | add hhole hname hino hfresh hwrite => exact trivial
  | @delete _ k e pre post blk hentries hdelete =>
    intro e' he' heq
    have hdistinct := (h.block k).distinct
    rw [hentries] at hdistinct
    obtain ⟨hfId, hparent⟩ :=
      (List.pairwise_append.mp hdistinct).2.2 e' he' e List.mem_cons_self heq
    exact hown k pre e post rfl (heq.symm.trans hfId) hparent

/-- Files were created in the directory and removed from it, from when it was made, and each
removal took out the entry of its file. -/
def DirectoryState.Reachable (s : DirectoryState) (fId parentFId : BitVec 32) : Prop :=
  Relation.ReflTransGen (fun s s' => ∃ call : DirectoryCall, call.TakesItsOwn ∧
    DirectoryStep call s s') (newDirectory fId parentFId) s

theorem DirectoryState.Reachable.keeps (hfId : isNegative fId = false)
    (hparent : isNegative parentFId = false) (h : s.Reachable fId parentFId) :
    s.Keeps fId parentFId := by
  induction h with
  | refl => exact newDirectory_keeps hfId hparent
  | tail _ hstep ih =>
    obtain ⟨call, htakes, hstep⟩ := hstep
    exact hstep.keeps htakes ih

/-! ## What the blocks are good for -/

/-- The first `n` blocks of the directory are read as they are. -/
structure DirectoryState.IsRead (s : DirectoryState) (d : Directories) (dirNum : BitVec 32)
    (n : Nat) : Prop where
  size : ∀ k : Nat, inodeFileDataSize + k * fsBlockSize < d.getFileSize dirNum ↔ k < n
  read : ∀ k < n, d.readFileBlock dirNum (inodeFileDataSize + k * fsBlockSize)
    = (0, (s.blocks k).data)

/-- Blocks have room when they say so, the look-up finds every entry, and no scan of a block
leaves it. -/
structure DirectoryState.Sound (s : DirectoryState) : Prop where
  room : ∀ k, (s.blocks k).hole = true → ∀ name, IsEntryName name →
    ∃ place, (s.blocks k).data.scanFirstEmpty pageSize 0 = .ok place ∧
      place + (name.length + direntFlashSize) ≤ pageSize
  found : ∀ d dirNum n, s.IsRead d dirNum n → ∀ k < n, ∀ e ∈ s.entries k, ∃ offset,
    d.compareDirectoryEntries (recordName e) dirNum
      = some (.ok ⟨recordInoNum e, recordType e, offset⟩)
  compare : ∀ (k : Nat) name, ∃ r,
    (s.blocks k).data.scanCompare name pageSize 0 (inodeFileDataSize + k * fsBlockSize) = .ok r
  readdir : ∀ k offset, ∃ r, (s.blocks k).data.scanReaddir offset = .ok r
  scandir : ∀ k cb after list, ∃ r,
    (s.blocks k).data.scanScandir cb after pageSize 0 list = .ok r

namespace DirectoryState.Keeps

theorem holds (h : s.Keeps fId parentFId) {d : Directories} {dirNum : BitVec 32} {n : Nat}
    (hread : s.IsRead d dirNum n) : d.Holds dirNum ((List.range n).map s.entries) := by
  refine ⟨fun k => ?_, fun k hk => ?_, fun e he => ?_⟩
  · rw [List.length_map, List.length_range]
    exact hread.size k
  · rw [List.length_map, List.length_range] at hk
    rw [hread.read k hk, List.getElem_map, List.getElem_range]
    exact ⟨rfl, (h.block k).holds⟩
  · obtain ⟨es, hes, he⟩ := List.mem_flatten.mp he
    obtain ⟨k, -, rfl⟩ := List.mem_map.mp hes
    obtain ⟨inoNum, fType, name, hino, -, rfl⟩ := (h.block k).legal e he
    rw [recordInoNum_newDirentry]
    exact ⟨(h.block k).flash_le _ he, hino⟩

/-- A file can be created where there is room for the longest entry. -/
theorem exists_add (h : s.Keeps fId parentFId) {k : Nat}
    (hroom : (s.entries k).flatten.length + direntMaxSize < pageSize) {inoNum : BitVec 32}
    {name : Path} (fType : UInt8) (hname : IsEntryName name) (hino : isNegative inoNum = false)
    (hfresh : ∀ j, ∀ e ∈ s.entries j, recordName e ≠ name ∧ recordInoNum e ≠ inoNum) :
    ∃ s', DirectoryStep (.create k inoNum fType name) s s' ∧ s'.entries =
      Function.update s.entries k (s.entries k ++ [newDirentry inoNum fType name]) := by
  have hhole := (h.block k).hole.mpr hroom
  obtain ⟨blk, hwrite, -⟩ := (h.block k).writeDirEntry hhole fType hname hino
    fun e he => (hfresh k e he).2
  exact ⟨_, .add hhole hname hino hfresh hwrite, rfl⟩

/-- The first entry with the name of an entry is that entry. -/
theorem found (h : s.Keeps fId parentFId) {d : Directories} {dirNum : BitVec 32} {n : Nat}
    (hread : s.IsRead d dirNum n) {k : Nat} (hk : k < n) {e : Record} (he : e ∈ s.entries k) :
    ∃ offset, d.compareDirectoryEntries (recordName e) dirNum
      = some (.ok ⟨recordInoNum e, recordType e, offset⟩) := by
  have hnul : 0 ∉ recordName e := by
    obtain ⟨inoNum, fType, name, -, hname, rfl⟩ := (h.block k).legal e he
    rw [recordName_newDirentry]
    exact hname.nul
  obtain ⟨offset, hrun⟩ := (h.holds hread).compareDirectoryEntries_run hnul
  refine ⟨offset, ?_⟩
  have hmem : e ∈ ((List.range n).map s.entries).flatten :=
    List.mem_flatten.mpr ⟨_, List.mem_map.mpr ⟨k, List.mem_range.mpr hk, rfl⟩, he⟩
  cases hfind : ((List.range n).map s.entries).flatten.find? (named (recordName e)) with
  | none => exact absurd (named_iff.mpr rfl) (List.find?_eq_none.mp hfind e hmem)
  | some e' =>
    obtain ⟨es, hes, he'⟩ := List.mem_flatten.mp (List.mem_of_find?_eq_some hfind)
    obtain ⟨j, -, rfl⟩ := List.mem_map.mp hes
    have hname := named_iff.mp (List.find?_some hfind)
    rw [hrun, hfind, h.names j k e' he' e he hname]
    rfl

/-- A legal entry fits where `writeDirEntry` puts it. -/
theorem room (h : s.Keeps fId parentFId) {k : Nat} (hhole : (s.blocks k).hole = true)
    {name : Path} (hname : IsEntryName name) :
    ∃ place, (s.blocks k).data.scanFirstEmpty pageSize 0 = .ok place ∧
      place + (name.length + direntFlashSize) ≤ pageSize := by
  refine ⟨_, (h.block k).scanFirstEmpty hhole, ?_⟩
  have hroom := (h.block k).hole.mp hhole
  have hlen := hname.length_le
  unfold direntMaxSize at hroom
  unfold fsMaxNameLen at hlen
  unfold direntFlashSize
  omega

/-- The loop of `nandfs_scandir` stays in a block where a fifth byte is left. -/
theorem scandir_iff (h : s.Keeps fId parentFId) (k : Nat) :
    (∀ cb after list, ∃ r, (s.blocks k).data.scanScandir cb after pageSize 0 list = .ok r) ↔
      (s.entries k).flatten.length + 5 ≤ pageSize := by
  constructor
  · intro hall
    by_contra hend
    obtain ⟨r, hok⟩ := hall ⟨fun _ => false, fun _ => true⟩ (fun _ => 0) ⟨[], 0⟩
    obtain ⟨place, hout⟩ := Block.scanScandir_outside (n := pageSize)
      ⟨fun _ => false, fun _ => true⟩ (fun _ => 0) ⟨[], 0⟩ (fun _ => rfl) (h.block k).holds
      (by omega) (by omega)
    rw [hout] at hok
    cases hok
  · intro hend cb after list
    exact Block.scanScandir_ok (h.block k).holds (by omega) (by omega)

/-- All but the loop of `nandfs_scandir` is sound in any case. -/
theorem sound_iff (h : s.Keeps fId parentFId) :
    s.Sound ↔ ∀ k, (s.entries k).flatten.length + 5 ≤ pageSize := by
  have hsize := pageSize_ge
  constructor
  · intro hsound k
    exact (h.scandir_iff k).mp (hsound.scandir k)
  · intro hend
    refine ⟨fun k hhole name hname => h.room hhole hname,
      fun d dirNum n hread k hk e he => h.found hread hk he, fun k name => ?_,
      fun k offset => Block.scanReaddir_ok (by omega) offset,
      fun k => (h.scandir_iff k).mpr (hend k)⟩
    have hcompare := Block.scanCompare_ok name (n := pageSize) (h.block k).holds
      (h.block k).flash_le (by omega) (by omega)
      fun q hq => calcOffsetInFileBlock_add k hq
    rwa [Nat.cast_zero, Int.add_zero] at hcompare

end DirectoryState.Keeps

/-- Does `g` leave the block that `f` makes of the one of `x`? -/
def leavesTest {γ : Type} (x : Scan DirentsBlock) (f : DirentsBlock → Scan DirentsBlock)
    (g : DirentsBlock → Scan γ) : Bool :=
  match x >>= f with
  | .error _ => false
  | .ok blk =>
    match g blk with
    | .error _ => true
    | .ok _ => false

theorem exists_of_leavesTest {γ : Type} {x : Scan DirentsBlock}
    {f : DirentsBlock → Scan DirentsBlock} {g : DirentsBlock → Scan γ}
    (h : leavesTest x f g = true) : ∃ blk blk' fault, x = .ok blk ∧ f blk = .ok blk' ∧
      g blk' = .error fault := by
  unfold leavesTest at h
  cases hrun : x >>= f with
  | error fault =>
    rw [hrun] at h
    cases h
  | ok blk' =>
    obtain ⟨blk, hx, hf⟩ := scan_bind_ok hrun
    rw [hrun] at h
    dsimp only at h
    cases hg : g blk' with
    | ok r =>
      rw [hg] at h
      cases h
    | error fault => exact ⟨blk, blk', fault, hx, hf, hg⟩

end Runs

section SmallPage
attribute [local instance] smallPageFs

/-- A name of this length. -/
def longName (n : Nat) (c : UInt8) : Path := List.replicate n c

theorem isEntryName_longName {n : Nat} {c : UInt8} (hc : c ≠ 0)
    (hn : verifyNameLen n = true) : IsEntryName (longName n c) := by
  refine ⟨by rwa [longName, List.length_replicate], fun hmem => hc ?_⟩
  exact (List.eq_of_mem_replicate hmem).symm

/-- A file `ab` is created in the root directory and then `..` is removed from it: `deleteDirEntry`
takes the length of `.`, which has the same inode number, and tears the entries behind. -/
theorem parentRemoved_not_sound : ∃ (s s' : DirectoryState) (pre post : List Record) (e : Record),
    s.Reachable 1#32 1#32 ∧ DirectoryStep (.remove 0 pre e post) s s' ∧ ¬s'.Sound := by
  have hcheck : leavesTest (writeDirEntry 2#32 [97, 98] 2 (newDirectoryBlock 1#32 1#32).data)
      (fun blk => deleteDirEntry 1#32 11 blk.data) (fun blk => blk.data.scanCompare [97, 98]
        pageSize 0 (inodeFileDataSize + (0 : Nat) * fsBlockSize)) = true := by decide +kernel
  obtain ⟨blk, blk', fault, hwrite, hdelete, hscan⟩ := exists_of_leavesTest hcheck
  have hblock : (newDirectory 1#32 1#32).blocks 0 = newDirectoryBlock 1#32 1#32 :=
    by simp only [newDirectory, Function.update_self]
  have hentries : (newDirectory 1#32 1#32).entries 0 =
      [newDirentry 1#32 1 [46], newDirentry 1#32 1 [46, 46]] := by
    simp only [newDirectory, Function.update_self]
  rw [← hblock] at hwrite
  have hfresh : ∀ j, ∀ e ∈ (newDirectory 1#32 1#32).entries j,
      recordName e ≠ [97, 98] ∧ recordInoNum e ≠ 2#32 := by
    intro j e he
    rcases mem_newDirectory he with rfl | rfl <;>
      rw [recordName_newDirentry, recordInoNum_newDirentry]
    · exact ⟨by decide, by decide⟩
    · exact ⟨by decide, by decide⟩
  have hhole : ((newDirectory 1#32 1#32).blocks 0).hole = true := by
    rw [hblock]
    rfl
  have hcreate : DirectoryStep (.create 0 2#32 2 [97, 98]) (newDirectory 1#32 1#32)
      ((newDirectory 1#32 1#32).setBlock 0 blk ((newDirectory 1#32 1#32).entries 0 ++
        [newDirentry 2#32 2 [97, 98]])) := .add hhole ⟨rfl, by decide⟩ rfl hfresh hwrite
  generalize hs : (newDirectory 1#32 1#32).setBlock 0 blk _ = s at hcreate
  have hsblock : s.blocks 0 = blk := by
    rw [← hs]
    simp only [DirectoryState.setBlock, Function.update_self]
  have hsentries : s.entries 0 = [newDirentry 1#32 1 [46]] ++
      newDirentry 1#32 1 [46, 46] :: [newDirentry 2#32 2 [97, 98]] := by
    rw [← hs]
    simp only [DirectoryState.setBlock, Function.update_self, hentries, List.cons_append,
      List.nil_append]
  have hdelete' : deleteDirEntry (recordInoNum (newDirentry 1#32 1 [46, 46]))
      [newDirentry 1#32 1 [46]].flatten.length (s.blocks 0).data = .ok blk' := by
    rw [recordInoNum_newDirentry, hsblock]
    exact hdelete
  refine ⟨s, _, _, _, _, .tail .refl ⟨_, ?_, hcreate⟩, .delete hsentries hdelete', fun hsound => ?_⟩
  · exact trivial
  obtain ⟨r, hr⟩ := hsound.compare 0 [97, 98]
  simp only [DirectoryState.setBlock, Function.update_self] at hr
  rw [hscan] at hr
  cases hr

end SmallPage

end NandFs
