import NandFs.DirentBlock

/-! # Looking up a name in a directory

`compareDirectoryEntries` reads the blocks of a directory one after the other and compares the
entries of each with a name.  In a directory whose blocks are as `writeDirEntry` and
`deleteDirEntry` leave them it finds the first entry of that name, and fails if there is none.
-/
namespace NandFs

section Defs
variable [Config]

/-- What the look-up reads of the state of the file system: the sizes of the directories, their
blocks, and the bytes behind the buffer a block is read to. -/
structure Directories where
  getFileSize : (inoNum : BitVec 32) → Int
  readFileBlock : (inoNum : BitVec 32) → (offset : Int) → Int × Block
  after : Nat → UInt8
  /-- the error codes of `fs.h` -/
  res_range : ∀ inoNum offset, -15 ≤ (readFileBlock inoNum offset).1 ∧
    (readFileBlock inoNum offset).1 ≤ 0

/-- `ADVANCE_TO_NEXT_BLOCK` -/
def advanceToNextBlock (fileOffset : Int) : Int :=
  fileOffset - calcOffsetInFileBlock fileOffset + fsBlockSize

/-- `DIRENT_GET_TYPE` -/
def direntGetType (de : Nat → UInt8) : Nat := (de 0).toNat

/-- `DIRENT_GET_NAME_LEN`, a `uint32_t` -/
def direntGetNameLen (de : Nat → UInt8) : Nat := (direntGetLen de + 2 ^ 32 - direntFlashSize) % 2 ^ 32

/-- The loop of `fsStrncmp` from byte `i` on, with `n` bytes left. -/
def strncmpFrom (s1 s2 : Nat → UInt8) : Nat → Nat → Int
  | 0, i => if s1 i < s2 i then -1 else if s2 i < s1 i then 1 else 0
  | n + 1, i =>
    if s1 i = s2 i then if n = 0 ∨ s1 i = 0 then 0 else strncmpFrom s1 s2 n (i + 1)
    else if s1 i < s2 i then -1 else if s2 i < s1 i then 1 else 0

/-- `fsStrncmp` -/
def fsStrncmp (s1 s2 : Nat → UInt8) (n : Nat) : Int := if n = 0 then 0 else strncmpFrom s1 s2 n 0

/-- An entry that was found: its file's inode number and type, and its place. -/
structure FoundEntry where
  inoNum : BitVec 32
  fType : Nat
  directoryOffset : Int

namespace Directories
variable (d : Directories)

/-- The loop of `compareDirectoryEntries` over the entries of a block from a place of the buffer
on: the entry, or the offset in the directory where it stops.  `none` is a scan of more entries
than a block has bytes, one that has left the block or does not end. -/
def compareEntries (block : Block) (name : Path) :
    Nat → Nat → Int → Option (Except Int FoundEntry)
  | 0, _, _ => none
  | n + 1, place, directoryOffset =>
    let de := direntAt block d.after place
    if isDirentEmpty de then some (.error directoryOffset)
    else if name.length = direntGetNameLen de ∧
        fsStrncmp (fun i => de (9 + i)) (fun i => name.getD i 0) name.length = 0 then
      some (.ok ⟨direntGetInoNum de, direntGetType de, directoryOffset⟩)
    else
      let directoryOffset := directoryOffset + direntGetLen de
      if isDirentBlockFull directoryOffset then some (.error directoryOffset)
      else compareEntries block name n (place + direntGetLen de) directoryOffset

/-- The loop of `compareDirectoryEntries` over the blocks of the directory from an offset on: the
entry, or the result and the offset it ends with. -/
def compareBlocks (name : Path) (inoNum : BitVec 32) (fSize : Int) :
    Nat → Int → Option (Except (Int × Int) FoundEntry)
  | 0, _ => none
  | n + 1, directoryOffset =>
    if fSize ≤ directoryOffset then some (.error (fsErrorOfstOvrflw, directoryOffset))
    else
      let read := d.readFileBlock inoNum directoryOffset
      if read.1 ≠ 0 then some (.error (read.1, directoryOffset))
      else
        match d.compareEntries read.2 name pageSize 0 directoryOffset with
        | none => none
        | some (.ok found) => some (.ok found)
        | some (.error directoryOffset) =>
          compareBlocks name inoNum fSize n (advanceToNextBlock directoryOffset)

/-- `compareDirectoryEntries` of the name, the bytes of the path up to the next separator. -/
def compareDirectoryEntries (name : Path) (inoNum : BitVec 32) :
    Option (Except (Int × Int) FoundEntry) :=
  let fSize := d.getFileSize inoNum
  d.compareBlocks name inoNum fSize (fSize.toNat + 1) inodeFileDataSize

end Directories

/-! ## What a directory holds -/

/-- The name in an entry. -/
def recordName (e : Record) : Path := (e.drop 9).take (e.length - direntFlashSize)

/-- The inode number in an entry. -/
def recordInoNum (e : Record) : BitVec 32 := direntGetInoNum fun i => e.getD i 0

/-- The file type in an entry. -/
def recordType (e : Record) : Nat := direntGetType fun i => e.getD i 0

/-- The directory is readable and its blocks hold these entries, each of a file. -/
structure Directories.Holds (d : Directories) (dirNum : BitVec 32) (blocks : List (List Record)) :
    Prop where
  size : ∀ k : Nat, inodeFileDataSize + k * fsBlockSize < d.getFileSize dirNum ↔ k < blocks.length
  read : ∀ (k : Nat) (h : k < blocks.length),
    (d.readFileBlock dirNum (inodeFileDataSize + k * fsBlockSize)).1 = 0 ∧
    HoldsEntries (d.readFileBlock dirNum (inodeFileDataSize + k * fsBlockSize)).2 0 blocks[k]
  entry : ∀ e ∈ blocks.flatten, direntFlashSize ≤ e.length ∧ isNegative (recordInoNum e) = false

end Defs

/-! ## One entry -/

/-- Strings of `n` bytes that are not terminators are compared byte by byte. -/
theorem strncmpFrom_eq_zero {s1 s2 : Nat → UInt8} {n i : Nat}
    (h : ∀ j < n, s2 (i + j) ≠ 0) (hn : 0 < n) :
    strncmpFrom s1 s2 n i = 0 ↔ ∀ j < n, s1 (i + j) = s2 (i + j) := by
  induction n generalizing i with
  | zero => exact absurd hn (Nat.lt_irrefl 0)
  | succ n ih =>
    unfold strncmpFrom
    by_cases heq : s1 i = s2 i
    · rw [if_pos heq]
      by_cases hn0 : n = 0
      · subst hn0
        rw [if_pos (.inl rfl)]
        refine iff_of_true rfl fun j hj => ?_
        obtain rfl : j = 0 := by omega
        exact heq
      · have hne : ¬(n = 0 ∨ s1 i = 0) := fun hor => hor.elim hn0 fun hz => h 0 (by omega) (heq ▸ hz)
        rw [if_neg hne, ih (fun j hj => by
          have := h (j + 1) (by omega)
          rwa [show i + (j + 1) = i + 1 + j by omega] at this) (by omega)]
        constructor
        · intro hall j hj
          cases j with
          | zero => exact heq
          | succ j => rw [show i + (j + 1) = i + 1 + j by omega]; exact hall j (by omega)
        · intro hall j hj
          have := hall (j + 1) (by omega)
          rwa [show i + (j + 1) = i + 1 + j by omega] at this
    · rw [if_neg heq]
      refine iff_of_false ?_ fun hall => heq (hall 0 (by omega))
      rcases UInt8.lt_or_lt_of_ne heq with hlt | hlt
      · rw [if_pos hlt]
        decide
      · rw [if_neg (UInt8.lt_asymm hlt), if_pos hlt]
        decide

theorem fsStrncmp_eq_zero {s1 s2 : Nat → UInt8} {n : Nat} (h : ∀ j < n, s2 j ≠ 0) :
    fsStrncmp s1 s2 n = 0 ↔ ∀ j < n, s1 j = s2 j := by
  unfold fsStrncmp
  by_cases hn : n = 0
  · rw [if_pos hn]
    exact iff_of_true rfl fun j hj => absurd hj (by omega)
  · rw [if_neg hn, strncmpFrom_eq_zero (by simpa only [Nat.zero_add] using h) (by omega)]
    simp only [Nat.zero_add]

section Record
variable {de : Nat → UInt8} {name : Path}

theorem length_recordName (hlen : direntFlashSize ≤ direntGetLen de) :
    (recordName (recordOf de)).length = direntGetLen de - direntFlashSize := by
  unfold direntFlashSize at hlen
  rw [recordName, List.length_take, List.length_drop, length_recordOf, direntFlashSize]
  omega

theorem getElem_recordName {j : Nat} (hj : j < (recordName (recordOf de)).length) :
    (recordName (recordOf de))[j] = de (9 + j) := by
  simp only [recordName, recordOf, List.getElem_take, List.getElem_drop, List.getElem_map,
    List.getElem_range]

/-- The comparison of `compareDirectoryEntries` is that of the names. -/
theorem compares_iff (hlen : direntFlashSize ≤ direntGetLen de) (hle : direntGetLen de ≤ 256)
    (hnul : 0 ∉ name) :
    (name.length = direntGetNameLen de ∧
      fsStrncmp (fun i => de (9 + i)) (fun i => name.getD i 0) name.length = 0) ↔
      recordName (recordOf de) = name := by
  have hlength := length_recordName hlen
  have hnameLen : direntGetNameLen de = direntGetLen de - direntFlashSize := by
    unfold direntFlashSize at hlen
    unfold direntGetNameLen direntFlashSize
    omega
  have hne : ∀ j < name.length, name.getD j 0 ≠ 0 := fun j hj hz => by
    rw [List.getD_eq_getElem _ _ hj] at hz
    exact hnul (hz ▸ List.getElem_mem hj)
  rw [fsStrncmp_eq_zero hne, hnameLen, ← hlength]
  constructor
  · rintro ⟨hl, hbytes⟩
    refine List.ext_getElem hl.symm fun j hj hj' => ?_
    rw [getElem_recordName hj, hbytes j hj', List.getD_eq_getElem _ _ hj']
  · rintro rfl
    refine ⟨rfl, fun j hj => ?_⟩
    rw [List.getD_eq_getElem _ _ hj, getElem_recordName hj]

/-- The fields of an entry are read from its bytes. -/
theorem record_fields (hlen : direntFlashSize ≤ direntGetLen de) :
    recordInoNum (recordOf de) = direntGetInoNum de ∧ recordType (recordOf de) = direntGetType de := by
  unfold direntFlashSize at hlen
  have hget : ∀ i < direntGetLen de, (recordOf de).getD i 0 = de i := fun i hi => by
    rw [List.getD_eq_getElem _ _ (by rw [length_recordOf]; exact hi)]
    simp only [recordOf, List.getElem_map, List.getElem_range]
  have hino : getUint32 (fun i => (recordOf de).getD i 0) 1 = getUint32 de 1 :=
    getUint32_congr fun j _ hj => hget j (by omega)
  refine ⟨by rw [recordInoNum, direntGetInoNum, hino, direntGetInoNum], ?_⟩
  rw [recordType, direntGetType, hget 0 (by omega), direntGetType]

end Record

/-! ## One block -/

section Block
variable [Config] {d : Directories} {b : Block} {name : Path} {base : Int}

/-- An entry of a list with the name. -/
def named (name : Path) (e : Record) : Bool := recordName e == name

omit [Config] in
theorem named_iff {e : Record} : named name e = true ↔ recordName e = name := beq_iff_eq

/-- What the look-up gives for the entries of a block, at offset `directoryOffset`. -/
def lookupResult (found : Option Record) (directoryOffset : Int) : Except Int FoundEntry :=
  match found with
  | some e => .ok ⟨recordInoNum e, recordType e, directoryOffset⟩
  | none => .error directoryOffset

theorem HoldsEntries.lt {p : Nat} {es : List Record} (h : HoldsEntries b p es) : p < pageSize := by
  cases h with
  | erased hp _ => exact hp
  | entry _ _ _ hp _ => omega

/-- The scan of a block goes over its entries and stops in the block. -/
theorem Directories.compareEntries_run (hnul : 0 ∉ name) {p n : Nat} {es : List Record}
    (h : HoldsEntries b p es) (hes : ∀ e ∈ es, direntFlashSize ≤ e.length)
    (hp : p + 256 ≤ pageSize) (hn : pageSize ≤ p + n)
    (hbase : ∀ q : Nat, q < pageSize → calcOffsetInFileBlock (base + q) = q) :
    ∃ q : Nat, q < pageSize ∧ d.compareEntries b name n p (base + p) =
      some (lookupResult (es.find? (named name)) (base + q)) := by
  induction h generalizing n with
  | @erased p _ herased =>
    obtain ⟨n, rfl⟩ := Nat.exists_eq_succ_of_ne_zero (show n ≠ 0 by omega)
    refine ⟨p, by omega, ?_⟩
    unfold Directories.compareEntries
    dsimp only
    rw [isDirentEmpty_direntAt (by omega), isDirentEmpty_erased herased, if_pos rfl]
    rfl
  | @entry p es hne hpos hlen _ hrest ih =>
    obtain ⟨n, rfl⟩ := Nat.exists_eq_succ_of_ne_zero (show n ≠ 0 by omega)
    have hmin : direntFlashSize ≤ direntGetLen (blockAt b p) := by
      rw [← length_recordOf]
      exact hes _ List.mem_cons_self
    have hgetLen := direntGetLen_direntAt d.after (b := b) hp
    have hrec := recordOf_direntAt d.after (b := b) hp hlen
    have hmin' : direntFlashSize ≤ direntGetLen (direntAt b d.after p) := by
      rw [hgetLen]
      exact hmin
    have hcmp := compares_iff hmin' (by rw [hgetLen]; exact hlen) hnul
    unfold Directories.compareEntries
    dsimp only
    rw [isDirentEmpty_direntAt (by omega), hne, if_neg Bool.false_ne_true]
    by_cases hname : recordName (recordOf (blockAt b p)) = name
    · have hfields := record_fields hmin'
      refine ⟨p, by omega, ?_⟩
      rw [if_pos (hcmp.mpr (hrec ▸ hname)), List.find?_cons_of_pos (named_iff.mpr hname),
        lookupResult, ← hrec, hfields.1, hfields.2]
    · have hlt := hrest.lt
      rw [if_neg fun hc => hname (hrec ▸ hcmp.mp hc),
        List.find?_cons_of_neg fun hc => hname (named_iff.mp hc), hgetLen,
        show base + p + (direntGetLen (blockAt b p) : Int)
          = base + (p + direntGetLen (blockAt b p) : Nat) by push_cast; ring]
      have hfull : isDirentBlockFull (base + (p + direntGetLen (blockAt b p) : Nat)) = true ↔
          pageSize < p + direntGetLen (blockAt b p) + 256 := by
        rw [isDirentBlockFull, decide_eq_true_iff, hbase _ hlt, fsBlockSize]
        omega
      by_cases hend : pageSize < p + direntGetLen (blockAt b p) + 256
      · -- no entry begins so near to the end of a block
        refine ⟨_, hlt, ?_⟩
        rw [if_pos (hfull.mpr hend)]
        cases hrest with
        | erased _ _ => rfl
        | entry _ _ _ hp' _ => omega
      · rw [if_neg (mt hfull.mp hend)]
        exact ih (fun e he => hes e (List.mem_cons_of_mem _ he)) (by omega) (by omega)

end Block

/-! ## All blocks -/

section Blocks
variable [FsConfig] {d : Directories} {name : Path} {dirNum : BitVec 32}
  {blocks : List (List Record)}

theorem calcOffsetInFileBlock_add (k : Nat) {q : Nat} (hq : q < pageSize) :
    calcOffsetInFileBlock (inodeFileDataSize + k * fsBlockSize + q) = q := by
  have hk : (0 : Int) ≤ k * fsBlockSize := Int.mul_nonneg (by omega) (by unfold fsBlockSize; omega)
  rw [calcOffsetInFileBlock, if_pos (by omega), show inodeFileDataSize + k * fsBlockSize + q
    - inodeFileDataSize = q + fsBlockSize * k by ring, Int.add_mul_emod_self_left, fsBlockSize]
  exact Int.emod_eq_of_lt (by omega) (by omega)

theorem advanceToNextBlock_add (k : Nat) {q : Nat} (hq : q < pageSize) :
    advanceToNextBlock (inodeFileDataSize + k * fsBlockSize + q)
      = inodeFileDataSize + (k + 1 : Nat) * fsBlockSize := by
  rw [advanceToNextBlock, calcOffsetInFileBlock_add k hq]
  push_cast
  ring

/-- What the look-up gives for a directory. -/
def directoryResult (found : Option Record) (directoryOffset : Int) :
    Except (Int × Int) FoundEntry :=
  match found with
  | some e => .ok ⟨recordInoNum e, recordType e, directoryOffset⟩
  | none => .error (fsErrorOfstOvrflw, directoryOffset)

/-- The look-up goes over the blocks that remain. -/
theorem Directories.Holds.compareBlocks_run (h : d.Holds dirNum blocks) (hnul : 0 ∉ name)
    {k n : Nat} (hk : k ≤ blocks.length) (hn : blocks.length < k + n) :
    ∃ directoryOffset, d.compareBlocks name dirNum (d.getFileSize dirNum) n
      (inodeFileDataSize + k * fsBlockSize) =
      some (directoryResult ((blocks.drop k).flatten.find? (named name)) directoryOffset) := by
  induction n generalizing k with
  | zero => omega
  | succ n ih =>
    unfold Directories.compareBlocks
    by_cases hlt : k < blocks.length
    · obtain ⟨hres, hentries⟩ := h.read k hlt
      have hsize := (h.size k).mpr hlt
      rw [if_neg (Int.not_le_of_gt hsize)]
      dsimp only
      rw [if_neg (not_not_intro hres)]
      have hmem : ∀ e ∈ blocks[k], e ∈ blocks.flatten := fun e he =>
        List.mem_flatten.mpr ⟨_, List.getElem_mem hlt, he⟩
      have hp := pageSize_ge
      obtain ⟨q, hq, hrun⟩ := d.compareEntries_run (n := pageSize) hnul hentries
        (fun e he => (h.entry e (hmem e he)).1) (by omega) (by omega)
        fun q hq => calcOffsetInFileBlock_add k hq
      rw [Nat.cast_zero, Int.add_zero] at hrun
      rw [hrun, ← List.getElem_cons_drop hlt, List.flatten_cons, List.find?_append]
      cases hfind : blocks[k].find? (named name) with
      | some e => exact ⟨_, rfl⟩
      | none =>
        obtain ⟨offset, hrest⟩ := ih (k := k + 1) (by omega) (by omega)
        refine ⟨offset, ?_⟩
        rw [lookupResult, Option.none_or, ← hrest, ← advanceToNextBlock_add k hq]
    · obtain rfl : k = blocks.length := by omega
      have hsize := mt (h.size blocks.length).mp (Nat.lt_irrefl _)
      rw [if_pos (Int.not_lt.mp hsize), List.drop_length]
      exact ⟨_, rfl⟩

/-- `compareDirectoryEntries` finds the first entry with the name, if there is one. -/
theorem Directories.Holds.compareDirectoryEntries_run (h : d.Holds dirNum blocks)
    (hnul : 0 ∉ name) : ∃ directoryOffset, d.compareDirectoryEntries name dirNum =
      some (directoryResult (blocks.flatten.find? (named name)) directoryOffset) := by
  have hfuel : blocks.length < 0 + ((d.getFileSize dirNum).toNat + 1) := by
    cases hlen : blocks.length with
    | zero => omega
    | succ len =>
      have hlast := (h.size len).mpr (by omega)
      have hblock : (len : Int) ≤ len * fsBlockSize := by
        have hpos := pageSize_ge
        exact le_mul_of_one_le_right (by omega) (by unfold fsBlockSize; omega)
      have hdata : 0 ≤ inodeFileDataSize := by
        have hpos := pageSize_ge
        unfold inodeFileDataSize
        omega
      omega
  have hrun := h.compareBlocks_run hnul (Nat.zero_le _) hfuel
  rw [Nat.cast_zero, Int.zero_mul, Int.add_zero, List.drop_zero] at hrun
  exact hrun

end Blocks

end NandFs
