import NandFs.DirectoryLookup

/-! # What the scans of a directory block read

Each loop over the entries of a block is written over reads that fail at a byte behind the
buffer.  The look-up and `readdir` never reach one.  The loop of `nandfs_scandir` looks for the
empty entry behind the last one whatever room there is.
-/
namespace NandFs

section Defs
variable [Config]

/-- Why a scan does not end. -/
inductive ScanFault
  | outside (place : Nat)
  | endless
  deriving DecidableEq, Repr

/-- A scan of a block. -/
abbrev Scan := Except ScanFault

namespace Block
variable (b : Block)

/-- A byte of the block is read. -/
def readByte (k : Nat) : Scan UInt8 := if k < pageSize then .ok (b.byte k) else .error (.outside k)

/-- The bytes of a `uint32_t` are read. -/
def readUint32 (k : Nat) : Scan Nat := do
  let b0 ← b.readByte k
  let b1 ← b.readByte (k + 1)
  let b2 ← b.readByte (k + 2)
  let b3 ← b.readByte (k + 3)
  return b0.toNat + b1.toNat * 2 ^ 8 + b2.toNat * 2 ^ 16 + b3.toNat * 2 ^ 24

/-- `fsMemcpy` of `n` bytes out of the block. -/
def readBytes : (place n : Nat) → Scan (List UInt8)
  | _, 0 => .ok []
  | place, n + 1 => do
    let v ← b.readByte place
    let vs ← readBytes (place + 1) n
    return v :: vs

/-- `DIRENT_GET_INO_NUM` -/
def readInoNum (place : Nat) : Scan (BitVec 32) := do
  return BitVec.ofNat 32 (← b.readUint32 (place + 1))

/-- `IS_DIRENT_EMPTY` -/
def readIsEmpty (place : Nat) : Scan Bool := do
  return (← b.readInoNum place) == inoNumEmpty

/-- `DIRENT_GET_LEN` -/
def readLen (place : Nat) : Scan Nat := b.readUint32 (place + 5)

/-- The loop of `fsStrncmp` over the name of an entry, from byte `i` of it on. -/
def readStrncmp (place : Nat) (s2 : Nat → UInt8) : Nat → Nat → Scan Int
  | 0, _ => .ok 0
  | n + 1, i => do
    let c ← b.readByte (place + 9 + i)
    if c = s2 i then if n = 0 ∨ c = 0 then return 0 else readStrncmp place s2 n (i + 1)
    else return if c < s2 i then -1 else if s2 i < c then 1 else 0

/-- Whether an entry of `len` bytes has the name. -/
def readIsNamed (name : Path) (place len : Nat) : Scan Bool :=
  if name.length = (len + 2 ^ 32 - direntFlashSize) % 2 ^ 32 then do
    return (← b.readStrncmp place (fun i => name.getD i 0) name.length 0) == 0
  else return false

/-- The loop of `compareDirectoryEntries` over the entries of a block. -/
def scanCompare (name : Path) : Nat → Nat → Int → Scan (Except Int FoundEntry)
  | 0, _, _ => .error .endless
  | n + 1, place, directoryOffset => do
    if ← b.readIsEmpty place then return .error directoryOffset
    let len ← b.readLen place
    if ← b.readIsNamed name place len then
      let fType ← b.readByte place
      let inoNum ← b.readInoNum place
      return .ok ⟨inoNum, fType.toNat, directoryOffset⟩
    let directoryOffset := directoryOffset + len
    if isDirentBlockFull directoryOffset then return .error directoryOffset
    scanCompare name n (place + len) directoryOffset

/-- What `readDirStreamNextEntry` reads of the block an offset lies in: the entry, if it does not
go on with the next block. -/
def scanReaddir (offset : Int) : Scan (Option Record) := do
  if isDirentBlockFull offset then return none
  let place := (calcOffsetInFileBlock offset).toNat
  if ← b.readIsEmpty place then return none
  -- `DS_SET_DIRENTRY_BY_PTR` copies a whole `nandfs_dirent`
  return some (← b.readBytes place 256)

/-- The record loop of `nandfs_scandir`.  `none` is the end of the call or of the program at a
failed allocation.  The filter is given the place in the buffer. -/
def scanScandir (cb : ScandirCallbacks) (after : Nat → UInt8) :
    Nat → Nat → Namelist → Scan (Option Namelist)
  | 0, _, _ => .error .endless
  | n + 1, place, list => do
    if ← b.readIsEmpty place then return some list
    if cb.filter (direntAt b after place) then
      if !(cb.reallocator list.allocations && cb.reallocator (list.allocations + 1)) then
        return none
      let len ← b.readLen place
      let name ← b.readBytes place len
      scanScandir cb after n (place + len) ⟨name :: list.names, list.allocations + 2⟩
    else
      let len ← b.readLen place
      scanScandir cb after n (place + len) list

/-- The loop of `writeDirEntry` that looks for the first empty entry. -/
def scanFirstEmpty : Nat → Nat → Scan Nat
  | 0, _ => .error .endless
  | n + 1, place => do
    if ← b.readIsEmpty place then return place
    scanFirstEmpty n (place + (← b.readLen place))

/-- The loop of `deleteDirEntry` that looks for the entry of a file. -/
def scanInoNum (inoNum : BitVec 32) : Nat → Nat → Scan Nat
  | 0, _ => .error .endless
  | n + 1, place => do
    if ← b.readIsEmpty place then return place
    if (← b.readInoNum place) = inoNum then return place
    scanInoNum inoNum n (place + (← b.readLen place))

end Block

end Defs

/-! ## Reads within the block -/

section Reads
variable [Config] {b : Block} {p : Nat}

omit [Config] in
theorem scan_bind {α β : Type} (a : α) (f : α → Scan β) : (Except.ok a >>= f) = f a := rfl

namespace Block

theorem readByte_ok {k : Nat} (h : k < pageSize) : b.readByte k = .ok (b.byte k) := if_pos h

theorem readByte_outside {k : Nat} (h : pageSize ≤ k) : b.readByte k = .error (.outside k) :=
  if_neg (Nat.not_lt_of_le h)

theorem readUint32_ok {k : Nat} (h : p + k + 4 ≤ pageSize) :
    b.readUint32 (p + k) = .ok (getUint32 (blockAt b p) k) := by
  unfold readUint32
  rw [readByte_ok (by omega), readByte_ok (by omega), readByte_ok (by omega),
    readByte_ok (by omega)]
  rfl

/-- Four bytes that are not all in the block. -/
theorem readUint32_outside {k : Nat} (h : pageSize < k + 4) :
    ∃ place, b.readUint32 k = .error (.outside place) := by
  unfold readUint32
  rcases Nat.lt_or_ge k pageSize with h0 | h0
  · rw [readByte_ok h0, scan_bind]
    rcases Nat.lt_or_ge (k + 1) pageSize with h1 | h1
    · rw [readByte_ok h1, scan_bind]
      rcases Nat.lt_or_ge (k + 2) pageSize with h2 | h2
      · rw [readByte_ok h2, scan_bind, readByte_outside (by omega)]
        exact ⟨_, rfl⟩
      · rw [readByte_outside h2]
        exact ⟨_, rfl⟩
    · rw [readByte_outside h1]
      exact ⟨_, rfl⟩
  · rw [readByte_outside h0]
    exact ⟨_, rfl⟩

theorem readBytes_ok {n : Nat} (h : p + n ≤ pageSize) :
    b.readBytes p n = .ok ((List.range n).map (blockAt b p)) := by
  induction n generalizing p with
  | zero => rfl
  | succ n ih =>
    rw [readBytes, readByte_ok (by omega), scan_bind, ih (by omega), scan_bind,
      List.range_succ_eq_map, List.map_cons, List.map_map]
    refine congrArg (fun vs => Except.ok (b.byte p :: vs)) (List.map_congr_left fun j _ => ?_)
    show b.byte (p + 1 + j) = b.byte (p + (j + 1))
    rw [Nat.add_assoc, Nat.add_comm 1 j]

theorem readInoNum_ok (h : p + 5 ≤ pageSize) :
    b.readInoNum p = .ok (direntGetInoNum (blockAt b p)) := by
  rw [readInoNum, readUint32_ok (by omega)]
  rfl

theorem readIsEmpty_ok (h : p + 5 ≤ pageSize) :
    b.readIsEmpty p = .ok (isDirentEmpty (blockAt b p)) := by
  rw [readIsEmpty, readInoNum_ok h]
  rfl

theorem readIsEmpty_outside (h : pageSize < p + 5) :
    ∃ place, b.readIsEmpty p = .error (.outside place) := by
  obtain ⟨place, hread⟩ := readUint32_outside (b := b) (k := p + 1) (by omega)
  refine ⟨place, ?_⟩
  rw [readIsEmpty, readInoNum, hread]
  rfl

theorem readLen_ok (h : p + 9 ≤ pageSize) : b.readLen p = .ok (direntGetLen (blockAt b p)) :=
  readUint32_ok (by omega)

theorem readStrncmp_ok {s2 : Nat → UInt8} {n i : Nat} (h : p + 9 + i + n ≤ pageSize) :
    b.readStrncmp p s2 n i = .ok (if n = 0 then 0
      else strncmpFrom (fun i => blockAt b p (9 + i)) s2 n i) := by
  induction n generalizing i with
  | zero => rfl
  | succ n ih =>
    have hbyte : b.byte (p + 9 + i) = blockAt b p (9 + i) := by rw [blockAt, Nat.add_assoc]
    rw [readStrncmp, readByte_ok (by omega), scan_bind, hbyte, if_neg n.succ_ne_zero,
      strncmpFrom]
    by_cases heq : blockAt b p (9 + i) = s2 i
    · rw [if_pos heq, if_pos heq]
      by_cases hend : n = 0 ∨ blockAt b p (9 + i) = 0
      · rw [if_pos hend, if_pos hend]
        rfl
      · rw [if_neg hend, if_neg hend, ih (by omega), if_neg fun h0 => hend (.inl h0)]
    · rw [if_neg heq, if_neg heq]
      rfl

end Block

end Reads

/-! ## What is read is in the block -/

section Sound
variable [Config] {b : Block} {after : Nat → UInt8} {p : Nat}

omit [Config] in
theorem scan_bind_ok {α β : Type} {x : Scan α} {f : α → Scan β} {r : β}
    (h : (x >>= f) = .ok r) : ∃ a, x = .ok a ∧ f a = .ok r := by
  cases x with
  | error e => cases h
  | ok a => exact ⟨a, rfl, h⟩

namespace Block

theorem readByte_eq_ok (after : Nat → UInt8) {j : Nat} {v : UInt8}
    (h : b.readByte (p + j) = .ok v) :
    v = direntAt b after p j := by
  rcases Nat.lt_or_ge (p + j) pageSize with hlt | hge
  · rw [readByte_ok hlt] at h
    rw [direntAt_eq hlt]
    exact (Except.ok.inj h).symm
  · rw [readByte_outside hge] at h
    cases h

theorem readUint32_eq_ok (after : Nat → UInt8) {k v : Nat} (h : b.readUint32 (p + k) = .ok v) :
    v = getUint32 (direntAt b after p) k := by
  rcases Nat.lt_or_ge pageSize (p + k + 4) with hout | hin
  · obtain ⟨place, herr⟩ := readUint32_outside (b := b) hout
    rw [herr] at h
    cases h
  · rw [readUint32_ok hin] at h
    rw [← Except.ok.inj h]
    exact getUint32_congr fun j _ hj => (direntAt_eq (by omega)).symm

theorem readInoNum_eq_ok (after : Nat → UInt8) {v : BitVec 32} (h : b.readInoNum p = .ok v) :
    v = direntGetInoNum (direntAt b after p) := by
  obtain ⟨n, hn, hv⟩ := scan_bind_ok h
  rw [← Except.ok.inj hv, readUint32_eq_ok after hn]
  rfl

theorem readIsEmpty_eq_ok (after : Nat → UInt8) {v : Bool} (h : b.readIsEmpty p = .ok v) :
    v = isDirentEmpty (direntAt b after p) := by
  obtain ⟨n, hn, hv⟩ := scan_bind_ok h
  rw [← Except.ok.inj hv, readInoNum_eq_ok after hn]
  rfl

theorem readLen_eq_ok (after : Nat → UInt8) {v : Nat} (h : b.readLen p = .ok v) :
    v = direntGetLen (direntAt b after p) := readUint32_eq_ok after h

theorem readBytes_eq_ok (after : Nat → UInt8) {n : Nat} {vs : List UInt8}
    (h : b.readBytes p n = .ok vs) :
    vs = (List.range n).map (direntAt b after p) := by
  induction n generalizing p vs with
  | zero => exact (Except.ok.inj h).symm
  | succ n ih =>
    obtain ⟨v, hv, h⟩ := scan_bind_ok h
    obtain ⟨rest, hrest, h⟩ := scan_bind_ok h
    obtain rfl := readByte_eq_ok after (j := 0) hv
    rw [← Except.ok.inj h, ih hrest, List.range_succ_eq_map, List.map_cons, List.map_map]
    refine congrArg _ (List.map_congr_left fun j _ => ?_)
    have hplace : ((p + 1 : Nat) : Int) + j = p + (j + 1 : Nat) := by omega
    rw [Function.comp_apply, direntAt, hplace, direntAt]

theorem readStrncmp_eq_ok (after : Nat → UInt8) {s2 : Nat → UInt8} {n i : Nat} {v : Int}
    (h : b.readStrncmp p s2 n i = .ok v) :
    v = if n = 0 then 0 else strncmpFrom (fun i => direntAt b after p (9 + i)) s2 n i := by
  induction n generalizing i with
  | zero => exact (Except.ok.inj h).symm
  | succ n ih =>
    obtain ⟨c, hc, h⟩ := scan_bind_ok h
    rw [Nat.add_assoc] at hc
    obtain rfl := readByte_eq_ok after hc
    rw [if_neg n.succ_ne_zero, strncmpFrom]
    by_cases heq : direntAt b after p (9 + i) = s2 i
    · rw [if_pos heq] at h ⊢
      by_cases hend : n = 0 ∨ direntAt b after p (9 + i) = 0
      · rw [if_pos hend] at h ⊢
        exact (Except.ok.inj h).symm
      · rw [if_neg hend] at h ⊢
        rw [ih h, if_neg fun h0 => hend (.inl h0)]
    · rw [if_neg heq] at h ⊢
      exact (Except.ok.inj h).symm

theorem readIsNamed_eq_ok (after : Nat → UInt8) {name : Path} {v : Bool}
    (h : b.readIsNamed name p (direntGetLen (direntAt b after p)) = .ok v) :
    v = true ↔ (name.length = direntGetNameLen (direntAt b after p) ∧
      fsStrncmp (fun i => direntAt b after p (9 + i)) (fun i => name.getD i 0) name.length = 0) := by
  unfold readIsNamed at h
  by_cases hlen : name.length = direntGetNameLen (direntAt b after p)
  · rw [direntGetNameLen] at hlen
    rw [if_pos hlen] at h
    obtain ⟨c, hc, h⟩ := scan_bind_ok h
    rw [← Except.ok.inj h, beq_iff_eq, readStrncmp_eq_ok after hc]
    exact (and_iff_right hlen).symm
  · rw [direntGetNameLen] at hlen
    rw [if_neg hlen] at h
    rw [← Except.ok.inj h]
    exact iff_of_false Bool.false_ne_true fun hand => hlen hand.1

/-- A look-up that stays in the block is that of `compareDirectoryEntries`. -/
theorem scanCompare_sound {d : Directories} {name : Path} {n : Nat} {offset : Int}
    {r : Except Int FoundEntry} (h : b.scanCompare name n p offset = .ok r) :
    d.compareEntries b name n p offset = some r := by
  induction n generalizing p offset with
  | zero => cases h
  | succ n ih =>
    obtain ⟨isEmpty, hempty, h⟩ := scan_bind_ok h
    obtain rfl := readIsEmpty_eq_ok d.after hempty
    unfold Directories.compareEntries
    dsimp only
    by_cases hend : isDirentEmpty (direntAt b d.after p) = true
    · rw [if_pos hend] at h ⊢
      exact congrArg some (Except.ok.inj h)
    rw [if_neg hend] at h ⊢
    obtain ⟨len, hlen, h⟩ := scan_bind_ok h
    obtain rfl := readLen_eq_ok d.after hlen
    obtain ⟨isNamed, hnamed, h⟩ := scan_bind_ok h
    have hcmp := readIsNamed_eq_ok d.after hnamed
    by_cases hfound : isNamed = true
    · rw [if_pos hfound] at h
      rw [if_pos (hcmp.mp hfound)]
      obtain ⟨fType, htype, h⟩ := scan_bind_ok h
      obtain ⟨inoNum, hino, h⟩ := scan_bind_ok h
      obtain rfl := readByte_eq_ok d.after (j := 0) htype
      obtain rfl := readInoNum_eq_ok d.after hino
      exact congrArg some (Except.ok.inj h)
    · rw [if_neg hfound] at h
      rw [if_neg (mt hcmp.mpr hfound)]
      by_cases hfull : isDirentBlockFull (offset + direntGetLen (direntAt b d.after p)) = true
      · rw [if_pos hfull] at h ⊢
        exact congrArg some (Except.ok.inj h)
      · rw [if_neg hfull] at h ⊢
        exact ih h

/-- The names that a loop of `nandfs_scandir` collects without leaving the block are those that
the call collects. -/
theorem scanScandir_sound {σ : Type} [Storage σ] {cb : ScandirCallbacks} {n : Nat}
    {list names : Namelist} (h : b.scanScandir cb after n p list = .ok (some names)) :
    scanBlock cb b after n p list = (pure (some names) : FsM σ _) := by
  induction n generalizing p list with
  | zero => cases h
  | succ n ih =>
    obtain ⟨isEmpty, hempty, h⟩ := scan_bind_ok h
    obtain rfl := readIsEmpty_eq_ok after hempty
    unfold scanBlock
    dsimp only
    by_cases hend : isDirentEmpty (direntAt b after p) = true
    · rw [if_pos hend] at h ⊢
      rw [← Except.ok.inj h]
    rw [if_neg hend] at h ⊢
    by_cases hfilter : cb.filter (direntAt b after p) = true
    · rw [if_pos hfilter] at h ⊢
      by_cases hfailed : (!(cb.reallocator list.allocations &&
          cb.reallocator (list.allocations + 1))) = true
      · rw [if_pos hfailed] at h
        cases h
      rw [if_neg hfailed] at h
      rw [Bool.not_eq_true', Bool.not_eq_false, Bool.and_eq_true] at hfailed
      rw [hfailed.1, hfailed.2, Bool.not_true, if_neg Bool.false_ne_true,
        if_neg Bool.false_ne_true]
      obtain ⟨len, hlen, h⟩ := scan_bind_ok h
      obtain rfl := readLen_eq_ok after hlen
      obtain ⟨name, hname, h⟩ := scan_bind_ok h
      obtain rfl := readBytes_eq_ok after hname
      exact ih h
    · rw [if_neg hfilter] at h ⊢
      obtain ⟨len, hlen, h⟩ := scan_bind_ok h
      obtain rfl := readLen_eq_ok after hlen
      exact ih h

end Block

end Sound

/-! ## Scans of the entries of a block -/

section Entries
variable [Config] {b : Block} {p : Nat} {es : List Record}

namespace Block

theorem readIsNamed_ok (name : Path) (hlen : direntGetLen (blockAt b p) ≤ 256)
    (hmin : direntFlashSize ≤ direntGetLen (blockAt b p)) (hp : p + 256 ≤ pageSize) :
    ∃ v, b.readIsNamed name p (direntGetLen (blockAt b p)) = .ok v := by
  unfold direntFlashSize at hmin
  unfold readIsNamed direntFlashSize
  by_cases hname : name.length = (direntGetLen (blockAt b p) + 2 ^ 32 - 10) % 2 ^ 32
  · rw [if_pos hname, readStrncmp_ok (by omega)]
    exact ⟨_, rfl⟩
  · rw [if_neg hname]
    exact ⟨_, rfl⟩

/-- The look-up stays in the block. -/
theorem scanCompare_ok (name : Path) {base : Int} {n : Nat} (h : HoldsEntries b p es)
    (hes : ∀ e ∈ es, direntFlashSize ≤ e.length) (hp : p + 256 ≤ pageSize)
    (hn : pageSize ≤ p + n)
    (hbase : ∀ q : Nat, q < pageSize → calcOffsetInFileBlock (base + q) = q) :
    ∃ r, b.scanCompare name n p (base + p) = .ok r := by
  induction h generalizing n with
  | @erased p _ herased =>
    obtain ⟨n, rfl⟩ := Nat.exists_eq_succ_of_ne_zero (show n ≠ 0 by omega)
    rw [scanCompare, readIsEmpty_ok (by omega), scan_bind, isDirentEmpty_erased herased,
      if_pos rfl]
    exact ⟨_, rfl⟩
  | @entry p es hne hpos hlen _ hrest ih =>
    obtain ⟨n, rfl⟩ := Nat.exists_eq_succ_of_ne_zero (show n ≠ 0 by omega)
    have hmin : direntFlashSize ≤ direntGetLen (blockAt b p) := by
      rw [← length_recordOf]
      exact hes _ List.mem_cons_self
    obtain ⟨isNamed, hnamed⟩ := readIsNamed_ok name hlen hmin hp
    have hlt := hrest.lt
    rw [scanCompare, readIsEmpty_ok (by omega), scan_bind, hne, if_neg Bool.false_ne_true,
      readLen_ok (by omega), scan_bind, hnamed, scan_bind]
    by_cases hfound : isNamed = true
    · rw [if_pos hfound, show b.readByte p = .ok (b.byte p) from readByte_ok (by omega),
        scan_bind, readInoNum_ok (by omega)]
      exact ⟨_, rfl⟩
    rw [if_neg hfound]
    dsimp only
    rw [show base + p + (direntGetLen (blockAt b p) : Int)
      = base + (p + direntGetLen (blockAt b p) : Nat) by push_cast; ring]
    by_cases hfull : isDirentBlockFull (base + (p + direntGetLen (blockAt b p) : Nat)) = true
    · rw [if_pos hfull]
      exact ⟨_, rfl⟩
    · rw [if_neg hfull]
      rw [isDirentBlockFull, decide_eq_true_iff, hbase _ hlt, fsBlockSize] at hfull
      exact ih (fun e he => hes e (List.mem_cons_of_mem _ he)) (by omega) (by omega)

/-- `readdir` reads a `nandfs_dirent` where there is room for one. -/
theorem scanReaddir_ok (hsize : 256 ≤ pageSize) (offset : Int) :
    ∃ r, b.scanReaddir offset = .ok r := by
  unfold scanReaddir
  by_cases hfull : isDirentBlockFull offset = true
  · rw [if_pos hfull]
    exact ⟨_, rfl⟩
  rw [if_neg hfull]
  rw [isDirentBlockFull, decide_eq_true_iff, fsBlockSize] at hfull
  dsimp only
  rw [readIsEmpty_ok (by omega), scan_bind]
  split_ifs
  · exact ⟨_, rfl⟩
  · rw [readBytes_ok (by omega)]
    exact ⟨_, rfl⟩

/-- The loop of `nandfs_scandir` stays in the block where there is room to see that no entry
follows. -/
theorem scanScandir_ok {cb : ScandirCallbacks} {after : Nat → UInt8} {n : Nat} {list : Namelist}
    (h : HoldsEntries b p es) (hend : p + es.flatten.length + 5 ≤ pageSize)
    (hn : pageSize ≤ p + n) : ∃ r, b.scanScandir cb after n p list = .ok r := by
  induction h generalizing n list with
  | @erased p hp herased =>
    obtain ⟨n, rfl⟩ := Nat.exists_eq_succ_of_ne_zero (show n ≠ 0 by omega)
    rw [List.flatten_nil, List.length_nil] at hend
    rw [scanScandir, readIsEmpty_ok (by omega), scan_bind, isDirentEmpty_erased herased,
      if_pos rfl]
    exact ⟨_, rfl⟩
  | @entry p es hne hpos hlen _ hrest ih =>
    obtain ⟨n, rfl⟩ := Nat.exists_eq_succ_of_ne_zero (show n ≠ 0 by omega)
    rw [List.flatten_cons, List.length_append, length_recordOf, ← Nat.add_assoc] at hend
    rw [scanScandir, readIsEmpty_ok (by omega), scan_bind, hne, if_neg Bool.false_ne_true]
    split_ifs
    · exact ⟨_, rfl⟩
    · rw [readLen_ok (by omega), scan_bind, readBytes_ok (by omega), scan_bind]
      exact ih hend (by omega)
    · rw [readLen_ok (by omega), scan_bind]
      exact ih hend (by omega)

/-- Where there is not, a scan that no filter stops leaves it. -/
theorem scanScandir_outside (cb : ScandirCallbacks) (after : Nat → UInt8) {n : Nat}
    (list : Namelist) (hfilter : ∀ de, cb.filter de = false) (h : HoldsEntries b p es)
    (hend : pageSize < p + es.flatten.length + 5) (hn : pageSize ≤ p + n) :
    ∃ place, b.scanScandir cb after n p list = .error (.outside place) := by
  induction h generalizing n with
  | @erased p hp herased =>
    obtain ⟨n, rfl⟩ := Nat.exists_eq_succ_of_ne_zero (show n ≠ 0 by omega)
    rw [List.flatten_nil, List.length_nil] at hend
    obtain ⟨place, hread⟩ := readIsEmpty_outside (b := b) (p := p) (by omega)
    rw [scanScandir, hread]
    exact ⟨place, rfl⟩
  | @entry p es hne hpos hlen _ hrest ih =>
    obtain ⟨n, rfl⟩ := Nat.exists_eq_succ_of_ne_zero (show n ≠ 0 by omega)
    rw [List.flatten_cons, List.length_append, length_recordOf, ← Nat.add_assoc] at hend
    rw [scanScandir, readIsEmpty_ok (by omega), scan_bind, hne, if_neg Bool.false_ne_true,
      hfilter, if_neg Bool.false_ne_true, readLen_ok (by omega), scan_bind]
    exact ih hend (by omega)

/-- The first empty entry is found where there is room for it. -/
theorem scanFirstEmpty_ok {n : Nat} (h : HoldsEntries b p es)
    (hend : p + es.flatten.length + 5 ≤ pageSize) (hn : pageSize ≤ p + n) :
    b.scanFirstEmpty n p = .ok (p + es.flatten.length) := by
  induction h generalizing n with
  | @erased p hp herased =>
    obtain ⟨n, rfl⟩ := Nat.exists_eq_succ_of_ne_zero (show n ≠ 0 by omega)
    rw [List.flatten_nil, List.length_nil, Nat.add_zero] at hend ⊢
    rw [scanFirstEmpty, readIsEmpty_ok hend, scan_bind, isDirentEmpty_erased herased, if_pos rfl]
    rfl
  | @entry p es hne hpos hlen _ hrest ih =>
    obtain ⟨n, rfl⟩ := Nat.exists_eq_succ_of_ne_zero (show n ≠ 0 by omega)
    rw [List.flatten_cons, List.length_append, length_recordOf, ← Nat.add_assoc] at hend ⊢
    rw [scanFirstEmpty, readIsEmpty_ok (by omega), scan_bind, hne, if_neg Bool.false_ne_true,
      readLen_ok (by omega), scan_bind]
    exact ih hend (by omega)

/-- The first entry of a file is found. -/
theorem scanInoNum_ok {n : Nat} {e : Record} {pre post : List Record}
    (h : HoldsEntries b p (pre ++ e :: post))
    (hes : ∀ e' ∈ pre ++ e :: post, direntFlashSize ≤ e'.length)
    (hpre : ∀ e' ∈ pre, recordInoNum e' ≠ recordInoNum e) (hn : pageSize ≤ p + n) :
    b.scanInoNum (recordInoNum e) n p = .ok (p + pre.flatten.length) := by
  induction pre generalizing p n with
  | nil =>
    cases h with
    | entry hne hpos hlen hp hrest =>
      obtain ⟨n, rfl⟩ := Nat.exists_eq_succ_of_ne_zero (show n ≠ 0 by omega)
      have hmin := hes _ List.mem_cons_self
      rw [length_recordOf] at hmin
      rw [scanInoNum, readIsEmpty_ok (by omega), scan_bind, hne, if_neg Bool.false_ne_true,
        readInoNum_ok (by omega), scan_bind, if_pos (record_fields hmin).1.symm]
      rfl
  | cons e' pre ih =>
    cases h with
    | entry hne hpos hlen hp hrest =>
      obtain ⟨n, rfl⟩ := Nat.exists_eq_succ_of_ne_zero (show n ≠ 0 by omega)
      have hmin := hes _ List.mem_cons_self
      have hother := hpre _ List.mem_cons_self
      rw [length_recordOf] at hmin
      rw [(record_fields hmin).1] at hother
      rw [scanInoNum, readIsEmpty_ok (by omega), scan_bind, hne, if_neg Bool.false_ne_true,
        readInoNum_ok (by omega), scan_bind, if_neg hother, readLen_ok (by omega), scan_bind,
        ih hrest (fun e' he => hes e' (List.mem_cons_of_mem _ he))
          (fun e' he => hpre e' (List.mem_cons_of_mem _ he)) (by omega),
        List.flatten_cons, List.length_append, length_recordOf, Nat.add_assoc]

end Block

end Entries

end NandFs
