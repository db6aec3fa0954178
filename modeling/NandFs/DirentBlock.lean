import NandFs.DirectoryReads
import Mathlib.Data.List.GetD
import Mathlib.Tactic.IntervalCases

/-! # Entries added to a directory block and deleted from it

`setNewDirentry` writes an entry where the first empty one begins, and `deleteDeFromBlock` moves
what follows an entry over it with a byte-wise copy and erases the bytes that become free.  The
other entries stay as they were, and a block that an entry was deleted from always has room for
the empty entry that ends it.
-/
namespace NandFs

section
variable [Config]

/-! ## Copies within a buffer -/

namespace Block

/-- Byte `k` of the buffer is set. -/
def setByte (b : Block) (k : Nat) (v : UInt8) : Block := fun j => if j.val = k then v else b j

/-- The rounds of `fsMemcpy`, of two bytes each. -/
def memcpyPairs : Nat → Nat → Nat → Block → Block
  | 0, _, _, b => b
  | count + 1, dst8, src8, b =>
    let b := b.setByte dst8 (b.byte src8)
    let b := b.setByte (dst8 + 1) (b.byte (src8 + 1))
    memcpyPairs count (dst8 + 2) (src8 + 2) b

/-- `fsMemcpy` from one place of a buffer to another. -/
def fsMemcpy (dest src count : Nat) (b : Block) : Block :=
  if count % 2 = 1 then memcpyPairs (count / 2) (dest + 1) (src + 1) (b.setByte dest (b.byte src))
  else memcpyPairs (count / 2) dest src b

/-- `fsMemset` -/
def fsMemset : Nat → UInt8 → Nat → Block → Block
  | _, _, 0, b => b
  | s, c, n + 1, b => fsMemset (s + 1) c n (b.setByte s c)

variable {b b' : Block}

theorem byte_of_le {k : Nat} (h : pageSize ≤ k) : b.byte k = 0xff :=
  dif_neg (Nat.not_lt_of_le h)

theorem byte_setByte {k : Nat} (hk : k < pageSize) (v : UInt8) (j : Nat) :
    (b.setByte k v).byte j = if j = k then v else b.byte j := by
  unfold byte setByte
  split_ifs with hj heq heq
  · rfl
  · rfl
  · omega
  · rfl

theorem ext_byte (h : ∀ k, b'.byte k = b.byte k) : b' = b := by
  funext j
  have hj := h j
  rwa [byte, dif_pos j.isLt, byte, dif_pos j.isLt] at hj

/-- A copy to the front reads each byte before it is overwritten. -/
theorem byte_memcpyPairs {count dst src : Nat} (hle : dst ≤ src)
    (hsrc : src + 2 * count ≤ pageSize) (k : Nat) :
    (memcpyPairs count dst src b).byte k =
      if dst ≤ k ∧ k < dst + 2 * count then b.byte (src + (k - dst)) else b.byte k := by
  induction count generalizing dst src b with
  | zero => rw [if_neg (by omega), memcpyPairs]
  | succ count ih =>
    have hb : ∀ j, ((b.setByte dst (b.byte src)).setByte (dst + 1)
        ((b.setByte dst (b.byte src)).byte (src + 1))).byte j =
        if j = dst + 1 then b.byte (src + 1) else if j = dst then b.byte src else b.byte j := by
      intro j
      rw [byte_setByte (by omega), byte_setByte (by omega), byte_setByte (by omega),
        if_neg (show src + 1 ≠ dst by omega)]
    rw [memcpyPairs, ih (by omega) (by omega), hb, hb]
    by_cases hin : dst ≤ k ∧ k < dst + 2 * (count + 1)
    · rw [if_pos hin]
      rcases Nat.lt_or_ge k (dst + 2) with hk | hk
      · rw [if_neg (by omega)]
        rcases Nat.lt_or_ge k (dst + 1) with hk0 | hk1
        · obtain rfl : k = dst := by omega
          rw [if_neg (by omega), if_pos rfl, Nat.sub_self, Nat.add_zero]
        · obtain rfl : k = dst + 1 := by omega
          rw [if_pos rfl, Nat.add_sub_cancel_left]
      · rw [if_pos (by omega), if_neg (by omega), if_neg (by omega)]
        congr 1
        omega
    · rw [if_neg (by omega), if_neg (by omega), if_neg (by omega), if_neg hin]

theorem byte_fsMemcpy {count dst src : Nat} (hle : dst ≤ src) (hsrc : src + count ≤ pageSize)
    (k : Nat) : (fsMemcpy dst src count b).byte k =
      if dst ≤ k ∧ k < dst + count then b.byte (src + (k - dst)) else b.byte k := by
  unfold fsMemcpy
  by_cases hodd : count % 2 = 1
  · have hset : ∀ j, (b.setByte dst (b.byte src)).byte j = if j = dst then b.byte src else b.byte j :=
      byte_setByte (by omega) _
    rw [if_pos hodd, byte_memcpyPairs (Nat.succ_le_succ hle) (by omega), hset, hset]
    rcases Nat.eq_or_lt_of_le (Nat.zero_le (k - dst)) with hzero | hpos
    · -- the byte that is copied before the pairs, or one before them
      rw [if_neg (by omega)]
      by_cases hk : k = dst
      · rw [if_pos hk, if_pos (by omega), hk, Nat.sub_self, Nat.add_zero]
      · rw [if_neg hk, if_neg (by omega)]
    · rw [if_neg (show k ≠ dst by omega)]
      by_cases hin : k < dst + count
      · rw [if_pos (by omega), if_neg (by omega), if_pos (by omega)]
        congr 1
        omega
      · rw [if_neg (by omega), if_neg (by omega)]
  · rw [if_neg hodd, byte_memcpyPairs hle (by omega)]
    by_cases hin : dst ≤ k ∧ k < dst + count
    · rw [if_pos (by omega), if_pos hin]
    · rw [if_neg (by omega), if_neg hin]

theorem byte_fsMemset {n s : Nat} {c : UInt8} (hs : s + n ≤ pageSize) (k : Nat) :
    (fsMemset s c n b).byte k = if s ≤ k ∧ k < s + n then c else b.byte k := by
  induction n generalizing s b with
  | zero => rw [if_neg (by omega), fsMemset]
  | succ n ih =>
    rw [fsMemset, ih (by omega), byte_setByte (by omega)]
    split_ifs <;> first | rfl | omega

end Block

/-! ## The two operations -/

/-- `DIRENT_FLASH_SIZE`: the fields of an entry and the terminator of its name. -/
def direntFlashSize : Nat := 10

/-- `deleteDeFromBlock` of the `deLen` bytes at `deOffset`. -/
def deleteDeFromBlock (deLen deOffset : Nat) (dataBuf : Block) : Block :=
  let pastDeDataLen := pageSize - (deOffset + deLen)
  (dataBuf.fsMemcpy deOffset (deOffset + deLen) pastDeDataLen).fsMemset
    (deOffset + pastDeDataLen) 0xff deLen

/-- The four bytes of a `uint32_t`, the lowest first. -/
def uint32Bytes (v : Nat) : List UInt8 :=
  [UInt8.ofNat v, UInt8.ofNat (v / 2 ^ 8), UInt8.ofNat (v / 2 ^ 16), UInt8.ofNat (v / 2 ^ 24)]

/-- Bytes are stored in a buffer from a place on. -/
def Block.store (b : Block) (k : Nat) : List UInt8 → Block
  | [] => b
  | v :: vs => (b.setByte k v).store (k + 1) vs

/-- `setNewDirentry` at a place of a block. -/
def setNewDirentry (b : Block) (place : Nat) (fId : BitVec 32) (fType : UInt8) (name : Path) :
    Block :=
  let b := b.store (place + 1) (uint32Bytes fId.toNat)
  let b := b.store place [fType]
  let b := b.store (place + 5) (uint32Bytes (name.length + direntFlashSize))
  b.store (place + 9) (name ++ [0])

/-- The entry that `setNewDirentry` writes. -/
def newDirentry (fId : BitVec 32) (fType : UInt8) (name : Path) : Record :=
  fType :: (uint32Bytes fId.toNat ++ (uint32Bytes (name.length + direntFlashSize) ++ (name ++ [0])))

/-- The entries of a block from place `p` on, up to the empty one or, where there is no room for
it, the end of the block. -/
inductive DirentsAt (b : Block) : Nat → List Record → Prop
  | done {p : Nat} (hle : p ≤ pageSize) (hend : isDirentEmpty (blockAt b p) = true) :
      DirentsAt b p []
  | entry {p : Nat} {es : List Record} (hne : isDirentEmpty (blockAt b p) = false)
      (hlen : direntFlashSize ≤ direntGetLen (blockAt b p))
      (hroom : p + direntGetLen (blockAt b p) ≤ pageSize)
      (hrest : DirentsAt b (p + direntGetLen (blockAt b p)) es) :
      DirentsAt b p (recordOf (blockAt b p) :: es)

/-! ## What a deletion leaves -/

section Delete
variable {b b' : Block} {p len off k : Nat}

theorem byte_deleteDeFromBlock (h : off + len ≤ pageSize) (k : Nat) :
    (deleteDeFromBlock len off b).byte k = if k < off then b.byte k else b.byte (k + len) := by
  unfold deleteDeFromBlock
  dsimp only
  rw [Block.byte_fsMemset (by omega), Block.byte_fsMemcpy (by omega) (by omega)]
  by_cases hlt : k < off
  · rw [if_pos hlt, if_neg (by omega), if_neg (by omega)]
  rw [if_neg hlt]
  by_cases hin : k + len < pageSize
  · rw [if_neg (by omega), if_pos (by omega)]
    congr 1
    omega
  · rw [Block.byte_of_le (Nat.le_of_not_lt hin)]
    by_cases hk : k < pageSize
    · rw [if_pos (by omega)]
    · rw [if_neg (by omega), if_neg (by omega), Block.byte_of_le (Nat.le_of_not_lt hk)]

/-- The entries end within the block. -/
theorem DirentsAt.length_le {es : List Record} (h : DirentsAt b p es) :
    p + es.flatten.length ≤ pageSize := by
  induction h with
  | done hle hend => exact hle
  | entry hne hlen hroom hrest ih =>
    rw [List.flatten_cons, List.length_append, length_recordOf]
    omega

/-- The bytes from a place on that were moved there. -/
theorem blockAt_shift (hshift : ∀ k, p ≤ k → b'.byte k = b.byte (k + len)) :
    blockAt b' p = blockAt b (p + len) := by
  funext j
  rw [blockAt, hshift _ (Nat.le_add_right p j), blockAt, Nat.add_right_comm]

/-- Entries that are moved to the front of the block. -/
theorem DirentsAt.shift {es : List Record} (h : DirentsAt b (p + len) es)
    (hshift : ∀ k, p ≤ k → b'.byte k = b.byte (k + len)) : DirentsAt b' p es := by
  generalize hq : p + len = q at h
  induction h generalizing p with
  | done hle hend =>
    subst hq
    rw [← blockAt_shift hshift] at hend
    exact .done (by omega) hend
  | entry hne hlen hroom hrest ih =>
    subst hq
    rw [← blockAt_shift hshift] at hne hlen hroom ih ⊢
    exact .entry hne hlen (by omega) (ih (fun k hk => hshift k (by omega)) (by omega))

omit [Config] in
/-- An entry is read from its bytes. -/
theorem blockAt_congr {f g : Nat → UInt8} {n : Nat} (hn : direntFlashSize ≤ n)
    (h : ∀ j < n, f j = g j) :
    isDirentEmpty f = isDirentEmpty g ∧ direntGetLen f = direntGetLen g ∧
      (direntGetLen g ≤ n → recordOf f = recordOf g) := by
  unfold direntFlashSize at hn
  have hlen : direntGetLen f = direntGetLen g :=
    getUint32_congr fun j _ hj => h j (by omega)
  have hino : getUint32 f 1 = getUint32 g 1 := getUint32_congr fun j _ hj => h j (by omega)
  refine ⟨by rw [isDirentEmpty, direntGetInoNum, hino, isDirentEmpty, direntGetInoNum], hlen,
    fun hle => ?_⟩
  rw [recordOf, hlen, recordOf]
  exact List.map_congr_left fun j hj => h j (by have := List.mem_range.mp hj; omega)

/-- The entries behind the first ones. -/
theorem DirentsAt.suffix {pre post : List Record} (h : DirentsAt b p (pre ++ post)) :
    DirentsAt b (p + pre.flatten.length) post := by
  induction pre generalizing p with
  | nil => exact h
  | cons e pre ih =>
    cases h with
    | entry hne hlen hroom hrest =>
      rw [List.flatten_cons, List.length_append, length_recordOf, ← Nat.add_assoc]
      exact ih hrest

/-- The first entries stay and other ones follow them. -/
theorem DirentsAt.replace {pre post post' : List Record} (h : DirentsAt b p (pre ++ post))
    (hsame : ∀ k < p + pre.flatten.length, b'.byte k = b.byte k)
    (hpost : DirentsAt b' (p + pre.flatten.length) post') : DirentsAt b' p (pre ++ post') := by
  induction pre generalizing p with
  | nil => exact hpost
  | cons e pre ih =>
    cases h with
    | entry hne hlen hroom hrest =>
      rw [List.flatten_cons, List.length_append, length_recordOf, ← Nat.add_assoc] at hsame hpost
      have hbytes : ∀ j < direntGetLen (blockAt b p), blockAt b' p j = blockAt b p j :=
        fun j hj => hsame _ (by omega)
      obtain ⟨hempty, hlen', hrec⟩ := blockAt_congr hlen hbytes
      have hpre := ih hrest hsame hpost
      rw [← hlen'] at hlen hroom hpre
      rw [List.cons_append, ← hrec (Nat.le_of_eq rfl)]
      exact .entry (hempty.trans hne) hlen hroom hpre

/-- An entry is taken out and what follows it is moved up. -/
theorem DirentsAt.remove {e : Record} {pre post : List Record}
    (h : DirentsAt b p (pre ++ e :: post))
    (hbefore : ∀ k < p + pre.flatten.length, b'.byte k = b.byte k)
    (hafter : ∀ k, p + pre.flatten.length ≤ k → b'.byte k = b.byte (k + e.length)) :
    DirentsAt b' p (pre ++ post) := by
  refine h.replace hbefore ?_
  cases h.suffix with
  | entry hne hlen hroom hrest =>
    rw [length_recordOf] at hafter
    exact hrest.shift hafter

end Delete

/-! ## What is written -/

namespace Block
variable {b : Block}

theorem setByte_comm {k k' : Nat} (hne : k ≠ k') (v v' : UInt8) :
    (b.setByte k v).setByte k' v' = (b.setByte k' v').setByte k v := by
  funext j
  unfold setByte
  split_ifs <;> first | rfl | omega

theorem setByte_store {k k' : Nat} (hlt : k < k') (v : UInt8) (vs : List UInt8) :
    (b.store k' vs).setByte k v = (b.setByte k v).store k' vs := by
  induction vs generalizing b k' with
  | nil => rfl
  | cons v' vs ih =>
    rw [store, ih (Nat.lt_succ_of_lt hlt), setByte_comm (Nat.ne_of_gt hlt), store]

theorem store_append (k : Nat) (vs ws : List UInt8) :
    (b.store k vs).store (k + vs.length) ws = b.store k (vs ++ ws) := by
  induction vs generalizing b k with
  | nil => rfl
  | cons v vs ih =>
    rw [List.cons_append, store, store, ← ih, List.length_cons]
    congr 1
    omega

theorem byte_store {k : Nat} {vs : List UInt8} (hk : k + vs.length ≤ pageSize) (j : Nat) :
    (b.store k vs).byte j = if k ≤ j ∧ j < k + vs.length then vs.getD (j - k) 0 else b.byte j := by
  induction vs generalizing b k with
  | nil =>
    rw [List.length_nil, if_neg (by omega), store]
  | cons v vs ih =>
    rw [List.length_cons] at hk ⊢
    rw [store, ih (by omega), byte_setByte (by omega)]
    by_cases hj : j = k
    · subst hj
      rw [if_neg (by omega), if_pos rfl, if_pos (by omega), Nat.sub_self, List.getD_cons_zero]
    · rw [if_neg hj]
      by_cases hin : k ≤ j ∧ j < k + (vs.length + 1)
      · obtain ⟨d, hd⟩ := Nat.exists_eq_add_of_lt (show k < j by omega)
        rw [if_pos (by omega), if_pos hin, show j - k = d + 1 by omega, List.getD_cons_succ]
        congr 1
        omega
      · rw [if_neg (by omega), if_neg hin]

end Block

section Set
variable {b : Block} {place : Nat} {fId : BitVec 32} {fType : UInt8} {name : Path}

omit [Config] in
theorem length_newDirentry (fId : BitVec 32) (fType : UInt8) (name : Path) :
    (newDirentry fId fType name).length = name.length + direntFlashSize := by
  simp only [newDirentry, uint32Bytes, List.length_cons, List.length_append, List.length_nil,
    direntFlashSize]
  omega

/-- The fields are written in another order. -/
theorem setNewDirentry_eq (b : Block) (place : Nat) (fId : BitVec 32) (fType : UInt8)
    (name : Path) :
    setNewDirentry b place fId fType name = b.store place (newDirentry fId fType name) := by
  have htype : (b.store (place + 1) (uint32Bytes fId.toNat)).store place [fType]
      = b.store place (fType :: uint32Bytes fId.toNat) :=
    Block.setByte_store (Nat.lt_succ_self place) fType _
  have hlen : ∀ v, (uint32Bytes v).length = 4 := fun _ => rfl
  unfold setNewDirentry
  dsimp only
  rw [htype, show place + 5 = place + (fType :: uint32Bytes fId.toNat).length from rfl,
    Block.store_append, show place + 9 = place + (fType :: uint32Bytes fId.toNat
      ++ uint32Bytes (name.length + direntFlashSize)).length from rfl, Block.store_append,
    newDirentry, List.append_assoc, List.cons_append]

omit [Config] in
/-- A `uint32_t` that is stored is read back. -/
theorem getUint32_bytes {f : Nat → UInt8} {i v : Nat} (hv : v < 2 ^ 32)
    (h : ∀ j < 4, f (i + j) = (uint32Bytes v).getD j 0) : getUint32 f i = v := by
  have h0 : f i = UInt8.ofNat v := h 0 (by decide)
  have h1 : f (i + 1) = UInt8.ofNat (v / 2 ^ 8) := h 1 (by decide)
  have h2 : f (i + 2) = UInt8.ofNat (v / 2 ^ 16) := h 2 (by decide)
  have h3 : f (i + 3) = UInt8.ofNat (v / 2 ^ 24) := h 3 (by decide)
  rw [getUint32, h0, h1, h2, h3, UInt8.toNat_ofNat', UInt8.toNat_ofNat', UInt8.toNat_ofNat',
    UInt8.toNat_ofNat']
  omega

theorem blockAt_store {k j : Nat} {vs : List UInt8} (hk : k + vs.length ≤ pageSize)
    (hj : j < vs.length) : blockAt (b.store k vs) k j = vs.getD j 0 := by
  rw [blockAt, Block.byte_store hk, if_pos (by omega), Nat.add_sub_cancel_left]

variable (b fId fType name) in
/-- The entry that was written is read back. -/
theorem newDirentry_read (hname : name.length ≤ fsMaxNameLen)
    (hroom : place + (name.length + direntFlashSize) ≤ pageSize) :
    direntGetInoNum (blockAt (setNewDirentry b place fId fType name) place) = fId ∧
    direntGetLen (blockAt (setNewDirentry b place fId fType name) place)
      = name.length + direntFlashSize ∧
    recordOf (blockAt (setNewDirentry b place fId fType name) place)
      = newDirentry fId fType name := by
  have hlength := length_newDirentry fId fType name
  have hget : ∀ j < name.length + direntFlashSize,
      blockAt (setNewDirentry b place fId fType name) place j
        = (newDirentry fId fType name).getD j 0 := by
    intro j hj
    rw [setNewDirentry_eq]
    exact blockAt_store (by omega) (by omega)
  unfold fsMaxNameLen at hname
  unfold direntFlashSize at hget hlength ⊢
  have hlen : direntGetLen (blockAt (setNewDirentry b place fId fType name) place)
      = name.length + 10 := by
    refine getUint32_bytes (by omega) fun j hj => ?_
    rw [hget _ (by omega)]
    interval_cases j <;> rfl
  have hino : getUint32 (blockAt (setNewDirentry b place fId fType name) place) 1 = fId.toNat := by
    refine getUint32_bytes fId.isLt fun j hj => ?_
    rw [hget _ (by omega)]
    interval_cases j <;> rfl
  refine ⟨by rw [direntGetInoNum, hino, BitVec.ofNat_toNat, BitVec.setWidth_eq], hlen, ?_⟩
  refine List.ext_getElem (by rw [length_recordOf, hlen, hlength]) fun j hj hj' => ?_
  simp only [recordOf, List.getElem_map, List.getElem_range]
  rw [hget j (by omega), List.getD_eq_getElem _ _ hj']

variable (fType) in
/-- An entry is added at the end. -/
theorem DirentsAt.add {es : List Record} (h : DirentsAt b 0 es)
    (hblank : ∀ k, es.flatten.length ≤ k → b.byte k = 0xff) (hino : fId ≠ inoNumEmpty)
    (hname : name.length ≤ fsMaxNameLen)
    (hroom : es.flatten.length + (name.length + direntFlashSize) ≤ pageSize) :
    DirentsAt (setNewDirentry b es.flatten.length fId fType name) 0
      (es ++ [newDirentry fId fType name]) := by
  obtain ⟨hId, hlen, hrec⟩ := newDirentry_read b fId fType name hname hroom
  have hbyte := Block.byte_store (b := b)
    (show es.flatten.length + (newDirentry fId fType name).length ≤ pageSize by
      rw [length_newDirentry]; exact hroom)
  rw [← setNewDirentry_eq, length_newDirentry] at hbyte
  have hold : DirentsAt b 0 (es ++ []) := by rwa [List.append_nil]
  refine hold.replace (fun k hk => ?_) ?_
  · rw [hbyte, if_neg (by omega)]
  · rw [Nat.zero_add, ← hrec]
    refine .entry ?_ (by rw [hlen]; exact Nat.le_add_left _ _) (by rw [hlen]; exact hroom) ?_
    · rw [isDirentEmpty, hId]
      exact beq_eq_false_iff_ne.mpr hino
    · rw [hlen]
      refine .done hroom ?_
      have hff : ∀ j, blockAt (setNewDirentry b es.flatten.length fId fType name)
          (es.flatten.length + (name.length + direntFlashSize)) j = 0xff := fun j => by
        rw [blockAt, hbyte, if_neg (by omega)]
        exact hblank _ (by omega)
      rw [isDirentEmpty, direntGetInoNum, getUint32, hff, hff, hff, hff]
      decide

variable (fId fType name) in
/-- Behind the entry that was added nothing is written. -/
theorem erased_setNewDirentry {es : List Record} (hblank : ∀ k, es.flatten.length ≤ k → b.byte k = 0xff)
    (hroom : es.flatten.length + (name.length + direntFlashSize) ≤ pageSize) {k : Nat}
    (hk : (es ++ [newDirentry fId fType name]).flatten.length ≤ k) :
    (setNewDirentry b es.flatten.length fId fType name).byte k = 0xff := by
  rw [List.flatten_append, List.length_append, List.flatten_singleton, length_newDirentry] at hk
  rw [setNewDirentry_eq, Block.byte_store (by rwa [length_newDirentry]), length_newDirentry,
    if_neg (by omega)]
  exact hblank k (by omega)

/-- The deletion of an entry that was just written. -/
theorem deleteDeFromBlock_setNewDirentry (hblank : ∀ k, place ≤ k → b.byte k = 0xff)
    (hroom : place + (name.length + direntFlashSize) ≤ pageSize) :
    deleteDeFromBlock (name.length + direntFlashSize) place
      (setNewDirentry b place fId fType name) = b := by
  have hbyte := Block.byte_store (b := b)
    (show place + (newDirentry fId fType name).length ≤ pageSize by
      rw [length_newDirentry]; exact hroom)
  rw [← setNewDirentry_eq, length_newDirentry] at hbyte
  refine Block.ext_byte fun k => ?_
  rw [byte_deleteDeFromBlock hroom, hbyte, hbyte]
  by_cases hk : k < place
  · rw [if_pos hk, if_neg (by omega)]
  · rw [if_neg hk, if_neg (by omega), hblank _ (by omega), hblank _ (by omega)]

end Set

/-- A deletion leaves the other entries, in their order, and the empty entry behind them; that of
an entry which was just added leaves the block as it was. -/
theorem deleteDeFromBlock_removes (b : Block) :
    (∀ pre e post, DirentsAt b 0 (pre ++ e :: post) →
      DirentsAt (deleteDeFromBlock e.length pre.flatten.length b) 0 (pre ++ post) ∧
      (pre ++ post).flatten.length + direntFlashSize ≤ pageSize ∧
      isDirentEmpty (blockAt (deleteDeFromBlock e.length pre.flatten.length b)
        (pre ++ post).flatten.length) = true) ∧
    ∀ es fId fType name, DirentsAt b 0 es → (∀ k, es.flatten.length ≤ k → b.byte k = 0xff) →
      fId ≠ inoNumEmpty → name.length ≤ fsMaxNameLen →
      es.flatten.length + (name.length + direntFlashSize) ≤ pageSize →
      DirentsAt (setNewDirentry b es.flatten.length fId fType name) 0
        (es ++ [newDirentry fId fType name]) ∧
      deleteDeFromBlock (name.length + direntFlashSize) es.flatten.length
        (setNewDirentry b es.flatten.length fId fType name) = b := by
  refine ⟨fun pre e post h => ?_, fun es fId fType name h hblank hino hname hroom =>
    ⟨h.add _ hblank hino hname hroom, deleteDeFromBlock_setNewDirentry hblank hroom⟩⟩
  have hlen : direntFlashSize ≤ e.length := by
    cases h.suffix with
    | entry hne hlen hroom hrest => rwa [length_recordOf]
  have hle := h.length_le
  simp only [List.flatten_append, List.flatten_cons, List.length_append] at hle
  have hdel : DirentsAt (deleteDeFromBlock e.length pre.flatten.length b) 0 (pre ++ post) := by
    refine h.remove (fun k hk => ?_) fun k hk => ?_
    · rw [byte_deleteDeFromBlock (by omega), if_pos (by omega)]
    · rw [byte_deleteDeFromBlock (by omega), if_neg (by omega)]
  refine ⟨hdel, by rw [List.flatten_append, List.length_append]; omega, ?_⟩
  rw [← List.append_nil (pre ++ post)] at hdel
  have hend := hdel.suffix
  rw [Nat.zero_add] at hend
  cases hend with
  | done hle hend => exact hend

end

section SmallPage
attribute [local instance] smallPage

/-- The entries of three files. -/
def threeEntries : List Record :=
  [newDirentry 5#32 0 [97], newDirentry 6#32 0 [98, 98], newDirentry 7#32 0 [99]]

/-- An erased block to which they are added. -/
def threeDirents : Block :=
  setNewDirentry (setNewDirentry (setNewDirentry (fun _ => 0xff) 0 5#32 0 [97]) 11 6#32 0 [98, 98]) 23
    7#32 0 [99]

/-- The entry in the middle is deleted, or the last one, which was just added. -/
theorem deleteDeFromBlock_removes_smallPage : DirentsAt threeDirents 0 threeEntries ∧
    DirentsAt (deleteDeFromBlock 12 11 threeDirents) 0
      [newDirentry 5#32 0 [97], newDirentry 7#32 0 [99]] ∧
    isDirentEmpty (blockAt (deleteDeFromBlock 12 11 threeDirents) 22) = true ∧
    DirentsAt (deleteDeFromBlock 11 23 threeDirents) 0
      [newDirentry 5#32 0 [97], newDirentry 6#32 0 [98, 98]] := by
  have hblank : ∀ k, Block.byte (fun _ => 0xff) k = 0xff := fun k => by
    unfold Block.byte
    split_ifs <;> rfl
  obtain ⟨hone, -⟩ := (deleteDeFromBlock_removes fun _ => 0xff).2 [] 5#32 0 [97]
    (.done (by decide) (by decide)) (fun k _ => hblank k) (by decide) (by decide) (by decide)
  have hblank₁ := fun k => erased_setNewDirentry (b := fun _ => 0xff) 5#32 0 [97]
    (show ∀ k, ([] : List Record).flatten.length ≤ k → _ from fun k _ => hblank k) (by decide) (k := k)
  obtain ⟨htwo, -⟩ := (deleteDeFromBlock_removes _).2 [newDirentry 5#32 0 [97]] 6#32 0 [98, 98] hone
    hblank₁ (by decide) (by decide) (by decide)
  have hblank₂ := fun k => erased_setNewDirentry 6#32 0 [98, 98] hblank₁ (by decide) (k := k)
  obtain ⟨hthree, hback⟩ := (deleteDeFromBlock_removes _).2
    [newDirentry 5#32 0 [97], newDirentry 6#32 0 [98, 98]] 7#32 0 [99] htwo hblank₂ (by decide)
    (by decide) (by decide)
  obtain ⟨hmiddle, -, hend⟩ := (deleteDeFromBlock_removes threeDirents).1
    [newDirentry 5#32 0 [97]] _ [newDirentry 7#32 0 [99]] hthree
  refine ⟨hthree, hmiddle, hend, ?_⟩
  have hback : deleteDeFromBlock 11 23 threeDirents = _ := hback
  rw [hback]
  exact htwo

end SmallPage

end NandFs
