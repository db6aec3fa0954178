import NandFs.CacheCounts
import NandFs.SegMapInjective

/-! # Flushing a transaction

`cache_flush_transaction_blocks` goes five times over the buffers and flushes those of a transaction
that wait for no other.  Where each buffer counts its own children, and what refers to a temporary
address is the parent of its buffer or the transaction, five times are enough for the levels of a
file, and no temporary address is left.
-/
namespace NandFs

open Program CacheConfig Config

section Words
variable [FsConfig]

/-! ## The addresses of a block by their places -/

/-- The places of the addresses that a block holds, in words. -/
def addressWords (dataType : DataType) : List Nat :=
  match dataType with
  | .inode => List.range' ((pageSize - 52) / 4) 13
  | .entries => List.range logAddressesPerBlock
  | _ => []

theorem pageSize_eq : pageSize = 4 * logAddressesPerBlock ∧ 128 ≤ logAddressesPerBlock := by
  have hge := FsConfig.powPageSize_ge_nine
  obtain ⟨k, hk⟩ := Nat.exists_eq_add_of_le hge
  have hpos : 1 ≤ 2 ^ k := Nat.one_le_two_pow
  have hsize : pageSize = 512 * 2 ^ k := by
    unfold pageSize
    rw [hk, pow_add]
    rfl
  unfold logAddressesPerBlock
  omega

theorem nestedAddrs_eq (dataType : DataType) (buf : Block) :
    nestedAddrs dataType buf = (addressWords dataType).map (blockGetIndex buf) := by
  obtain ⟨hsize, hge⟩ := pageSize_eq
  cases dataType with
  | inode =>
    have hfirst : 4 * ((pageSize - 52) / 4) = pageSize - 52 := by omega
    have hword : ∀ i, blockGetIndex buf ((pageSize - 52) / 4 + i) =
        logAddrAt buf (pageSize - 52 + 4 * i) := by
      intro i
      unfold blockGetIndex
      rw [Nat.mul_add, hfirst]
    have h12 : pageSize - 12 = pageSize - 52 + 4 * 10 := by omega
    have h8 : pageSize - 8 = pageSize - 52 + 4 * 11 := by omega
    have h4 : pageSize - 4 = pageSize - 52 + 4 * 12 := by omega
    have hrange : List.range' ((pageSize - 52) / 4) 13 =
        (List.range 13).map fun i => (pageSize - 52) / 4 + i := by
      rw [List.range'_eq_map_range]
    unfold nestedAddrs addressWords
    rw [hrange, List.map_map]
    simp only [Function.comp_def, hword, inodeGetIndirect, inodeGetDouble, inodeGetTriple, h12, h8,
      h4, directIndexEntries]
    rfl
  | entries => rfl
  | empty | regular | vots | dirents => rfl

theorem addressWords_lt {dataType : DataType} {k : Nat} (hk : k ∈ addressWords dataType) :
    k < logAddressesPerBlock := by
  obtain ⟨hsize, hge⟩ := pageSize_eq
  cases dataType with
  | inode =>
    obtain ⟨-, hlt⟩ := List.mem_range'_1.mp hk
    omega
  | entries => exact List.mem_range.mp hk
  | empty | regular | vots | dirents => exact absurd hk List.not_mem_nil

/-! ## Setting an address -/

theorem byte_blockSetIndex_of_ne (b : Block) {i j : Nat} (a : LogAddr)
    (hj : j < 4 * i ∨ 4 * i + 3 ≤ j) : (blockSetIndex b i a).byte j = b.byte j := by
  have hset : ∀ (c : Block) (k : Nat) (v : UInt8), j ≠ k → (c.setByte k v).byte j = c.byte j := by
    intro c k v hne
    unfold Block.byte Block.setByte
    split_ifs
    · rfl
    · rfl
  unfold blockSetIndex Block.store Block.store Block.store Block.store
  rw [hset _ _ _ (by omega), hset _ _ _ (by omega), hset _ _ _ (by omega)]

/-- The other addresses of a block stay. -/
theorem blockGetIndex_blockSetIndex_of_ne (b : Block) {i k : Nat} (a : LogAddr) (hne : k ≠ i) :
    blockGetIndex (blockSetIndex b i a) k = blockGetIndex b k := by
  unfold blockGetIndex logAddrAt
  rw [byte_blockSetIndex_of_ne b a (by omega), byte_blockSetIndex_of_ne b a (by omega),
    byte_blockSetIndex_of_ne b a (by omega)]

/-- The address of a page of the chip, or none. -/
def LogAddr.IsReal (a : LogAddr) : Prop := a.segment < 2048 ∨ a = LogAddr.empty

omit [FsConfig] in
theorem LogAddr.IsReal.not_cached {a : LogAddr} (ha : a.IsReal) : isCachedAddr a = false := by
  rcases ha with hlt | rfl
  · refine beq_eq_false_iff_ne.mpr fun he => ?_
    have hmagic : cacheMagicSeg = 4094 := rfl
    omega
  · rfl

/-- A real address that is set is not a temporary one. -/
theorem isCachedAddr_blockSetIndex (b : Block) {k : Nat} {a : LogAddr}
    (hk : k < logAddressesPerBlock) (ha : a.IsReal) :
    isCachedAddr (blockGetIndex (blockSetIndex b k a) k) = false := by
  obtain ⟨hsize, -⟩ := pageSize_eq
  have hbyte : ∀ j, j < 3 → (blockSetIndex b k a).byte (4 * k + j) = logAddrByte a j := by
    intro j hj
    unfold blockSetIndex
    rw [Block.byte_store (by simp; omega), if_pos (by simp; omega), Nat.add_sub_cancel_left]
    match j, hj with
    | 0, _ | 1, _ | 2, _ => rfl
  refine beq_eq_false_iff_ne.mpr fun he => ?_
  have hmagic : cacheMagicSeg = 4094 := rfl
  rw [hmagic] at he
  unfold blockGetIndex logAddrAt at he
  dsimp only at he
  rw [hbyte 1 (by decide), hbyte 2 (by decide)] at he
  rcases ha with hlt | rfl
  · have h1 := (logAddrByte a 1).toNat_lt
    simp only [logAddrByte, UInt8.toNat_ofNat'] at he h1
    omega
  · exact absurd he (by decide)

end Words

section Writes
variable [Config]

/-- The address of a page that was written. -/
theorem wp_writeBlock_address {E : Halt → World → Prop} (hE : ∀ e t, E e t) {w : World}
    (data : Page) (phyAddr : Nat) :
    wp (writeBlock data phyAddr) (fun a _ => a = w.segMap.reclaimed ∨ a = LogAddr.empty) E w := by
  unfold writeBlock
  rw [wp_bind, wp_getSegMap, wp_bind]
  refine (frame_nandProgramTotalPage _ _).wp (fun res t _ => ?_) fun e t _ => hE e t
  exact wp_ite (fun _ => .inr rfl) fun _ => .inl rfl

theorem Mapping.Phase.recSegment_lt {m : Mapping} (h : m.Phase) : m.recSegment < 2048 := by
  have hslots := nSlots_le
  rcases h with h | h
  · have := Mapping.lt_of_mem_existing h.le h.current_mem
    omega
  · have := Mapping.lt_of_mem_existing h.all.le h.current_mem
    omega

theorem wp_any {α : Type} (m : SeqM α) (w : World) : wp m (fun _ _ => True) (fun _ _ => True) w := by
  unfold wp
  cases m w <;> trivial

/-- A page that `allocAndWriteBlock` has written has the address of a page. -/
theorem allocAndWriteBlock_isReal {w t : World} {r : AllocResult} {logAddr prev : LogAddr}
    {data : Page} {onlyVOTs : Bool} {cpWriter : CheckpointWriter} (hphase : w.mapping.Phase)
    (hrun : allocAndWriteBlock logAddr data onlyVOTs prev cpWriter .not w = .ok r t)
    (herr : r.err = 0) : r.logAddr.IsReal := by
  have hwp : wp (allocAndWriteBlock logAddr data onlyVOTs prev cpWriter .not)
      (fun r _ => r.err = 0 → r.logAddr.IsReal) (fun _ _ => True) w := by
    unfold allocAndWriteBlock
    rw [wp_bind, wp_get]
    refine wp_ite (fun _ => fun he => absurd (show errorFlashFull = 0 from he) (by decide))
      fun _ => ?_
    refine wp_ite (fun _ => fun he => absurd (show errorNoReserveEu = 0 from he) (by decide))
      fun _ => ?_
    dsimp only
    have hframe : Frame id calcTargetPhyAddr := frame_calcTargetPhyAddr
    refine hframe.wp_bind (fun target u hu => ?_) fun _ _ _ => trivial
    obtain rfl : u = w := hu
    refine wp_seq (wp_writeBlock_address (fun _ _ => trivial) _ target) fun written v hwritten => ?_
    have hreal : written.IsReal := by
      rcases hwritten with rfl | rfl
      · exact .inl hphase.recSegment_lt
      · exact .inr rfl
    have hrest : ∀ x, wp (do
        modifySegMap SegMap.incrementReclaimedOffset
        if IsCommit.not = .last then pure ⟨0, written, false⟩
        else do
          let writeRes := if written.segment = noSegmentNum then 1 else 0
          let moved ← findNextFreePage cpWriter writeRes
          pure (⟨moved.1, written, moved.2⟩ : AllocResult)) (fun r _ => r.err = 0 → r.logAddr.IsReal)
          (fun _ _ => True) x := by
      intro x
      rw [wp_bind, wp_modifySegMap]
      refine wp_ite (fun _ _ => hreal) fun _ => ?_
      exact wp_seq (wp_any _ _) fun _ _ _ _ => hreal
    rw [wp_bind, wp_getSegMap]
    refine wp_ite (fun _ => ?_) fun _ => hrest _
    exact wp_seq (wp_any _ _) fun _ _ _ => hrest _
  exact of_wp_ok hwp hrun herr

end Writes

section Flush
variable [CacheConfig]

/-! ## What a transaction still has to flush -/

namespace CacheLruQ

/-- The buffers of a transaction that are in use. -/
def inUse (q : CacheLruQ) (tid : Int) : Finset Nat :=
  (Finset.range fsCacheBuffers).filter fun i =>
    (q.caches i).isFree = false ∧ (q.caches i).tid = tid

/-- The dirty buffers of a transaction. -/
def dirtyOf (q : CacheLruQ) (tid : Int) : Finset Nat :=
  (Finset.range fsCacheBuffers).filter fun i =>
    (q.caches i).isDirty = true ∧ (q.caches i).tid = tid

variable {q q' : CacheLruQ} {tid : Int} {cid i : Nat}

theorem mem_inUse : i ∈ q.inUse tid ↔
    i < fsCacheBuffers ∧ (q.caches i).isFree = false ∧ (q.caches i).tid = tid := by
  unfold inUse
  rw [Finset.mem_filter, Finset.mem_range]

theorem mem_dirtyOf : i ∈ q.dirtyOf tid ↔
    i < fsCacheBuffers ∧ (q.caches i).isDirty = true ∧ (q.caches i).tid = tid := by
  unfold dirtyOf
  rw [Finset.mem_filter, Finset.mem_range]

theorem dirtyOf_subset : q.dirtyOf tid ⊆ q.inUse tid := by
  intro i hi
  obtain ⟨hlt, hdirty, htid⟩ := mem_dirtyOf.mp hi
  refine mem_inUse.mpr ⟨hlt, ?_, htid⟩
  unfold CacheBuffer.isFree
  rw [hdirty]
  rfl

end CacheLruQ

/-- The places in the active index block of a transaction that are looked at for addresses. -/
def Transaction.activeWords (t : Transaction) : List Nat :=
  addressWords (if t.fileOffset = 0 then .inode else .entries)

/-- Each buffer of the transaction counts its dirty children, the levels of the buffers are those of
a file, and each temporary address stands for a dirty buffer of the transaction, in the one place
that is fixed when that buffer is flushed: an entry of its parent or, without a parent, the inode of
the transaction or one entry of its active index block. -/
structure Flushable (kinds : Nat → DataType) (level : Nat → Nat) (tid : Int) (s : CacheWorld) :
    Prop where
  phase : s.world.mapping.Phase
  refCount : ∀ b ∈ s.lruPtr.inUse tid, s.lruPtr.refCount b =
    (Parents.children (s.lruPtr.dirtyOf tid) s.lruPtr.parent b).card
  level_lt : ∀ b ∈ s.lruPtr.inUse tid, level b < 5
  level_child : ∀ i ∈ s.lruPtr.dirtyOf tid, ∀ b ∈ s.lruPtr.inUse tid,
    s.lruPtr.parent i = some b → level i < level b
  indexed : ∀ i ∈ s.lruPtr.dirtyOf tid, s.lruPtr.parent i ≠ none →
    (s.lruPtr.caches i).parentOffset ≠ none
  entries : ∀ b ∈ s.lruPtr.dirtyOf tid, ∀ k ∈ addressWords (kinds b),
    isCachedAddr (blockGetIndex (s.lruPtr.caches b).buf k) = true →
      ∃ i ∈ s.lruPtr.dirtyOf tid, s.lruPtr.parent i = some b ∧
        (s.lruPtr.caches i).parentOffset = some k
  inode : isCachedAddr (s.transactions tid).inoLogAddr = true →
    (s.transactions tid).inoLogAddr.offset ∈ s.lruPtr.dirtyOf tid ∧
      s.lruPtr.parent (s.transactions tid).inoLogAddr.offset = none
  active : ∀ k ∈ (s.transactions tid).activeWords,
    isCachedAddr (blockGetIndex (s.transactions tid).indirectBuf k) = true →
      (blockGetIndex (s.transactions tid).indirectBuf k).offset ∈ s.lruPtr.dirtyOf tid ∧
      s.lruPtr.parent (blockGetIndex (s.transactions tid).indirectBuf k).offset = none ∧
      (s.lruPtr.caches (blockGetIndex (s.transactions tid).indirectBuf k).offset).parentOffset
        ≠ none ∧
      ¬(isCachedAddr (s.transactions tid).inoLogAddr = true ∧
        (s.transactions tid).inoLogAddr.offset =
          (blockGetIndex (s.transactions tid).indirectBuf k).offset)
  once : ∀ k ∈ (s.transactions tid).activeWords, ∀ k' ∈ (s.transactions tid).activeWords,
    isCachedAddr (blockGetIndex (s.transactions tid).indirectBuf k) = true →
    isCachedAddr (blockGetIndex (s.transactions tid).indirectBuf k') = true →
    (blockGetIndex (s.transactions tid).indirectBuf k).offset =
      (blockGetIndex (s.transactions tid).indirectBuf k').offset → k = k'

/-! ## A buffer that was flushed -/

section Leave
variable {kinds : Nat → DataType} {level : Nat → Nat} {tid : Int} {s t : CacheWorld} {cid : Nat}

open CacheLruQ

/-- What is flushed of a buffer but its block, its links and its count. -/
def CacheBuffer.tracking (c : CacheBuffer) : Bool × LogAddr × Int × Option Nat × Option Nat :=
  (c.isDirty, c.logAddr, c.tid, c.parentCid, c.parentOffset)

theorem inUse_leave {q q' : CacheLruQ} (hself : q'.caches cid = initCacheBuffer)
    (hother : ∀ i, i ≠ cid → (q'.caches i).tracking = (q.caches i).tracking) :
    q'.inUse tid = (q.inUse tid).erase cid := by
  ext i
  rw [mem_inUse, Finset.mem_erase, mem_inUse]
  by_cases hi : i = cid
  · rw [hi, hself]
    simp
  · have hdirty : (q'.caches i).isDirty = (q.caches i).isDirty :=
      congrArg (fun p => p.1) (hother i hi)
    have haddr : (q'.caches i).logAddr = (q.caches i).logAddr :=
      congrArg (fun p => p.2.1) (hother i hi)
    have htid : (q'.caches i).tid = (q.caches i).tid := congrArg (fun p => p.2.2.1) (hother i hi)
    rw [CacheBuffer.isFree_congr hdirty haddr, htid]
    simp [hi]

theorem dirtyOf_leave {q q' : CacheLruQ} (hself : q'.caches cid = initCacheBuffer)
    (hother : ∀ i, i ≠ cid → (q'.caches i).tracking = (q.caches i).tracking) :
    q'.dirtyOf tid = (q.dirtyOf tid).erase cid := by
  ext i
  rw [mem_dirtyOf, Finset.mem_erase, mem_dirtyOf]
  by_cases hi : i = cid
  · rw [hi, hself]
    simp [initCacheBuffer]
  · have hdirty : (q'.caches i).isDirty = (q.caches i).isDirty :=
      congrArg (fun p => p.1) (hother i hi)
    have htid : (q'.caches i).tid = (q.caches i).tid := congrArg (fun p => p.2.2.1) (hother i hi)
    rw [hdirty, htid]
    simp [hi]

/-- A buffer of the transaction that waits for no other is initialised.  Where it was dirty, nothing
that referred to it holds a temporary address any more, and its parent counts one less. -/
theorem Flushable.leave (h : Flushable kinds level tid s) (hphase : t.world.mapping.Phase)
    (hself : t.lruPtr.caches cid = initCacheBuffer)
    (hother : ∀ i, i ≠ cid → (t.lruPtr.caches i).tracking = (s.lruPtr.caches i).tracking)
    (hcount : ∀ b, b ≠ cid → t.lruPtr.refCount b =
      if cid ∈ s.lruPtr.dirtyOf tid ∧ s.lruPtr.parent cid = some b then s.lruPtr.refCount b - 1
      else s.lruPtr.refCount b)
    (hbuf : ∀ b, b ≠ cid → ∀ k < logAddressesPerBlock,
      isCachedAddr (blockGetIndex (t.lruPtr.caches b).buf k) = true →
        isCachedAddr (blockGetIndex (s.lruPtr.caches b).buf k) = true ∧
        ¬(cid ∈ s.lruPtr.dirtyOf tid ∧ s.lruPtr.parent cid = some b ∧
          (s.lruPtr.caches cid).parentOffset = some k))
    (hfile : (t.transactions tid).fileOffset = (s.transactions tid).fileOffset)
    (hinode : isCachedAddr (t.transactions tid).inoLogAddr = true →
      (t.transactions tid).inoLogAddr = (s.transactions tid).inoLogAddr ∧
      (s.transactions tid).inoLogAddr.offset ≠ cid)
    (hactive : ∀ k ∈ (s.transactions tid).activeWords,
      isCachedAddr (blockGetIndex (t.transactions tid).indirectBuf k) = true →
        blockGetIndex (t.transactions tid).indirectBuf k =
          blockGetIndex (s.transactions tid).indirectBuf k ∧
        (blockGetIndex (s.transactions tid).indirectBuf k).offset ≠ cid) :
    Flushable kinds level tid t := by
  have hinUse : t.lruPtr.inUse tid = (s.lruPtr.inUse tid).erase cid := inUse_leave hself hother
  have hdirtyOf : t.lruPtr.dirtyOf tid = (s.lruPtr.dirtyOf tid).erase cid :=
    dirtyOf_leave hself hother
  have hparent : ∀ i, i ≠ cid → t.lruPtr.parent i = s.lruPtr.parent i :=
    fun i hi => congrArg (fun p => p.2.2.2.1) (hother i hi)
  have hoffset : ∀ i, i ≠ cid →
      (t.lruPtr.caches i).parentOffset = (s.lruPtr.caches i).parentOffset :=
    fun i hi => congrArg (fun p => p.2.2.2.2) (hother i hi)
  have hwords : (t.transactions tid).activeWords = (s.transactions tid).activeWords := by
    unfold Transaction.activeWords
    rw [hfile]
  constructor
  case phase => exact hphase
  case refCount =>
    intro b hb
    rw [hinUse] at hb
    obtain ⟨hbc, hb⟩ := Finset.mem_erase.mp hb
    rw [hcount b hbc, hdirtyOf, Parents.children_erase b fun i _ hi => hparent i hi]
    by_cases hchild : cid ∈ s.lruPtr.dirtyOf tid ∧ s.lruPtr.parent cid = some b
    · have hmem := Parents.mem_children.mpr hchild
      have hpos := Finset.card_pos.mpr ⟨cid, hmem⟩
      rw [if_pos hchild, h.refCount b hb, Finset.card_erase_of_mem hmem]
      omega
    · rw [if_neg hchild, h.refCount b hb,
        Finset.erase_eq_of_notMem fun hmem => hchild (Parents.mem_children.mp hmem)]
  case level_lt =>
    intro b hb
    rw [hinUse] at hb
    exact h.level_lt b (Finset.mem_of_mem_erase hb)
  case level_child =>
    intro i hi b hb hchild
    rw [hdirtyOf] at hi
    rw [hinUse] at hb
    obtain ⟨hic, hi⟩ := Finset.mem_erase.mp hi
    rw [hparent i hic] at hchild
    exact h.level_child i hi b (Finset.mem_of_mem_erase hb) hchild
  case indexed =>
    intro i hi hchild
    rw [hdirtyOf] at hi
    obtain ⟨hic, hi⟩ := Finset.mem_erase.mp hi
    rw [hparent i hic] at hchild
    rw [hoffset i hic]
    exact h.indexed i hi hchild
  case entries =>
    intro b hb k hk hcached
    rw [hdirtyOf] at hb ⊢
    obtain ⟨hbc, hb⟩ := Finset.mem_erase.mp hb
    obtain ⟨hcached, hleft⟩ := hbuf b hbc k (addressWords_lt hk) hcached
    obtain ⟨i, hi, hchild, hplace⟩ := h.entries b hb k hk hcached
    have hic : i ≠ cid := by
      rintro rfl
      exact hleft ⟨hi, hchild, hplace⟩
    refine ⟨i, Finset.mem_erase.mpr ⟨hic, hi⟩, ?_, ?_⟩
    · rw [hparent i hic, hchild]
    · rw [hoffset i hic, hplace]
  case inode =>
    intro hcached
    obtain ⟨hsame, hne⟩ := hinode hcached
    rw [hsame] at hcached ⊢
    obtain ⟨hmem, hroot⟩ := h.inode hcached
    rw [hdirtyOf, hparent _ hne]
    exact ⟨Finset.mem_erase.mpr ⟨hne, hmem⟩, hroot⟩
  case active =>
    intro k hk hcached
    rw [hwords] at hk
    obtain ⟨hsame, hne⟩ := hactive k hk hcached
    rw [hsame] at hcached ⊢
    obtain ⟨hmem, hroot, hplace, hino⟩ := h.active k hk hcached
    rw [hdirtyOf, hparent _ hne, hoffset _ hne]
    refine ⟨Finset.mem_erase.mpr ⟨hne, hmem⟩, hroot, hplace, fun ⟨hcached', hsame'⟩ => hino ?_⟩
    have hino' := (hinode hcached').1
    rw [hino'] at hcached' hsame'
    exact ⟨hcached', hsame'⟩
  case once =>
    intro k hk k' hk' hcached hcached' hsame
    rw [hwords] at hk hk'
    have hk₁ := (hactive k hk hcached).1
    have hk₂ := (hactive k' hk' hcached').1
    rw [hk₁] at hcached hsame
    rw [hk₂] at hcached' hsame
    exact h.once k hk k' hk' hcached hcached' hsame

end Leave

/-! ## What a flush leaves in the transaction -/

section Record
variable {t : Transaction} {cid : Nat} {a : LogAddr}

theorem Transaction.findCachedEntry_eq : t.findCachedEntry cid = t.activeWords.find? fun i =>
    isCachedAddr (blockGetIndex t.indirectBuf i) &&
      (blockGetIndex t.indirectBuf i).offset == cid := by
  obtain ⟨hsize, hge⟩ := pageSize_eq
  unfold findCachedEntry activeWords
  by_cases hfile : t.fileOffset = 0
  · have hcount : logAddressesPerBlock - (pageSize - 52) / 4 = 13 := by omega
    simp only [if_pos hfile]
    rw [hcount]
    rfl
  · simp only [if_neg hfile]
    rw [Nat.sub_zero, ← List.range_eq_range']
    rfl

/-- What a transaction holds of a buffer without a parent is fixed: afterwards neither the address
of its inode nor one in its active index block is the temporary address of the buffer. -/
theorem Transaction.fixReference_spec (parentOffset : Option Nat) (ha : a.IsReal)
    (hactive : ∀ k ∈ t.activeWords, isCachedAddr (blockGetIndex t.indirectBuf k) = true →
      (blockGetIndex t.indirectBuf k).offset = cid →
        parentOffset ≠ none ∧ ¬(isCachedAddr t.inoLogAddr = true ∧ t.inoLogAddr.offset = cid))
    (honce : ∀ k ∈ t.activeWords, ∀ k' ∈ t.activeWords,
      isCachedAddr (blockGetIndex t.indirectBuf k) = true →
      isCachedAddr (blockGetIndex t.indirectBuf k') = true →
      (blockGetIndex t.indirectBuf k).offset = cid →
      (blockGetIndex t.indirectBuf k').offset = cid → k = k') :
    (t.fixReference cid parentOffset a).fileOffset = t.fileOffset ∧
    (isCachedAddr (t.fixReference cid parentOffset a).inoLogAddr = true →
      (t.fixReference cid parentOffset a).inoLogAddr = t.inoLogAddr ∧
        t.inoLogAddr.offset ≠ cid) ∧
    ∀ k ∈ t.activeWords,
      isCachedAddr (blockGetIndex (t.fixReference cid parentOffset a).indirectBuf k) = true →
        blockGetIndex (t.fixReference cid parentOffset a).indirectBuf k =
          blockGetIndex t.indirectBuf k ∧ (blockGetIndex t.indirectBuf k).offset ≠ cid := by
  unfold fixReference
  by_cases hino : isCachedAddr t.inoLogAddr = true ∧ t.inoLogAddr.offset = cid
  · rw [if_pos hino]
    refine ⟨rfl, fun hcached => ?_, fun k hk hcached => ⟨rfl, fun hcid => ?_⟩⟩
    · exact absurd (hcached.symm.trans ha.not_cached) (by decide)
    · exact (hactive k hk hcached hcid).2 hino
  · rw [if_neg hino]
    have hkeep : isCachedAddr t.inoLogAddr = true →
        t.inoLogAddr = t.inoLogAddr ∧ t.inoLogAddr.offset ≠ cid :=
      fun hcached => ⟨rfl, fun hcid => hino ⟨hcached, hcid⟩⟩
    by_cases hplace : parentOffset ≠ none
    · rw [if_pos hplace, findCachedEntry_eq]
      cases hfind : t.activeWords.find? fun i =>
          isCachedAddr (blockGetIndex t.indirectBuf i) &&
            (blockGetIndex t.indirectBuf i).offset == cid with
      | none =>
        refine ⟨rfl, hkeep, fun k hk hcached => ⟨rfl, fun hcid => ?_⟩⟩
        have hnot := List.find?_eq_none.mp hfind k hk
        rw [hcached, hcid] at hnot
        exact hnot (by simp)
      | some i =>
        have hmem := List.mem_of_find?_eq_some hfind
        have hsome := List.find?_some hfind
        rw [Bool.and_eq_true, beq_iff_eq] at hsome
        refine ⟨rfl, hkeep, fun k hk hcached => ?_⟩
        dsimp only at hcached ⊢
        by_cases hki : k = i
        · rw [hki, isCachedAddr_blockSetIndex _ (addressWords_lt hmem) ha] at hcached
          exact absurd hcached (by decide)
        · rw [blockGetIndex_blockSetIndex_of_ne _ a hki] at hcached ⊢
          exact ⟨rfl, fun hcid => hki (honce k hk i hmem hcached hsome.1 hcid hsome.2)⟩
    · rw [if_neg hplace]
      exact ⟨rfl, hkeep, fun k hk hcached => ⟨rfl, fun hcid => hplace (hactive k hk hcached hcid).1⟩⟩

end Record

/-! ## One flush -/

section Step
variable {kinds : Nat → DataType} {level : Nat → Nat} {tid : Int} {s t : CacheWorld} {cid : Nat}

open CacheLruQ

/-- The parent's entry is fixed, and the parent counts one less. -/
theorem fixParent_caches {q : CacheLruQ} {a : LogAddr} {k : Nat}
    (hplace : (q.caches cid).parentOffset = some k) (i : Nat) :
    (q.fixParent cid a).caches i = if q.parent cid = some i then
      { q.caches i with
        buf := blockSetIndex (q.caches i).buf k a
        refCount := (q.caches i).refCount - 1 } else q.caches i := by
  unfold fixParent setParentEntry parent
  cases hparent : (q.caches cid).parentCid with
  | none => rfl
  | some p =>
    dsimp only
    rw [modify_caches, modify_caches, hplace]
    by_cases hi : i = p
    · rw [if_pos hi, if_pos hi, if_pos (congrArg some hi.symm)]
      rfl
    · rw [if_neg hi, if_neg hi, if_neg fun he => hi (Option.some.inj he).symm]

theorem fixParent_root {q : CacheLruQ} {a : LogAddr} (hroot : q.parent cid = none) :
    q.fixParent cid a = q := by
  unfold fixParent
  rw [show (q.caches cid).parentCid = none from hroot]

/-- The blocks that were flushed from `s` to `t` hold no temporary address. -/
def FlushedReal (kinds : Nat → DataType) (s t : CacheWorld) : Prop :=
  ∃ blocks, t.flushed = s.flushed ++ blocks ∧
    ∀ f ∈ blocks, ∀ a ∈ nestedAddrs (kinds f.cid) f.block, isCachedAddr a = false

theorem FlushedReal.refl (s : CacheWorld) : FlushedReal kinds s s :=
  ⟨[], (List.append_nil _).symm, fun _ hf => absurd hf List.not_mem_nil⟩

theorem FlushedReal.trans {u : CacheWorld} (h : FlushedReal kinds s t)
    (h' : FlushedReal kinds t u) : FlushedReal kinds s u := by
  obtain ⟨blocks, hblocks, hreal⟩ := h
  obtain ⟨blocks', hblocks', hreal'⟩ := h'
  refine ⟨blocks ++ blocks', ?_, fun f hf => ?_⟩
  · rw [hblocks', hblocks, List.append_assoc]
  · rcases List.mem_append.mp hf with hf | hf
    · exact hreal f hf
    · exact hreal' f hf

/-- Fixing the parent changes only its block and its count, and leaves the entry real. -/
theorem Flushable.fixParent (h : Flushable kinds level tid s) {a : LogAddr} (ha : a.IsReal)
    (hmem : cid ∈ s.lruPtr.dirtyOf tid) (i : Nat) :
    ((s.lruPtr.fixParent cid a).caches i).tracking = (s.lruPtr.caches i).tracking ∧
    ∀ k < logAddressesPerBlock,
      isCachedAddr (blockGetIndex ((s.lruPtr.fixParent cid a).caches i).buf k) = true →
        isCachedAddr (blockGetIndex (s.lruPtr.caches i).buf k) = true ∧
        ¬(s.lruPtr.parent cid = some i ∧ (s.lruPtr.caches cid).parentOffset = some k) := by
  cases hparent : s.lruPtr.parent cid with
  | none =>
    rw [fixParent_root hparent]
    exact ⟨rfl, fun k _ hcached => ⟨hcached, fun hchild => absurd hchild.1.symm
      (Option.some_ne_none i)⟩⟩
  | some p =>
    obtain ⟨place, hplace⟩ := Option.ne_none_iff_exists'.mp
      (h.indexed cid hmem (hparent ▸ Option.some_ne_none p))
    rw [fixParent_caches hplace, hparent, hplace]
    by_cases hip : p = i
    · rw [if_pos (congrArg some hip)]
      refine ⟨rfl, fun k hk hcached => ?_⟩
      dsimp only at hcached
      by_cases hkp : k = place
      · rw [← hkp, isCachedAddr_blockSetIndex _ hk ha] at hcached
        exact absurd hcached (by decide)
      · rw [blockGetIndex_blockSetIndex_of_ne _ a hkp] at hcached
        exact ⟨hcached, fun hchild => hkp (Option.some.inj hchild.2).symm⟩
    · rw [if_neg fun he => hip (Option.some.inj he)]
      exact ⟨rfl, fun k _ hcached => ⟨hcached, fun hchild => hip (Option.some.inj hchild.1)⟩⟩

/-- The block of a buffer that waits for no other holds no temporary address. -/
theorem Flushable.real (h : Flushable kinds level tid s) (hmem : cid ∈ s.lruPtr.dirtyOf tid)
    (href : (s.lruPtr.caches cid).refCount ≤ 0) :
    ∀ a ∈ nestedAddrs (kinds cid) (s.lruPtr.caches cid).buf, isCachedAddr a = false := by
  intro a ha
  rw [nestedAddrs_eq] at ha
  obtain ⟨k, hk, rfl⟩ := List.mem_map.mp ha
  by_contra hcached
  obtain ⟨i, hi, hchild, -⟩ := h.entries cid hmem k hk (Bool.not_eq_false _ ▸ hcached)
  have hpos := Finset.card_pos.mpr ⟨i, Parents.mem_children.mpr ⟨hi, hchild⟩⟩
  have hcount : (s.lruPtr.caches cid).refCount = _ := h.refCount cid (dirtyOf_subset hmem)
  omega

/-- A dirty buffer of the transaction that waits for no other is written and initialised. -/
theorem Flushable.written (h : Flushable kinds level tid s) {a : LogAddr} {w : World}
    (hcid : cid < fsCacheBuffers) (htid : (s.lruPtr.caches cid).tid = tid)
    (href : (s.lruPtr.caches cid).refCount ≤ 0) (hdirty : (s.lruPtr.caches cid).isDirty = true)
    (hwrites : s.Writes cid 0 a w)
    (ht : t = { s.written cid w a with lruPtr := (s.lruPtr.fixParent cid a).recycle cid }) :
    Flushable kinds level tid t ∧ FlushedReal kinds s t ∧
      ∀ i, i ≠ cid → (t.lruPtr.caches i).tracking = (s.lruPtr.caches i).tracking := by
  obtain ⟨cpWritten, hrun⟩ := hwrites
  have ha : a.IsReal := allocAndWriteBlock_isReal h.phase hrun rfl
  have hphase : w.mapping.Phase :=
    (preserves_allocAndWriteBlock (frame_checkpointWriter _ _) _ _ _ _ _).ok h.phase hrun
  have hmem : cid ∈ s.lruPtr.dirtyOf tid := mem_dirtyOf.mpr ⟨hcid, hdirty, htid⟩
  have hlru : t.lruPtr = (s.lruPtr.fixParent cid a).recycle cid := by rw [ht]
  have hrecord : t.transactions tid = ({ s.transactions tid with prevLogAddr := a } :
      Transaction).fixBuffer cid (s.lruPtr.caches cid) a := by
    rw [ht, ← htid]
    exact Function.update_self _ _ _
  have hother : ∀ i, i ≠ cid → (t.lruPtr.caches i).tracking = (s.lruPtr.caches i).tracking := by
    intro i hi
    rw [hlru]
    exact (recycle_view CacheBuffer.tracking (fun _ => rfl) hi).trans (h.fixParent ha hmem i).1
  have hfixed : (t.transactions tid).fileOffset = (s.transactions tid).fileOffset ∧
      (isCachedAddr (t.transactions tid).inoLogAddr = true →
        (t.transactions tid).inoLogAddr = (s.transactions tid).inoLogAddr ∧
          (s.transactions tid).inoLogAddr.offset ≠ cid) ∧
      ∀ k ∈ (s.transactions tid).activeWords,
        isCachedAddr (blockGetIndex (t.transactions tid).indirectBuf k) = true →
          blockGetIndex (t.transactions tid).indirectBuf k =
            blockGetIndex (s.transactions tid).indirectBuf k ∧
          (blockGetIndex (s.transactions tid).indirectBuf k).offset ≠ cid := by
    rw [hrecord]
    unfold Transaction.fixBuffer
    cases hparent : (s.lruPtr.caches cid).parentCid with
    | some p =>
      -- what a transaction refers to has no parent
      have hne : ∀ i, s.lruPtr.parent i = none → i ≠ cid := by
        rintro i hroot rfl
        exact absurd (hroot.symm.trans hparent) (Option.some_ne_none p).symm
      exact ⟨rfl, fun hcached => ⟨rfl, hne _ (h.inode hcached).2⟩,
        fun k hk hcached => ⟨rfl, hne _ (h.active k hk hcached).2.1⟩⟩
    | none =>
      have hspec := Transaction.fixReference_spec
        (t := { s.transactions tid with prevLogAddr := a }) (s.lruPtr.caches cid).parentOffset ha
        (fun k hk hcached (hsame : (blockGetIndex _ k).offset = cid) => by
          obtain ⟨-, -, hplace, hino⟩ := h.active k hk hcached
          rw [hsame] at hplace hino
          exact ⟨hplace, hino⟩)
        fun k hk k' hk' hcached hcached' hsame hsame' =>
          h.once k hk k' hk' hcached hcached' (hsame.trans hsame'.symm)
      exact hspec
  refine ⟨h.leave ?_ ?_ hother (fun b hb => ?_) (fun b hb k hk hcached => ?_) hfixed.1 hfixed.2.1
    hfixed.2.2, ?_, hother⟩
  · rw [ht]
    exact hphase
  · rw [hlru, recycle_caches_self]
  · rw [hlru]
    refine (recycle_view CacheBuffer.refCount (fun _ => rfl) hb).trans (fixParent_refCount.trans ?_)
    simp only [hmem, true_and]
  · rw [hlru, recycle_view CacheBuffer.buf (fun _ => rfl) hb] at hcached
    obtain ⟨hcached, hleft⟩ := (h.fixParent ha hmem b).2 k hk hcached
    exact ⟨hcached, fun hchild => hleft hchild.2⟩
  · rw [ht]
    refine ⟨[⟨cid, (s.lruPtr.caches cid).buf, a⟩], rfl, fun f hf => ?_⟩
    obtain rfl := List.mem_singleton.mp hf
    exact h.real hmem href

/-- A buffer of the transaction that is not dirty is initialised. -/
theorem Flushable.clean (h : Flushable kinds level tid s)
    (hclean : (s.lruPtr.caches cid).isDirty = false)
    (ht : t = { s with lruPtr := s.lruPtr.recycle cid }) :
    Flushable kinds level tid t ∧ FlushedReal kinds s t ∧
      ∀ i, i ≠ cid → (t.lruPtr.caches i).tracking = (s.lruPtr.caches i).tracking := by
  have hnot : cid ∉ s.lruPtr.dirtyOf tid := fun hmem =>
    absurd ((mem_dirtyOf.mp hmem).2.1.symm.trans hclean) (by decide)
  have hother : ∀ i, i ≠ cid → (t.lruPtr.caches i).tracking = (s.lruPtr.caches i).tracking := by
    intro i hi
    rw [ht]
    exact recycle_view CacheBuffer.tracking (fun _ => rfl) hi
  have hflushed : FlushedReal kinds s t := by
    rw [ht]
    exact .refl s
  refine ⟨?_, hflushed, hother⟩
  subst ht
  refine h.leave h.phase recycle_caches_self hother (fun b hb => ?_) (fun b hb k _ hcached => ?_)
    rfl (fun hcached => ⟨rfl, ?_⟩) fun k hk hcached => ⟨rfl, ?_⟩
  · rw [if_neg fun hchild => hnot hchild.1]
    exact recycle_view CacheBuffer.refCount (fun _ => rfl) hb
  · dsimp only at hcached
    rw [recycle_view CacheBuffer.buf (fun _ => rfl) hb] at hcached
    exact ⟨hcached, fun hchild => hnot hchild.1⟩
  · exact fun hsame => hnot (hsame ▸ (h.inode hcached).1)
  · exact fun hsame => hnot (hsame ▸ (h.active k hk hcached).1)

/-- A flush of a buffer of the transaction that succeeds leaves one less to be flushed. -/
theorem Flushes.flushable {res : Int} (ht : Flushes cid s res t) (hres : res = 0)
    (htid : (s.lruPtr.caches cid).tid = tid) (h : Flushable kinds level tid s) :
    Flushable kinds level tid t ∧ FlushedReal kinds s t ∧
      t.lruPtr.inUse tid = (s.lruPtr.inUse tid).erase cid := by
  cases ht with
  | illegal | referenced | failed | decZero => exact absurd hres (by decide)
  | free hcid hfree =>
    refine ⟨h, .refl s, (Finset.erase_eq_of_notMem fun hmem => ?_).symm⟩
    exact absurd (hfree.symm.trans (mem_inUse.mp hmem).2.1) (by decide)
  | clean hcid href hclean =>
    obtain ⟨hflushable, hflushed, hother⟩ := h.clean hclean rfl
    exact ⟨hflushable, hflushed, inUse_leave recycle_caches_self hother⟩
  | written a w hcid href hdirty hwrites =>
    obtain ⟨hflushable, hflushed, hother⟩ := h.written hcid htid href hdirty hwrites rfl
    exact ⟨hflushable, hflushed, inUse_leave recycle_caches_self hother⟩

end Step

/-! ## The passes -/

section Passes
variable {kinds : Nat → DataType} {level : Nat → Nat} {tid : Int} {s t : CacheWorld}

open CacheLruQ

/-- A pass over the buffers flushes those that have no child in use: of the levels below there is
none left. -/
theorem wp_flushPass_flushable (j : Nat) (cids : List Nat) (h : Flushable kinds level tid s)
    (hbelow : ∀ i ∈ s.lruPtr.inUse tid, j ≤ level i) :
    wp (flushPass tid j cids) (fun res t => res = 0 → Flushable kinds level tid t ∧
      FlushedReal kinds s t ∧ t.lruPtr.inUse tid ⊆ s.lruPtr.inUse tid ∧
      ∀ i ∈ cids, i ∈ t.lruPtr.inUse tid → j < level i) (fun _ _ => True) s := by
  induction cids generalizing s with
  | nil => exact fun _ => ⟨h, .refl s, Finset.Subset.refl _, fun i hi => absurd hi List.not_mem_nil⟩
  | cons cid cids ih =>
    -- a buffer that is passed over is of another transaction, or has a child left
    have hskip : (cid ∈ s.lruPtr.inUse tid → j < level cid) →
        wp (flushPass tid j cids) (fun res t => res = 0 → Flushable kinds level tid t ∧
          FlushedReal kinds s t ∧ t.lruPtr.inUse tid ⊆ s.lruPtr.inUse tid ∧
          ∀ i ∈ cid :: cids, i ∈ t.lruPtr.inUse tid → j < level i) (fun _ _ => True) s := by
      intro hcid
      refine wp_mono (ih h hbelow) (fun res t ht hres => ?_) fun _ _ he => he
      obtain ⟨hflushable, hflushed, hsub, hdone⟩ := ht hres
      refine ⟨hflushable, hflushed, hsub, fun i hi hmem => ?_⟩
      rcases List.mem_cons.mp hi with rfl | hi
      · exact hcid (hsub hmem)
      · exact hdone i hi hmem
    unfold flushPass
    rw [wp_bind, wp_getLruQ]
    refine wp_ite (fun hne => hskip fun hmem => absurd (mem_inUse.mp hmem).2.2 hne) fun htid => ?_
    have htid := not_not.mp htid
    refine wp_ite (fun href => hskip fun hmem => ?_) fun _ => ?_
    · have hcount : (s.lruPtr.caches cid).refCount = _ := h.refCount cid hmem
      rw [hcount] at href
      obtain ⟨i, hi⟩ := Finset.card_pos.mp (Int.natCast_pos.mp href)
      obtain ⟨hi, hchild⟩ := Parents.mem_children.mp hi
      exact (hbelow i (dirtyOf_subset hi)).trans_lt (h.level_child i hi cid hmem hchild)
    · refine wp_seq (wp_mono wp_cacheFlushCache (fun _ _ ht => ht) fun _ _ _ => trivial)
        fun res t ht => ?_
      refine wp_ite (fun hres => ?_) fun hres => ?_
      · obtain ⟨hflushable, hflushed, herase⟩ := ht.flushable hres htid h
        have hsub : t.lruPtr.inUse tid ⊆ s.lruPtr.inUse tid := by
          rw [herase]
          exact Finset.erase_subset cid _
        refine wp_mono (ih hflushable fun i hi => hbelow i (hsub hi)) (fun r u hu hr => ?_)
          fun _ _ he => he
        obtain ⟨hflushable', hflushed', hsub', hdone⟩ := hu hr
        refine ⟨hflushable', hflushed.trans hflushed', hsub'.trans hsub, fun i hi hmem => ?_⟩
        rcases List.mem_cons.mp hi with rfl | hi
        · have hgone := hsub' hmem
          rw [herase] at hgone
          exact absurd rfl (Finset.mem_erase.mp hgone).1
        · exact hdone i hi hmem
      · exact wp_ite (fun _ => trivial) fun _ hres' => absurd hres' hres

/-- As many passes as there are levels leave no buffer of the transaction in use. -/
theorem wp_flushPasses_flushable (m : Nat) : ∀ {s : CacheWorld} (j : Nat),
    Flushable kinds level tid s → (∀ i ∈ s.lruPtr.inUse tid, j ≤ level i) →
    wp (flushPasses tid (List.range' j m)) (fun res t => res = 0 → Flushable kinds level tid t ∧
      FlushedReal kinds s t ∧ ∀ i ∈ t.lruPtr.inUse tid, j + m ≤ level i) (fun _ _ => True) s := by
  induction m with
  | zero => exact fun {s} j h hbelow _ => ⟨h, .refl s, hbelow⟩
  | succ m ih =>
    intro s j h hbelow
    rw [List.range'_succ]
    unfold flushPasses
    refine wp_seq (wp_flushPass_flushable j _ h hbelow) fun res t ht => ?_
    refine wp_ite (fun hres => ?_) fun hres hres' => absurd hres' hres
    obtain ⟨hflushable, hflushed, -, hdone⟩ := ht hres
    have hnext : ∀ i ∈ t.lruPtr.inUse tid, j + 1 ≤ level i :=
      fun i hi => hdone i (List.mem_range.mpr (mem_inUse.mp hi).1) hi
    refine wp_mono (ih (j + 1) hflushable hnext) (fun r u hu hr => ?_) fun _ _ he => he
    obtain ⟨hflushable', hflushed', hdone'⟩ := hu hr
    refine ⟨hflushable', hflushed.trans hflushed', fun i hi => ?_⟩
    have := hdone' i hi
    omega

/-- Nothing of the transaction from `s` is in the cache in `t`, and no temporary address is in the
blocks that were flushed or in the transaction. -/
structure CacheWorld.FlushedOut (kinds : Nat → DataType) (tid : Int) (s t : CacheWorld) : Prop where
  unused : ∀ i < fsCacheBuffers, (t.lruPtr.caches i).tid = tid →
    (t.lruPtr.caches i).isDirty = false ∧ (t.lruPtr.caches i).isFree = true
  blocks : FlushedReal kinds s t
  inode : isCachedAddr (t.transactions tid).inoLogAddr = false
  active : ∀ k ∈ (t.transactions tid).activeWords,
    isCachedAddr (blockGetIndex (t.transactions tid).indirectBuf k) = false

/-- Where `cache_flush_transaction_blocks` succeeds, the transaction is flushed completely. -/
def FlushesCompletely (kinds : Nat → DataType) (tid : Int) (s : CacheWorld) : Prop :=
  ∀ t, cacheFlushTransactionBlocks tid s = .ok 0 t → s.FlushedOut kinds tid t

/-- Five passes flush completely what can be flushed. -/
theorem flush_complete (kinds : Nat → DataType) (level : Nat → Nat) (tid : Int) (s : CacheWorld)
    (h : Flushable kinds level tid s) : FlushesCompletely kinds tid s := by
  intro t hrun
  obtain ⟨hflushable, hflushed, hdone⟩ :=
    of_wp_ok (wp_flushPasses_flushable 5 0 h fun i _ => Nat.zero_le _) hrun rfl
  have hnone : ∀ i, i ∉ t.lruPtr.inUse tid := fun i hi => by
    have := hdone i hi
    have := hflushable.level_lt i hi
    omega
  have hclean : ∀ i, i ∉ t.lruPtr.dirtyOf tid := fun i hi => hnone i (dirtyOf_subset hi)
  refine ⟨fun i hi htid => ⟨?_, ?_⟩, hflushed, ?_, fun k hk => ?_⟩
  · by_contra hdirty
    exact hclean i (mem_dirtyOf.mpr ⟨hi, Bool.not_eq_false _ ▸ hdirty, htid⟩)
  · by_contra hfree
    exact hnone i (mem_inUse.mpr ⟨hi, Bool.eq_false_iff.mpr hfree, htid⟩)
  · by_contra hcached
    exact hclean _ (hflushable.inode (Bool.not_eq_false _ ▸ hcached)).1
  · by_contra hcached
    exact hclean _ (hflushable.active k hk (Bool.not_eq_false _ ▸ hcached)).1

end Passes

/-! ## A buffer that is never flushed -/

section Pinned
variable {tid : Int} {s t : CacheWorld} {b cid : Nat}

open CacheLruQ

/-- A dirty buffer of the transaction that counts more than its dirty children there. -/
structure CacheLruQ.Pinned (q : CacheLruQ) (tid : Int) (b : Nat) : Prop where
  mem : b ∈ q.dirtyOf tid
  more : (Parents.children (q.dirtyOf tid) q.parent b).card < q.refCount b

theorem CacheLruQ.Pinned.congr {q q' : CacheLruQ} (h : q.Pinned tid b)
    (hdirty : ∀ i, (q'.caches i).isDirty = (q.caches i).isDirty)
    (htid : ∀ i, (q'.caches i).tid = (q.caches i).tid)
    (hparent : ∀ i, q'.parent i = q.parent i) (hcount : q'.refCount b = q.refCount b) :
    q'.Pinned tid b := by
  have hdirtyOf : q'.dirtyOf tid = q.dirtyOf tid := by
    unfold dirtyOf
    refine Finset.filter_congr fun i _ => ?_
    rw [hdirty, htid]
  have hsame : q'.parent = q.parent := funext hparent
  refine ⟨hdirtyOf ▸ h.mem, ?_⟩
  rw [hdirtyOf, hsame, hcount]
  exact h.more

/-- A child that is flushed, or another buffer, leaves the buffer as it is. -/
theorem CacheLruQ.Pinned.recycle {q q' : CacheLruQ} (h : q.Pinned tid b) (hne : cid ≠ b)
    (hdirty : ∀ i, (q'.caches i).isDirty = (q.caches i).isDirty)
    (htid : ∀ i, (q'.caches i).tid = (q.caches i).tid)
    (hparent : ∀ i, q'.parent i = q.parent i)
    (hcount : q'.refCount b =
      if cid ∈ q.dirtyOf tid ∧ q.parent cid = some b then q.refCount b - 1 else q.refCount b) :
    (q'.recycle cid).Pinned tid b := by
  have hdirtyOf : (q'.recycle cid).dirtyOf tid = (q.dirtyOf tid).erase cid := by
    ext i
    rw [mem_dirtyOf, Finset.mem_erase, mem_dirtyOf]
    by_cases hi : i = cid
    · rw [hi, recycle_caches_self]
      simp [initCacheBuffer]
    · rw [recycle_view CacheBuffer.isDirty (fun _ => rfl) hi,
        recycle_view CacheBuffer.tid (fun _ => rfl) hi, hdirty, htid]
      simp [hi]
  refine ⟨?_, ?_⟩
  · rw [hdirtyOf]
    exact Finset.mem_erase.mpr ⟨hne.symm, h.mem⟩
  · have hchildren : Parents.children ((q.dirtyOf tid).erase cid) (q'.recycle cid).parent b =
        (Parents.children (q.dirtyOf tid) q.parent b).erase cid := Parents.children_erase b
      fun i _ hi => (recycle_view (q := q') CacheBuffer.parentCid (fun _ => rfl) hi).trans
        (hparent i)
    have hself : (q'.recycle cid).refCount b = q'.refCount b :=
      recycle_view CacheBuffer.refCount (fun _ => rfl) hne.symm
    have hmore := h.more
    rw [hdirtyOf, hself, hcount]
    refine (congrArg (fun c : Finset Nat => (c.card : Int)) hchildren).trans_lt ?_
    by_cases hchild : cid ∈ q.dirtyOf tid ∧ q.parent cid = some b
    · have hmem := Parents.mem_children.mpr hchild
      have hpos := Finset.card_pos.mpr ⟨cid, hmem⟩
      rw [if_pos hchild, Finset.card_erase_of_mem hmem]
      omega
    · rw [if_neg hchild,
        Finset.erase_eq_of_notMem fun hmem => hchild (Parents.mem_children.mp hmem)]
      exact hmore

theorem Flushes.pinned {res : Int} (ht : Flushes cid s res t)
    (htid : (s.lruPtr.caches cid).tid = tid) (h : s.lruPtr.Pinned tid b) :
    t.lruPtr.Pinned tid b := by
  have hentry : ∀ {τ : Type} (view : CacheBuffer → τ),
      (∀ (c : CacheBuffer) buf, view { c with buf } = view c) →
      (∀ (c : CacheBuffer) logAddr, view { c with logAddr } = view c) →
      ∀ c offset a, view (c.setEntry offset a) = view c :=
    fun view hbuf haddr => CacheBuffer.setEntry_view view hbuf haddr
  cases ht with
  | illegal | referenced | free | failed => exact h
  | decZero parentCid a =>
    exact h.congr
      (fun _ => setParentEntry_view _ (hentry CacheBuffer.isDirty (fun _ _ => rfl) fun _ _ => rfl))
      (fun _ => setParentEntry_view _ (hentry CacheBuffer.tid (fun _ _ => rfl) fun _ _ => rfl))
      (fun _ => setParentEntry_view _ (hentry CacheBuffer.parentCid (fun _ _ => rfl) fun _ _ => rfl))
      setParentEntry_refCount
  | clean hcid href hclean =>
    have hnot : cid ∉ s.lruPtr.dirtyOf tid := fun hmem =>
      absurd ((mem_dirtyOf.mp hmem).2.1.symm.trans hclean) (by decide)
    refine h.recycle (fun he => hnot (he ▸ h.mem)) (fun _ => rfl) (fun _ => rfl) (fun _ => rfl) ?_
    rw [if_neg fun hchild => hnot hchild.1]
  | written a w hcid href hdirty =>
    have hmem : cid ∈ s.lruPtr.dirtyOf tid := mem_dirtyOf.mpr ⟨hcid, hdirty, htid⟩
    have hne : cid ≠ b := by
      rintro rfl
      have hmore := h.more
      have hcount : s.lruPtr.refCount cid ≤ 0 := href
      omega
    refine h.recycle hne (fun _ => fixParent_isDirty)
      (fun _ => fixParent_view _ (hentry CacheBuffer.tid (fun _ _ => rfl) fun _ _ => rfl)
        fun _ _ => rfl) (fun _ => fixParent_parent) ?_
    rw [fixParent_refCount]
    simp only [hmem, true_and]

/-- Such a buffer is dirty after the flush of its transaction, whatever that returns. -/
theorem flush_pinned (h : s.lruPtr.Pinned tid b) {res : Int}
    (hrun : cacheFlushTransactionBlocks tid s = .ok res t) :
    (t.lruPtr.caches b).isDirty = true ∧ (t.lruPtr.caches b).tid = tid := by
  have hkeeps : Preserves (fun u : CacheWorld => u.lruPtr.Pinned tid b)
      (cacheFlushTransactionBlocks tid) :=
    preserves_cacheFlushTransactionBlocks tid fun cid u htid hu =>
      wp_mono wp_cacheFlushCache (fun _ _ ht => ht.pinned htid hu) fun _ _ ht => ht.lruPtr ▸ hu
  exact (mem_dirtyOf.mp (hkeeps.ok h hrun).mem).2

end Pinned

end Flush

/-! ## A buffer that waits for a child that is gone -/

section SmallPage
attribute [local instance] smallCache

/-- The chip once its first segment exists. -/
def grownWorld : World :=
  { erasedWorld (fun _ => false) with segMap := { initSegMap with
      segToSlot := fun seg => if seg = newSegment then noSlot else seg
      reclaimed := ⟨0, 8⟩
      nSegments := 1
      newSlotId := 0 } }

/-- A block and the index block above it, both in the cache. -/
def flushesChild : CacheWorld :=
  (runAll CacheCall.exec writesChild { emptyCache with world := grownWorld }).getD emptyCache

theorem phase_flushesChild : flushesChild.world.mapping.Phase := by
  have hmap : flushesChild.world.segMap.nSegments = 1 ∧
      flushesChild.world.segMap.reclaimed.segment = 0 ∧
      flushesChild.world.segMap.newSlotId = 0 ∧
      ∀ seg < nSlots, flushesChild.world.segMap.segToSlot seg =
        if seg = newSegment then noSlot else seg := by decide +kernel
  obtain ⟨hcount, hcurrent, hnew, hslots⟩ := hmap
  have hsegments : flushesChild.world.mapping.nSegments ≤ segmentsCount := by
    refine hcount.le.trans ?_
    decide
  refine .inl ⟨hsegments, ?_, hnew.trans hcurrent.symm, fun seg hseg => ?_, ?_⟩
  · exact (congrArg (· + 1) hcurrent).trans hcount.symm
  · refine (hslots seg (Mapping.lt_of_mem_existing hsegments hseg)).trans (if_neg fun he => ?_)
    have hfirst : newSegment < firstReserveSegment ∧ 1 ≤ newSegment := by decide
    rcases Mapping.mem_existing.mp hseg with hlt | ⟨hge, -⟩
    · have hlt : seg < 1 := hlt.trans_eq hcount
      omega
    · omega
  · exact (hslots newSegment (by decide)).trans (if_pos rfl)

def indexKinds : Nat → DataType := fun cid => if cid = 1 then .entries else .regular

/-- They are flushed, the block first. -/
theorem flush_complete_flushesChild : FlushesCompletely indexKinds 0 flushesChild ∧
    ∃ t, cacheFlushTransactionBlocks 0 flushesChild = .ok 0 t ∧
      t.flushed.map Flushed.cid = [0, 1] := by
  have hnone : ∀ k ∈ (flushesChild.transactions 0).activeWords,
      isCachedAddr (blockGetIndex (flushesChild.transactions 0).indirectBuf k) = false := by
    decide +kernel
  have hflushable : Flushable indexKinds id 0 flushesChild := by
    constructor
    case phase => exact phase_flushesChild
    case refCount => decide +kernel
    case level_lt => decide +kernel
    case level_child => decide +kernel
    case indexed => decide +kernel
    case entries => decide +kernel
    case inode => decide +kernel
    case active => exact fun k hk hcached => absurd (hcached.symm.trans (hnone k hk)) (by decide)
    case once => exact fun k hk _ _ hcached => absurd (hcached.symm.trans (hnone k hk)) (by decide)
  have hcheck : okAnd (cacheFlushTransactionBlocks 0) flushesChild (fun res t =>
      decide (res = 0 ∧ t.flushed.map Flushed.cid = [0, 1])) = true := by decide +kernel
  obtain ⟨res, t, hrun, htest⟩ := exists_of_okAnd hcheck
  obtain ⟨rfl, hcids⟩ := of_decide_eq_true htest
  exact ⟨flush_complete indexKinds id 0 flushesChild hflushable, t, hrun, hcids⟩

/-- After the block was forced out, the index block is passed over five times, and the flush
succeeds. -/
theorem not_flush_complete : ∃ s,
    runAll CacheCall.exec (writesChild ++ [.forceFree 0]) emptyCache = some s ∧
      ∀ kinds, ¬FlushesCompletely kinds 0 s := by
  have hrun : (runAll CacheCall.exec (writesChild ++ [.forceFree 0]) emptyCache).map (fun s =>
      okAnd (cacheFlushTransactionBlocks 0) s fun res t => decide (res = 0 ∧
        (t.lruPtr.caches 1).tid = 0 ∧ (t.lruPtr.caches 1).isDirty = true)) = some true := by
    decide +kernel
  obtain ⟨s, hs, hcheck⟩ := Option.map_eq_some_iff.mp hrun
  obtain ⟨res, t, hflush, htest⟩ := exists_of_okAnd hcheck
  obtain ⟨rfl, htid, hdirty⟩ := of_decide_eq_true htest
  refine ⟨s, hs, fun kinds h => ?_⟩
  have hclean := ((h t hflush).unused 1 (by decide) htid).1
  exact absurd (hdirty.symm.trans hclean) (by decide)

end SmallPage

end NandFs
