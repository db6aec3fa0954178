import NandFs.DirentBlock
import NandFs.TransactionAbort
import NandFs.VotFile

/-! # The cache

`cache.c`: buffers for the blocks that transactions read and write.  A block that is written gets a
temporary address, whose segment is `CACHE_MAGIC_SEG` and whose offset is the number of its buffer;
it stays in its buffer until that is flushed, and then the one place that refers to the temporary
address is given the real one.  A buffer counts the others whose parent it is and is flushed after
them.  `caches` and `transactions` are read and written at any index, as in the source: what lies
outside of a table is memory of its own here.
-/
namespace NandFs

open Program

/-! ## Buffers and transactions -/

/-- `DATA_TYPE_EMPTY` and the other data types -/
inductive DataType
  | empty
  | regular
  | vots
  | entries
  | dirents
  | inode
  deriving DecidableEq, Repr

/-- `T_TYPE_EMPTY` and the other types of a transaction -/
inductive TransactionType
  | empty
  | write
  | unlink
  | temp
  deriving DecidableEq, Repr

/-- `CACHE_MAGIC_SEG` -/
def cacheMagicSeg : Nat := noSegmentNum - 1

/-- `IS_CACHED_ADDR` -/
def isCachedAddr (a : LogAddr) : Bool := a.segment == cacheMagicSeg

/-- The temporary address of a buffer, in the twelve bits of an offset. -/
def cachedAddr (cid : Nat) : LogAddr := (LogAddr.empty.setSegment cacheMagicSeg).setOffset cid

section Buffers
variable [Config]

/-- `cache_block`.  A number of a buffer is `none` where it is `CACHE_ID_EMPTY`, the offset in the
parent where it is `CACHE_ENTRY_OFFSET_EMPTY`. -/
structure CacheBuffer where
  isIndirectLeaf : Bool
  isVoted : Bool
  refCount : Int
  parentCid : Option Nat
  parentOffset : Option Nat
  lessRecentlyUsed : Option Nat
  moreRecentlyUsed : Option Nat
  tid : Int
  isDirty : Bool
  logAddr : LogAddr
  buf : Block

/-- What `cache_init_by_cid` leaves of a buffer. -/
def initCacheBuffer : CacheBuffer where
  isIndirectLeaf := false
  isVoted := false
  refCount := 0
  parentCid := none
  parentOffset := none
  lessRecentlyUsed := none
  moreRecentlyUsed := none
  tid := tidEmpty
  isDirty := false
  logAddr := LogAddr.empty
  buf := initBuf.main

/-- `IS_CACHE_FREE` -/
def CacheBuffer.isFree (c : CacheBuffer) : Bool := !c.isDirty && isAddrEmpty c.logAddr

/-- `BLOCK_SET_INDEX`, of the twelve and twelve bits of the address.  The source copies the byte
behind them too, with the flag of a hole, which no routine of the cache reads. -/
def blockSetIndex (b : Block) (num : Nat) (a : LogAddr) : Block :=
  b.store (4 * num) [logAddrByte a 0, logAddrByte a 1, logAddrByte a 2]

/-- An address stored through `BLOCK_GET_ADDR_PTR_BY_INDEX` of a buffer.
`CACHE_ENTRY_OFFSET_EMPTY` is -1, and what comes right before the block is `log_addr`. -/
def CacheBuffer.setEntry (c : CacheBuffer) (offset : Option Nat) (a : LogAddr) : CacheBuffer :=
  match offset with
  | some num => { c with buf := blockSetIndex c.buf num a }
  | none => { c with logAddr := a }

/-- The fields of `transaction_t` that the cache and the low-space handling look at. -/
structure Transaction where
  tType : TransactionType
  inoNum : Int
  prevLogAddr : LogAddr
  inoLogAddr : LogAddr
  fileOffset : Int
  indirectBuf : Block
  isVoted : Bool

/-- `cache_lru_q` -/
structure CacheLruQ where
  caches : Nat → CacheBuffer
  lruCid : Option Nat
  mruCid : Option Nat
  dirtyCount : Int

/-- `cache_init_lru_q` -/
def initLruQ : CacheLruQ where
  caches _ := initCacheBuffer
  lruCid := none
  mruCid := none
  dirtyCount := 0

namespace CacheLruQ

def modify (q : CacheLruQ) (cid : Nat) (f : CacheBuffer → CacheBuffer) : CacheLruQ :=
  { q with caches := Function.update q.caches cid (f (q.caches cid)) }

/-- `cache_init_by_cid` -/
def initByCid (q : CacheLruQ) (cid : Nat) : CacheLruQ := q.modify cid fun _ => initCacheBuffer

/-! ## The list -/

/-- In `cache_remove_from_lru`: the more recently used neighbour is linked to the less recently used
one. -/
def skipFromMore (q : CacheLruQ) (cid : Nat) : CacheLruQ :=
  match (q.caches cid).moreRecentlyUsed with
  | some more => q.modify more fun c => { c with lessRecentlyUsed := (q.caches cid).lessRecentlyUsed }
  | none => q

/-- The same, the other way. -/
def skipFromLess (q : CacheLruQ) (cid : Nat) : CacheLruQ :=
  match (q.caches cid).lessRecentlyUsed with
  | some less => q.modify less fun c => { c with moreRecentlyUsed := (q.caches cid).moreRecentlyUsed }
  | none => q

/-- In `cache_remove_from_lru`: the least recently used buffer is another one. -/
def changeLru (q : CacheLruQ) (cid : Nat) : CacheLruQ :=
  if q.lruCid = some cid then
    match (q.caches cid).lessRecentlyUsed with
    | none => { q with lruCid := (q.caches cid).moreRecentlyUsed }
    | some less => { q with lruCid := some less }
  else q

/-- In `cache_remove_from_lru`: the most recently used buffer is another one. -/
def changeMru (q : CacheLruQ) (cid : Nat) : CacheLruQ :=
  if q.mruCid = some cid then
    match (q.caches cid).moreRecentlyUsed with
    | none => { q with mruCid := (q.caches cid).lessRecentlyUsed }
    | some more => { q with mruCid := some more }
  else q

/-- `cache_remove_from_lru` -/
def removeFromLru (q : CacheLruQ) (cid : Nat) : CacheLruQ :=
  ((((q.skipFromMore cid).skipFromLess cid).changeLru cid).changeMru cid).modify cid fun c =>
    { c with moreRecentlyUsed := none, lessRecentlyUsed := none }

/-- `cache_insert_to_lru`, whose result no caller looks at. -/
def insertToLru (q : CacheLruQ) (cid : Nat) : CacheLruQ :=
  match q.mruCid with
  | none => { q with mruCid := some cid, lruCid := some cid }
  | some oldMruCid =>
    if (q.caches oldMruCid).moreRecentlyUsed ≠ none then q
    else
      let q := q.modify cid fun c => { c with lessRecentlyUsed := some oldMruCid }
      let q := q.modify oldMruCid fun c => { c with moreRecentlyUsed := some cid }
      { q with mruCid := some cid }

/-- The loop of `cache_get_cid_by_real_addr`, for at most `n` rounds: `none` is that it goes on. -/
def findRealAddr (q : CacheLruQ) (logAddr : LogAddr) : Nat → Option Nat → Option (Option Nat)
  | _, none => some none
  | 0, some _ => none
  | n + 1, some cid =>
    if (q.caches cid).logAddr = logAddr then some (some cid)
    else q.findRealAddr logAddr n (q.caches cid).lessRecentlyUsed

/-- The loop of `cache_force_free_cache` that omits the references to `cid` as a parent. -/
def omitParent (cid : Nat) : Nat → Option Nat → CacheLruQ → Option CacheLruQ
  | _, none, q => some q
  | 0, some _, _ => none
  | n + 1, some i, q =>
    let q := if (q.caches i).parentCid = some cid then
        q.modify i fun c => { c with parentCid := none }
      else q
    omitParent cid n (q.caches i).lessRecentlyUsed q

/-- The loop of `cache_get_lru_cid` from `i` on. -/
def findLeaf (q : CacheLruQ) (exceptCid : Option Nat) : Nat → Nat → Option (Option Nat)
  | 0, _ => none
  | n + 1, i =>
    if 0 < (q.caches i).refCount ∨ exceptCid = some i ∨ (q.caches i).isIndirectLeaf = true then
      match (q.caches i).moreRecentlyUsed with
      | none => some none
      | some i => q.findLeaf exceptCid n i
    else some (some i)

/-! ## Parents -/

/-- `CACHE_SET_PARENT_FIELDS` -/
def setParentFields (cid : Nat) (q : CacheLruQ) (logAddr : LogAddr) : CacheLruQ :=
  if isCachedAddr logAddr then
    (q.modify cid fun c => { c with refCount := c.refCount + 1 }).modify logAddr.offset fun c =>
      { c with parentCid := some cid }
  else q

/-- The entry in the parent of a buffer is given an address, if there is a parent. -/
def setParentEntry (q : CacheLruQ) (cid : Nat) (a : LogAddr) : CacheLruQ :=
  match (q.caches cid).parentCid with
  | some parentCid => q.modify parentCid fun p => p.setEntry (q.caches cid).parentOffset a
  | none => q

end CacheLruQ

/-- The addresses in a block that `cache_set_write_buffer` looks at. -/
def nestedAddrs (dataType : DataType) (buf : Block) : List LogAddr :=
  match dataType with
  | .inode => (List.range directIndexEntries).map (inodeGetDirect buf) ++
      [inodeGetIndirect buf, inodeGetDouble buf, inodeGetTriple buf]
  | .entries => (List.range logAddressesPerBlock).map (blockGetIndex buf)
  | _ => []

namespace CacheLruQ

/-- `cache_set_write_buffer` -/
def setWriteBuffer (q : CacheLruQ) (cid : Nat) (buf : Block) (dataType : DataType) : CacheLruQ :=
  let q := q.modify cid fun c => { c with buf, refCount := 0 }
  let q := (nestedAddrs dataType buf).foldl (setParentFields cid) q
  if isAddrEmpty (q.caches cid).logAddr then q.modify cid fun c => { c with isVoted := false }
  else q

/-! ## An access -/

/-- What `cache_access_cache` does with a dirty buffer. -/
def accessDirty (q : CacheLruQ) (cid : Nat) (buf : Block) (tid : Int) (dataType : DataType)
    (isWrite : Bool) : CacheLruQ :=
  let q := (q.removeFromLru cid).insertToLru cid
  let q := q.modify cid fun c => { c with tid }
  if isWrite then q.setWriteBuffer cid buf dataType else q

/-- In `cache_access_cache`: the buffer holds the block of this address. -/
def setOldAddr (q : CacheLruQ) (cid : Nat) (oldAddr : LogAddr) : CacheLruQ :=
  if isCachedAddr oldAddr then q else q.modify cid fun c => { c with logAddr := oldAddr }

/-- In `cache_access_cache`: a buffer that is written is dirty. -/
def markDirty (q : CacheLruQ) (cid : Nat) (isWrite : Bool) : CacheLruQ :=
  if isWrite = true ∧ (q.caches cid).isDirty = false then
    { q.modify cid fun c => { c with isDirty := true } with dirtyCount := q.dirtyCount + 1 }
  else q

/-- What `cache_access_cache` does with a buffer that is new or not dirty. -/
def accessClean (q : CacheLruQ) (cid : Nat) (buf : Block) (oldAddr : LogAddr)
    (parentOffset : Option Nat) (tid : Int) (dataType : DataType) (isWrite : Bool) : CacheLruQ :=
  let q := q.setOldAddr cid oldAddr
  let q := (q.removeFromLru cid).insertToLru cid
  let q := q.markDirty cid isWrite
  let q := q.modify cid fun c => { c with tid }
  let q := if isWrite then q.setWriteBuffer cid buf dataType else q
  q.modify cid fun c => { c with parentOffset }

/-- The turn of `cache_init_tid_related` for one buffer. -/
def initTid (tid : Int) (q : CacheLruQ) (cid : Nat) : CacheLruQ :=
  if (q.caches cid).tid = tid then
    let q := if (q.caches cid).isDirty then { q with dirtyCount := q.dirtyCount - 1 } else q
    (q.removeFromLru cid).initByCid cid
  else q

end CacheLruQ

/-- A block that was flushed, from which buffer and to which address. -/
structure Flushed where
  cid : Nat
  block : Block
  logAddr : LogAddr

/-- The sequencing layer, the cache and the transactions.  Not in the source are `flushed`, what
the cache has written, and `used`, the buffers that were accessed, the last one first. -/
structure CacheWorld where
  world : World
  lruPtr : CacheLruQ
  transactions : Int → Transaction
  flushed : List Flushed
  used : List Nat

end Buffers

/-- The file system with a cache: `FS_CACHE_BUFFERS`, and the bytes of `filesystem_t` that a
checkpoint holds, given the addresses last written in the transactions. -/
class CacheConfig extends FsConfig where
  fsCacheBuffers : Nat
  cpData : (Int → LogAddr) → Nat → UInt8
  cpBytes : Nat

section Calls
variable [CacheConfig]

open CacheConfig

/-- Where a loop over the list goes on after as many rounds as there are buffers, there is a cycle
in the list. -/
abbrev CacheM := EStateM Stop CacheWorld

/-- What the layer below does. -/
def onLog {α : Type} (m : SeqM α) : CacheM α := fun s =>
  match m s.world with
  | .ok a w => .ok a { s with world := w }
  | .error e w => .error (.halt e) { s with world := w }

/-- The result of a loop. -/
def orEndless {α : Type} : Option α → CacheM α
  | some a => pure a
  | none => throw .endless

def getLruQ : CacheM CacheLruQ := do return (← get).lruPtr

def modifyLruQ (f : CacheLruQ → CacheLruQ) : CacheM Unit :=
  modify fun s => { s with lruPtr := f s.lruPtr }

/-- The buffer is accessed. -/
def use (cid : Nat) : CacheM Unit := modify fun s => { s with used := cid :: s.used }

def modifyTransaction (tid : Int) (f : Transaction → Transaction) : CacheM Unit :=
  modify fun s =>
    { s with transactions := Function.update s.transactions tid (f (s.transactions tid)) }

/-- `FS_ERROR_ILLEGAL_CID` -/
def fsErrorIllegalCid : Int := -6

/-- `FS_ERROR_NONZERO_REF_COUNT` -/
def fsErrorNonzeroRefCount : Int := -7

/-- `FS_ERROR_FREE_CACHE_ACQUIREMENT` -/
def fsErrorFreeCacheAcquirement : Int := -8

/-- `FS_ERROR_DEC_ZERO_REF_COUNT` -/
def fsErrorDecZeroRefCount : Int := -15

/-! ## Freeing -/

def cacheGetCidByRealAddr (logAddr : LogAddr) : CacheM (Option Nat) := do
  let q ← getLruQ
  if isAddressEmpty logAddr then return none
  else orEndless (q.findRealAddr logAddr fsCacheBuffers q.mruCid)

/-- `cache_free_by_real_addr` -/
def cacheFreeByAddr (logAddr : LogAddr) : CacheM Int := do
  match ← cacheGetCidByRealAddr logAddr with
  | none => return 0
  | some cid =>
    if ((← getLruQ).caches cid).isDirty then return fsErrorFreeingDirtyCache
    else
      modifyLruQ fun q => (q.removeFromLru cid).initByCid cid
      return 0

/-- In `cache_force_free_cache`: a transaction whose inode is in the buffer gets the address it was
read from, as the entry in the parent does. -/
def cacheRestoreInode (cid : Nat) : CacheM Unit := do
  let c := (← getLruQ).caches cid
  let inoLogAddr := ((← get).transactions c.tid).inoLogAddr
  if isCachedAddr inoLogAddr ∧ inoLogAddr.offset = cid then
    modifyTransaction c.tid fun t => { t with inoLogAddr := c.logAddr }
  else return

def cacheForceFreeCache (cid : Nat) : CacheM Int := do
  modifyLruQ fun q => q.setParentEntry cid (q.caches cid).logAddr
  cacheRestoreInode cid
  modifyLruQ fun q => q.removeFromLru cid
  modifyLruQ fun q =>
    if (q.caches cid).isDirty then { q with dirtyCount := q.dirtyCount - 1 } else q
  modifyLruQ fun q => q.initByCid cid
  let q ← getLruQ
  let q ← orEndless (CacheLruQ.omitParent cid fsCacheBuffers q.mruCid q)
  modifyLruQ fun _ => q
  return 0

def cacheInitTidRelated (tid : Int) : CacheM Unit :=
  modifyLruQ fun q => (List.range fsCacheBuffers).foldl (CacheLruQ.initTid tid) q

/-! ## Flushing -/

/-- `fsCheckpointWriter` -/
def fsCheckpointWriter (transactions : Int → Transaction) : CheckpointWriter :=
  checkpointWriter (cpData fun tid => (transactions tid).prevLogAddr) cpBytes

def allocAndWriteBlockTidActualWrite (data : Block) (isDataVots : Bool) (tid : Int) :
    CacheM (Int × LogAddr) := do
  let s ← get
  let res ← onLog (allocAndWriteBlock LogAddr.empty ⟨data, initFlags⟩ isDataVots
    (s.transactions tid).prevLogAddr (fsCheckpointWriter s.transactions) .not)
  if res.err ≠ 0 then return (fsErrorIo, res.logAddr)
  else
    modifyTransaction tid fun t => { t with prevLogAddr := res.logAddr }
    return (0, res.logAddr)

/-- The entry of the active index block of a transaction that holds the temporary address of the
buffer.  In an inode only the entries are looked at. -/
def Transaction.findCachedEntry (t : Transaction) (cid : Nat) : Option Nat :=
  let first := if t.fileOffset = 0 then (pageSize - 52) / 4 else 0
  (List.range' first (logAddressesPerBlock - first)).find? fun i =>
    isCachedAddr (blockGetIndex t.indirectBuf i) && (blockGetIndex t.indirectBuf i).offset == cid

/-- In `cache_fix_block_dependencies`: what a transaction holds of a buffer without a parent. -/
def Transaction.fixReference (t : Transaction) (cid : Nat) (parentOffset : Option Nat)
    (newRealLogAddr : LogAddr) : Transaction :=
  if isCachedAddr t.inoLogAddr ∧ t.inoLogAddr.offset = cid then
    { t with inoLogAddr := newRealLogAddr }
  else if parentOffset ≠ none then
    match t.findCachedEntry cid with
    | some i => { t with indirectBuf := blockSetIndex t.indirectBuf i newRealLogAddr }
    | none => t
  else t

def cacheFixBlockDependencies (cid : Nat) (newRealLogAddr : LogAddr) : CacheM Int := do
  let q ← getLruQ
  match (q.caches cid).parentCid with
  | some parentCid =>
    let q := q.setParentEntry cid newRealLogAddr
    modifyLruQ fun _ => q
    if (q.caches parentCid).refCount = 0 then return fsErrorDecZeroRefCount
    else
      modifyLruQ fun q => q.modify parentCid fun p => { p with refCount := p.refCount - 1 }
      return 0
  | none =>
    modifyTransaction (q.caches cid).tid fun t =>
      t.fixReference cid (q.caches cid).parentOffset newRealLogAddr
    return 0

/-- In `cache_flush_cache`: a buffer that is dirty is written, and the reference to it is fixed. -/
def cacheWriteBack (cid : Nat) : CacheM Int := do
  let c := (← getLruQ).caches cid
  if c.isDirty then
    let (res, logAddr) ← allocAndWriteBlockTidActualWrite c.buf false c.tid
    if res ≠ 0 then return res
    else
      modify fun s => { s with flushed := s.flushed ++ [⟨cid, c.buf, logAddr⟩] }
      cacheFixBlockDependencies cid logAddr
  else return 0

def cacheFlushCache (cid : Nat) : CacheM Int := do
  let c := (← getLruQ).caches cid
  if fsCacheBuffers ≤ cid then return fsErrorIllegalCid
  else if 0 < c.refCount then return fsErrorNonzeroRefCount
  else if c.isFree then return 0
  else
    let res ← cacheWriteBack cid
    if res ≠ 0 then return res
    else
      modifyLruQ fun q =>
        if (q.caches cid).isDirty then { q with dirtyCount := q.dirtyCount - 1 } else q
      modifyLruQ fun q => (q.removeFromLru cid).initByCid cid
      return 0

def cacheGetLruCid (exceptCid : Option Nat) : CacheM (Option Nat) := do
  let q ← getLruQ
  match q.lruCid with
  | none => return none
  | some i => orEndless (q.findLeaf exceptCid fsCacheBuffers i)

/-- `cache_get_free_cache_id`; a negative result is an error. -/
def cacheGetFreeCacheId : CacheM (Except Int Nat) := do
  let q ← getLruQ
  match (List.range fsCacheBuffers).find? fun i => (q.caches i).isFree with
  | some i => return .ok i
  | none =>
    match ← cacheGetLruCid none with
    | none => return .error fsErrorCritical
    | some lruCid =>
      let res ← cacheFlushCache lruCid
      if res ≠ 0 then return .error res else return .ok lruCid

/-! ## Accesses -/

def cacheGetCidByAddr (oldAddr : LogAddr) : CacheM (Option Nat) := do
  if isCachedAddr oldAddr then return some oldAddr.offset
  else if isAddrEmpty oldAddr then return none
  else cacheGetCidByRealAddr oldAddr

/-- What `cache_access_cache` returns: its error code, and the buffer and the address of its
caller. -/
structure CacheAccess where
  err : Int
  buf : Block
  addr : LogAddr

/-- `cache_access_cache` once it has a buffer that is new or not dirty. -/
def cacheAccessClean (cid : Nat) (buf : Block) (oldAddr : LogAddr) (parentOffset : Option Nat)
    (tid : Int) (dataType : DataType) (isWrite : Bool) : CacheM CacheAccess := do
  modifyLruQ fun q => q.accessClean cid buf oldAddr parentOffset tid dataType isWrite
  use cid
  let q ← getLruQ
  return ⟨0, if isWrite then buf else (q.caches cid).buf, cachedAddr cid⟩

def cacheAccessCache (buf : Block) (oldAddr : LogAddr) (parentOffset : Option Nat) (tid : Int)
    (dataType : DataType) (isWrite : Bool) : CacheM CacheAccess := do
  match ← cacheGetCidByAddr oldAddr with
  | none =>
    match ← cacheGetFreeCacheId with
    | .error _ => return ⟨fsErrorFreeCacheAcquirement, buf, oldAddr⟩
    | .ok cid =>
      if isWrite then cacheAccessClean cid buf oldAddr parentOffset tid dataType isWrite
      else
        match ← onLog (readBlock oldAddr) with
        | none => return ⟨fsErrorIo, buf, oldAddr⟩
        | some read =>
          modifyLruQ fun q => q.modify cid fun c => { c with buf := read }
          cacheAccessClean cid buf oldAddr parentOffset tid dataType isWrite
  | some cid =>
    -- the buffer was found by this address, so they never differ
    let q ← getLruQ
    if isCachedAddr oldAddr ∧ oldAddr.offset ≠ cid then return ⟨fsErrorCritical, buf, oldAddr⟩
    else if (q.caches cid).isDirty then
      modifyLruQ fun q => q.accessDirty cid buf tid dataType isWrite
      use cid
      return ⟨0, if isWrite then buf else (q.caches cid).buf, cachedAddr cid⟩
    else cacheAccessClean cid buf oldAddr parentOffset tid dataType isWrite

/-! ## Transactions -/

/-- A pass of `cache_flush_transaction_blocks` over the buffers; `j` is its number. -/
def flushPass (tid : Int) (j : Nat) : List Nat → CacheM Int
  | [] => return 0
  | i :: is => do
    let c := (← getLruQ).caches i
    if c.tid ≠ tid then flushPass tid j is
    else if 0 < c.refCount then flushPass tid j is
    else
      let res ← cacheFlushCache i
      if res = 0 then flushPass tid j is
      else if res = fsErrorNonzeroRefCount ∧ j = 4 then throw (.halt .abort)
      else return res

/-- The passes of `cache_flush_transaction_blocks`, by their numbers. -/
def flushPasses (tid : Int) : List Nat → CacheM Int
  | [] => return 0
  | j :: js => do
    let res ← flushPass tid j (List.range fsCacheBuffers)
    if res = 0 then flushPasses tid js else return res

def cacheFlushTransactionBlocks (tid : Int) : CacheM Int := flushPasses tid (List.range 5)

/-- In `cache_remove_indirect_block`: the transaction takes over the vote, and the parent gets the
indicator of an active index block. -/
def cacheMarkIndirectLeaf (cid : Nat) : CacheM Unit := do
  let c := (← getLruQ).caches cid
  match c.parentCid with
  | none => return
  | some parentCid =>
    if c.tid = tidEmpty then return
    else
      modifyTransaction c.tid fun t => { t with isVoted := c.isVoted }
      modifyLruQ fun q => q.modify parentCid fun p => { p with isIndirectLeaf := true }

/-- In `cache_remove_indirect_block`: the buffer of the block. -/
def cacheGetIndirectCid (indirectAddr : LogAddr) : CacheM (Option Nat) :=
  if isCachedAddr indirectAddr then return some indirectAddr.offset
  else cacheGetCidByRealAddr indirectAddr

def cacheRemoveIndirectBlock (indirectAddr : LogAddr) : CacheM Int := do
  match ← cacheGetIndirectCid indirectAddr with
  | none => return 0
  | some cid =>
    cacheMarkIndirectLeaf cid
    cacheForceFreeCache cid

/-- In `cache_fix_indirect_leaf_indicator`: the buffer above the index block. -/
def cacheGetIndirectParent (indirectOffset : Int) (doubleLogAddr : LogAddr) (tid : Int) :
    CacheM (Option Nat) := do
  let inoLogAddr := ((← get).transactions tid).inoLogAddr
  if indirectOffset < doubleDataOffset ∧ isCachedAddr inoLogAddr then return some inoLogAddr.offset
  else if isCachedAddr doubleLogAddr then return some doubleLogAddr.offset
  else
    match ← cacheGetCidByRealAddr doubleLogAddr with
    | none => return none
    | some cid =>
      let q ← getLruQ
      return (q.caches cid).parentCid

def cacheFixIndirectLeafIndicator (indirectOffset : Int) (doubleLogAddr : LogAddr) (tid : Int)
    (flag : Bool) : CacheM Unit := do
  match ← cacheGetIndirectParent indirectOffset doubleLogAddr tid with
  | none => return
  | some parentCid => modifyLruQ fun q => q.modify parentCid fun p => { p with isIndirectLeaf := flag }

end Calls

end NandFs
