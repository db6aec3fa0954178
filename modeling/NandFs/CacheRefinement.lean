import NandFs.CacheSteps
import NandFs.Simulation
import NandFs.VoteReplay

/-! # The walks over the linked cache

The walks of `transactions.c` look at the cache as a list of buffers, of which they see the
transaction, the block and whether it is dirty.  Here they are over the buffers as they are linked
in memory, and do there what they do on the list.
-/
namespace NandFs

open Program CacheConfig

section Walks
variable [CacheConfig]

/-! ## The calls -/

namespace Linked

/-- `tr_mark_as_obsolete` -/
def trMarkAsObsolete (logAddr : LogAddr) (isFromReboot : Bool) : CacheM Int := do
  if (← onLog (markAsObsolete logAddr isFromReboot)) ≠ 0 then pure fsErrorIo
  else if (← cacheFreeByAddr logAddr) ≠ 0 then pure fsErrorCritical
  else pure 0

/-- The loop of `deleteTransactionPages`, for at most `n` turns: `none` is that it goes on.  It
steps through the variable that its caller gave it for the address. -/
def deletePages (isFromReboot : Bool) : Nat → LogAddr → CacheM (Option Int × LogAddr)
  | 0, logAddr => pure (none, logAddr)
  | n + 1, logAddr => do
    if isAddrEmpty logAddr then pure (some 0, logAddr)
    else if (← trMarkAsObsolete logAddr isFromReboot) ≠ 0 then pure (some (-1), logAddr)
    else do
      let read ← onLog (readVOTsAndPrev logAddr true)
      if read.err ≠ 0 then pure (some (-1), read.prev)
      else deletePages isFromReboot n read.prev

/-- `deleteTransactionPages`, for at most `turns` turns of its loop -/
def deleteTransactionPages (turns : Nat) (logAddr : LogAddr) (tid : Int) (isFromReboot : Bool) :
    CacheM (Option Int × LogAddr) := do
  cacheInitTidRelated tid
  deletePages isFromReboot turns logAddr

/-- The loop of `performVOTs` over the numbers of the addresses in the block. -/
def performVotsLoop (vots : Block) (isFromReboot : Bool) : List Nat → CacheM Int
  | [] => pure 0
  | i :: is => do
    let logAddr := blockGetIndex vots i
    if isAddrEmpty logAddr then pure 0
    else if (← trMarkAsObsolete logAddr isFromReboot) ≠ 0 then pure (-1)
    else performVotsLoop vots isFromReboot is

/-- `performVOTs` -/
def performVOTs (vots : Block) (isFromReboot : Bool) : CacheM Int :=
  performVotsLoop vots isFromReboot (List.range logAddressesPerBlock)

/-- `handleTransactionVOTs`, for at most `n` turns of its loop: `none` is that it goes on. -/
def handleTransactionVOTs (isFromReboot : Bool) : Nat → LogAddr → CacheM (Option Int)
  | 0, _ => pure none
  | n + 1, logAddr => do
    if isAddrEmpty logAddr then pure (some 0)
    else do
      let read ← onLog (readVOTsAndPrev logAddr false)
      if read.err ≠ 0 then pure (some (-1))
      else match read.vots with
        | none => handleTransactionVOTs isFromReboot n read.prev
        | some vots => do
          let res ← performVOTs vots isFromReboot
          if res ≠ 0 then pure (some res)
          else if (← trMarkAsObsolete logAddr isFromReboot) ≠ 0 then pure (some (-1))
          else handleTransactionVOTs isFromReboot n read.prev

end Linked

/-! ## The list of the linked buffers -/

/-- What the walks see of a buffer. -/
def CacheBuffer.block (c : CacheBuffer) : CacheBlock := ⟨c.tid, c.isDirty, c.logAddr⟩

/-- The buffers are linked in the order of the list.  Nothing but the log and the cache has changed
since `start`. -/
structure CacheWorld.Lists (start s : CacheWorld) (a : CachingWorld) : Prop where
  world : a.world = s.world
  listed : s.lruPtr.Listed fsCacheBuffers a.cache.lru
  caches : ∀ cid, a.cache.caches cid = (s.lruPtr.caches cid).block
  dirtyCount : a.cache.dirtyCount = s.lruPtr.dirtyCount
  transactions : s.transactions = start.transactions
  flushed : s.flushed = start.flushed
  used : s.used = start.used

/-- What is done on the linked buffers is what is done on the list. -/
abbrev Refines (start : CacheWorld) {α : Type} (c : CacheM α) (m : TrM α) : Prop :=
  Simulates start.Lists Stop.halt id c m

/-- The same, where an address is returned besides. -/
abbrev RefinesFst (start : CacheWorld) {α : Type} (c : CacheM (α × LogAddr)) (m : TrM α) : Prop :=
  Simulates start.Lists Stop.halt Prod.fst c m

section Refinement
variable {start s : CacheWorld} {a : CachingWorld}

theorem CacheWorld.Lists.recycle (h : start.Lists s a) (cid : Nat) :
    start.Lists { s with lruPtr := s.lruPtr.recycle cid }
      { a with cache := ((if (a.cache.caches cid).isDirty = true then
        { a.cache with dirtyCount := a.cache.dirtyCount - 1 } else a.cache).removeFromLru
          cid).initByCid cid } := by
  have hcount : ∀ q : CacheQueue, ((if (q.caches cid).isDirty = true then
      { q with dirtyCount := q.dirtyCount - 1 } else q).removeFromLru cid).initByCid cid =
      ⟨Function.update q.caches cid ⟨-1, false, LogAddr.empty⟩, q.lru.erase cid,
        if (q.caches cid).isDirty = true then q.dirtyCount - 1 else q.dirtyCount⟩ := by
    intro q
    by_cases hdirty : (q.caches cid).isDirty = true
    · rw [if_pos hdirty, if_pos hdirty]
      rfl
    · rw [if_neg hdirty, if_neg hdirty]
      rfl
  rw [hcount]
  refine ⟨h.world, h.listed.recycle cid, fun i => ?_, ?_, h.transactions, h.flushed, h.used⟩
  · by_cases hi : i = cid
    · subst hi
      show Function.update a.cache.caches i _ i = _
      rw [Function.update_self, CacheLruQ.recycle_caches_self]
      rfl
    · show Function.update a.cache.caches cid _ i = _
      rw [Function.update_of_ne hi, h.caches]
      exact (CacheLruQ.recycle_view CacheBuffer.block (fun _ => rfl) hi).symm
  · show (if (a.cache.caches cid).isDirty = true then _ else _) = (s.lruPtr.recycle cid).dirtyCount
    rw [CacheLruQ.recycle_dirtyCount, h.caches, h.dirtyCount]
    rfl

theorem CacheWorld.Lists.withWorld (h : start.Lists s a) (w : World) :
    start.Lists { s with world := w } { a with world := w } :=
  ⟨rfl, h.listed, h.caches, h.dirtyCount, h.transactions, h.flushed, h.used⟩

/-- The layer below does not see the cache. -/
theorem refines_inWorld {α : Type} (m : SeqM α) : Refines start (onLog m) (inWorld m) := by
  intro s a h
  rw [wp_onLog]
  cases hrun : m s.world with
  | ok r w =>
    rw [wp_ok_iff hrun]
    refine ⟨{ a with world := w }, ?_, h.withWorld w⟩
    unfold inWorld onPart
    rw [h.world, hrun]
    rfl
  | error e w =>
    rw [wp_error_iff hrun]
    refine ⟨e, { a with world := w }, ?_, rfl, h.withWorld w⟩
    unfold inWorld onPart
    rw [h.world, hrun]

/-- Both find the first buffer of the list that has the block. -/
theorem refines_cacheFreeByAddr (logAddr : LogAddr) :
    Refines start (cacheFreeByAddr logAddr) (cacheFreeByRealAddr logAddr) := by
  intro s a h
  have hfound : a.cache.getCidByRealAddr logAddr = if isAddressEmpty logAddr = true then none
      else a.cache.lru.find? fun cid => (s.lruPtr.caches cid).logAddr == logAddr := by
    unfold CacheQueue.getCidByRealAddr
    simp only [h.caches, CacheBuffer.block]
  have hget : (get : TrM CachingWorld) a = .ok a a := rfl
  unfold cacheFreeByAddr cacheFreeByRealAddr
  rw [wp_bind]
  refine wp_cacheGetCidByRealAddr h.listed ?_
  rw [← hfound, bind_ok hget]
  cases hcid : a.cache.getCidByRealAddr logAddr with
  | none => exact ⟨a, rfl, h⟩
  | some cid =>
    have hsame : (a.cache.caches cid).isDirty = (s.lruPtr.caches cid).isDirty := by
      rw [h.caches]
      rfl
    rw [wp_bind, wp_getLruQ]
    refine wp_ite (fun hdirty => ?_) fun hdirty => ?_
    · refine ⟨a, ?_, h⟩
      show (if (a.cache.caches cid).isDirty then _ else _ : TrM Int) a = _
      rw [if_pos (hsame.trans hdirty)]
      rfl
    · have hrecycled := h.recycle cid
      have hclean : ¬(a.cache.caches cid).isDirty = true := by rwa [hsame]
      rw [if_neg hclean] at hrecycled
      rw [wp_bind, wp_modifyLruQ, ← CacheLruQ.recycle_of_clean (Bool.eq_false_iff.mpr hdirty)]
      refine ⟨_, ?_, hrecycled⟩
      show (if (a.cache.caches cid).isDirty then _ else _ : TrM Int) a = _
      rw [if_neg hclean]
      rfl

theorem CacheWorld.Lists.initTid (tid : Int) (cids : List Nat) (h : start.Lists s a) :
    start.Lists { s with lruPtr := cids.foldl (CacheLruQ.initTid tid) s.lruPtr }
      { a with cache := cids.foldl (CacheQueue.initTid tid) a.cache } := by
  induction cids generalizing s a with
  | nil => exact h
  | cons cid cids ih =>
    have hone : start.Lists { s with lruPtr := CacheLruQ.initTid tid s.lruPtr cid }
        { a with cache := CacheQueue.initTid tid a.cache cid } := by
      have hsame : (a.cache.caches cid).tid = (s.lruPtr.caches cid).tid := by
        rw [h.caches]
        rfl
      rw [CacheLruQ.initTid_eq, CacheQueue.initTid, hsame]
      by_cases htid : (s.lruPtr.caches cid).tid = tid
      · rw [if_pos htid, if_pos htid]
        exact h.recycle cid
      · rw [if_neg htid, if_neg htid]
        exact h
    exact ih hone

theorem refines_cacheInitTidRelated (tid : Int) : Refines start (cacheInitTidRelated tid)
    (modify fun s => { s with cache := s.cache.initTidRelated fsCacheBuffers tid }) :=
  simulates_modify fun _ _ h => h.initTid tid _

/-! ## The walks -/

namespace Linked

theorem refines_trMarkAsObsolete (logAddr : LogAddr) (isFromReboot : Bool) :
    Refines start (trMarkAsObsolete logAddr isFromReboot)
      (NandFs.trMarkAsObsolete logAddr isFromReboot) :=
  simulates_bind (refines_inWorld _) fun _ => simulates_ite (simulates_pure _)
    (simulates_bind (refines_cacheFreeByAddr _) fun _ =>
      simulates_ite (simulates_pure _) (simulates_pure _))

theorem refines_deletePages (isFromReboot : Bool) (n : Nat) (logAddr : LogAddr) :
    RefinesFst start (deletePages isFromReboot n logAddr)
      (NandFs.deletePages isFromReboot n logAddr) := by
  induction n generalizing logAddr with
  | zero => exact simulates_pure _
  | succ n ih =>
    exact simulates_ite (simulates_pure _) (simulates_bind (refines_trMarkAsObsolete _ _) fun _ =>
      simulates_ite (simulates_pure _) (simulates_bind (refines_inWorld _) fun _ =>
        simulates_ite (simulates_pure _) (ih _)))

theorem refines_deleteTransactionPages (turns : Nat) (logAddr : LogAddr) (tid : Int)
    (isFromReboot : Bool) : RefinesFst start (deleteTransactionPages turns logAddr tid isFromReboot)
      (NandFs.deleteTransactionPages turns fsCacheBuffers logAddr tid isFromReboot) :=
  simulates_bind (refines_cacheInitTidRelated tid) fun _ => refines_deletePages _ _ _

theorem refines_performVotsLoop (vots : Block) (isFromReboot : Bool) (is : List Nat) :
    Refines start (performVotsLoop vots isFromReboot is)
      (NandFs.performVotsLoop vots isFromReboot is) := by
  induction is with
  | nil => exact simulates_pure _
  | cons i is ih =>
    exact simulates_ite (simulates_pure _) (simulates_bind (refines_trMarkAsObsolete _ _) fun _ =>
      simulates_ite (simulates_pure _) ih)

theorem refines_handleTransactionVOTs (turns : Nat) (logAddr : LogAddr) (isFromReboot : Bool) :
    Refines start (handleTransactionVOTs isFromReboot turns logAddr)
      (NandFs.handleTransactionVOTs turns logAddr isFromReboot) := by
  unfold NandFs.handleTransactionVOTs
  induction turns generalizing logAddr with
  | zero => exact simulates_pure _
  | succ n ih =>
    refine simulates_ite (simulates_pure _) (simulates_bind (refines_inWorld _) fun read =>
      simulates_ite (simulates_pure _) ?_)
    rw [id]
    cases read.vots with
    | none => exact ih _
    | some vots =>
      exact simulates_bind (refines_performVotsLoop _ _ _) fun _ =>
        simulates_ite (simulates_pure _) (simulates_bind (refines_trMarkAsObsolete _ _) fun _ =>
          simulates_ite (simulates_pure _) (ih _))

end Linked

end Refinement

end Walks

end NandFs
