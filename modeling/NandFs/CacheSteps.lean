import NandFs.CacheList

/-! # What the calls of the cache do

Every outcome of a flush, of the search for a free buffer and of an access, and what a forced free
leaves.
-/
namespace NandFs

open Program CacheConfig

section Steps
variable [CacheConfig]

/-! ## Programs on the cache -/

theorem wp_onLog {α : Type} {m : SeqM α} {Q : α → CacheWorld → Prop}
    {E : Stop → CacheWorld → Prop} {s : CacheWorld} :
    wp (onLog m) Q E s ↔ wp m (fun a w => Q a { s with world := w })
      (fun e w => E (.halt e) { s with world := w }) s.world := by
  unfold wp onLog
  cases m s.world <;> exact Iff.rfl

/-- What the layer below does leaves the cache alone. -/
theorem wp_onLog_of_run {α : Type} {m : SeqM α} {Q : α → CacheWorld → Prop}
    {E : Stop → CacheWorld → Prop} {s : CacheWorld}
    (hq : ∀ a w, m s.world = .ok a w → Q a { s with world := w })
    (he : ∀ e w, E (.halt e) { s with world := w }) : wp (onLog m) Q E s := by
  rw [wp_onLog]
  unfold wp
  cases hrun : m s.world with
  | ok a w => exact hq a w hrun
  | error e w => exact he e w

section Rules
variable {E : Stop → CacheWorld → Prop} {s : CacheWorld}

@[simp] theorem wp_getLruQ {Q : CacheLruQ → CacheWorld → Prop} :
    wp getLruQ Q E s ↔ Q s.lruPtr s := Iff.rfl

@[simp] theorem wp_modifyLruQ {Q : PUnit → CacheWorld → Prop} {f : CacheLruQ → CacheLruQ} :
    wp (modifyLruQ f) Q E s ↔ Q ⟨⟩ { s with lruPtr := f s.lruPtr } := Iff.rfl

@[simp] theorem wp_use {Q : PUnit → CacheWorld → Prop} {cid : Nat} :
    wp (use cid) Q E s ↔ Q ⟨⟩ { s with used := cid :: s.used } := Iff.rfl

@[simp] theorem wp_modifyTransaction {Q : PUnit → CacheWorld → Prop} {tid : Int}
    {f : Transaction → Transaction} :
    wp (modifyTransaction tid f) Q E s ↔ Q ⟨⟩ { s with
      transactions := Function.update s.transactions tid (f (s.transactions tid)) } := Iff.rfl

@[simp] theorem wp_orEndless_some {α : Type} {a : α} {Q : α → CacheWorld → Prop} :
    wp (orEndless (some a)) Q E s ↔ Q a s := Iff.rfl

end Rules

/-! ## What a flush does -/

/-- The entry in the parent gets the address, and the parent waits for one buffer less. -/
def CacheLruQ.fixParent (q : CacheLruQ) (cid : Nat) (a : LogAddr) : CacheLruQ :=
  match (q.caches cid).parentCid with
  | some parentCid =>
    (q.setParentEntry cid a).modify parentCid fun p => { p with refCount := p.refCount - 1 }
  | none => q

/-- What a transaction holds of the buffer is fixed, unless that has a parent. -/
def Transaction.fixBuffer (t : Transaction) (cid : Nat) (c : CacheBuffer) (a : LogAddr) :
    Transaction :=
  match c.parentCid with
  | some _ => t
  | none => t.fixReference cid c.parentOffset a

/-- The block of a buffer was written to the address `a`, and the reference to it is fixed. -/
def CacheWorld.written (s : CacheWorld) (cid : Nat) (w : World) (a : LogAddr) : CacheWorld :=
  { s with
    world := w
    transactions := Function.update s.transactions (s.lruPtr.caches cid).tid
      (({ s.transactions (s.lruPtr.caches cid).tid with prevLogAddr := a } : Transaction).fixBuffer
        cid (s.lruPtr.caches cid) a)
    lruPtr := s.lruPtr.fixParent cid a
    flushed := s.flushed ++ [⟨cid, (s.lruPtr.caches cid).buf, a⟩] }

/-- The block of the buffer is written to `a` with the result `err`. -/
def CacheWorld.Writes (s : CacheWorld) (cid : Nat) (err : Nat) (a : LogAddr) (w : World) : Prop :=
  ∃ cpWritten, allocAndWriteBlock LogAddr.empty ⟨(s.lruPtr.caches cid).buf, initFlags⟩ false
    (s.transactions (s.lruPtr.caches cid).tid).prevLogAddr (fsCheckpointWriter s.transactions) .not
    s.world = .ok ⟨err, a, cpWritten⟩ w

/-- `cache_flush_cache` of the buffer returns `res` and leaves a state. -/
inductive Flushes (cid : Nat) (s : CacheWorld) : Int → CacheWorld → Prop
  | illegal (hcid : fsCacheBuffers ≤ cid) : Flushes cid s fsErrorIllegalCid s
  | referenced (hcid : cid < fsCacheBuffers) (href : 0 < (s.lruPtr.caches cid).refCount) :
    Flushes cid s fsErrorNonzeroRefCount s
  | free (hcid : cid < fsCacheBuffers) (hfree : (s.lruPtr.caches cid).isFree = true) :
    Flushes cid s 0 s
  | clean (hcid : cid < fsCacheBuffers) (href : (s.lruPtr.caches cid).refCount ≤ 0)
    (hdirty : (s.lruPtr.caches cid).isDirty = false) :
    Flushes cid s 0 { s with lruPtr := s.lruPtr.recycle cid }
  | failed (w : World) : Flushes cid s fsErrorIo { s with world := w }
  | decZero (parentCid : Nat) (a : LogAddr) (w : World) (hcid : cid < fsCacheBuffers)
    (hparent : (s.lruPtr.caches cid).parentCid = some parentCid)
    (hdirty : (s.lruPtr.caches cid).isDirty = true)
    (href : (s.lruPtr.caches parentCid).refCount = 0) :
    Flushes cid s fsErrorDecZeroRefCount { s.written cid w a with
      lruPtr := s.lruPtr.setParentEntry cid a }
  | written (a : LogAddr) (w : World) (hcid : cid < fsCacheBuffers)
    (href : (s.lruPtr.caches cid).refCount ≤ 0) (hdirty : (s.lruPtr.caches cid).isDirty = true)
    (hwrites : s.Writes cid 0 a w)
    (hparent : ∀ parentCid, (s.lruPtr.caches cid).parentCid = some parentCid →
      (s.lruPtr.caches parentCid).refCount ≠ 0) :
    Flushes cid s 0 { s.written cid w a with lruPtr := (s.lruPtr.fixParent cid a).recycle cid }

/-- Where a flush stops, the layer below did. -/
def StopsBelow (s : CacheWorld) (e : Stop) (t : CacheWorld) : Prop :=
  (∃ h, e = .halt h) ∧ t = { s with world := t.world }

variable {s : CacheWorld} {cid : Nat}

/-- Setting the entry in the parent shows in no view that leaves blocks and addresses out. -/
theorem CacheLruQ.setParentEntry_view {τ : Type} {q : CacheLruQ} {a : LogAddr} {i : Nat}
    (view : CacheBuffer → τ) (hentry : ∀ c offset a, view (c.setEntry offset a) = view c) :
    view ((q.setParentEntry cid a).caches i) = view (q.caches i) := by
  unfold setParentEntry
  split
  · exact modify_view view fun c => hentry c _ a
  · rfl

theorem CacheLruQ.fixParent_view {τ : Type} {q : CacheLruQ} {a : LogAddr} {i : Nat}
    (view : CacheBuffer → τ) (hentry : ∀ c offset a, view (c.setEntry offset a) = view c)
    (hcount : ∀ (c : CacheBuffer) n, view { c with refCount := n } = view c) :
    view ((q.fixParent cid a).caches i) = view (q.caches i) := by
  unfold fixParent
  split
  · exact (modify_view view fun c => hcount c _).trans (setParentEntry_view view hentry)
  · rfl

/-- An entry that is set changes a buffer in its block or its address only. -/
theorem CacheBuffer.setEntry_view {τ : Type} (view : CacheBuffer → τ)
    (hbuf : ∀ (c : CacheBuffer) buf, view { c with buf } = view c)
    (haddr : ∀ (c : CacheBuffer) logAddr, view { c with logAddr } = view c) (c : CacheBuffer)
    (offset : Option Nat) (a : LogAddr) : view (c.setEntry offset a) = view c := by
  cases offset with
  | none => exact haddr c a
  | some num => exact hbuf c _

theorem CacheLruQ.setParentEntry_refCount {q : CacheLruQ} {a : LogAddr} {i : Nat} :
    ((q.setParentEntry cid a).caches i).refCount = (q.caches i).refCount :=
  setParentEntry_view CacheBuffer.refCount
    (CacheBuffer.setEntry_view _ (fun _ _ => rfl) fun _ _ => rfl)

/-- `cache_flush_cache` once it has written the block. -/
theorem wp_cacheFixBlockDependencies {a : LogAddr} {w : World} {t : CacheWorld}
    (ht : t = { s.written cid w a with
      transactions := Function.update s.transactions (s.lruPtr.caches cid).tid
        { s.transactions (s.lruPtr.caches cid).tid with prevLogAddr := a }
      lruPtr := s.lruPtr })
    {E : Stop → CacheWorld → Prop} :
    wp (cacheFixBlockDependencies cid a) (fun res u =>
      (res = 0 ∧ u = s.written cid w a ∧
        ∀ parentCid, (s.lruPtr.caches cid).parentCid = some parentCid →
          (s.lruPtr.caches parentCid).refCount ≠ 0) ∨
      (res = fsErrorDecZeroRefCount ∧
        u = { s.written cid w a with lruPtr := s.lruPtr.setParentEntry cid a } ∧
        ∃ parentCid, (s.lruPtr.caches cid).parentCid = some parentCid ∧
          (s.lruPtr.caches parentCid).refCount = 0)) E t := by
  subst ht
  unfold cacheFixBlockDependencies
  rw [wp_bind, wp_getLruQ]
  cases hparent : (s.lruPtr.caches cid).parentCid with
  | some parentCid =>
    have hbuffer : ∀ r : Transaction, r.fixBuffer cid (s.lruPtr.caches cid) a = r := by
      intro r
      unfold Transaction.fixBuffer
      rw [hparent]
    dsimp only
    rw [wp_bind, wp_modifyLruQ]
    refine wp_ite (fun href => ?_) fun href => ?_
    · rw [CacheLruQ.setParentEntry_refCount] at href
      refine .inr ⟨rfl, ?_, parentCid, rfl, href⟩
      unfold CacheWorld.written
      rw [hbuffer]
    · rw [CacheLruQ.setParentEntry_refCount] at href
      rw [wp_bind, wp_modifyLruQ]
      refine .inl ⟨rfl, ?_, fun p hp => Option.some.inj hp ▸ href⟩
      unfold CacheWorld.written CacheLruQ.fixParent
      rw [hbuffer, hparent]
  | none =>
    dsimp only
    rw [wp_bind, wp_modifyTransaction]
    refine .inl ⟨rfl, ?_, fun p hp => absurd hp (Option.some_ne_none p).symm⟩
    unfold CacheWorld.written CacheLruQ.fixParent Transaction.fixBuffer
    simp only [hparent, Function.update_idem, Function.update_self]

/-- Every outcome of a flush. -/
theorem wp_cacheFlushCache : wp (cacheFlushCache cid) (Flushes cid s) (StopsBelow s) s := by
  unfold cacheFlushCache
  rw [wp_bind, wp_getLruQ]
  refine wp_ite (fun hcid => .illegal hcid) fun hcid => ?_
  have hcid := not_le.mp hcid
  refine wp_ite (fun href => .referenced hcid href) fun href => ?_
  have href := not_lt.mp href
  refine wp_ite (fun hfree => .free hcid hfree) fun _ => ?_
  unfold cacheWriteBack
  rw [wp_bind, wp_bind, wp_getLruQ]
  refine wp_ite (fun hdirty => ?_) fun hdirty => ?_
  · unfold allocAndWriteBlockTidActualWrite
    rw [wp_bind, wp_bind, wp_get, wp_bind]
    refine wp_onLog_of_run (fun res w hres => ?_) fun e w => ⟨⟨e, rfl⟩, rfl⟩
    refine wp_ite (fun _ => ?_) fun herr => ?_
    · exact .failed w
    · rw [wp_bind, wp_modifyTransaction, wp_pure]
      refine wp_ite (fun h => absurd rfl h) fun _ => ?_
      rw [wp_bind, wp_modify]
      refine wp_mono (wp_cacheFixBlockDependencies (s := s) (w := w) rfl) (fun r u hu => ?_)
        fun _ _ he => he
      rcases hu with ⟨rfl, rfl, hparent⟩ | ⟨rfl, rfl, parentCid, hparent, hzero⟩
      · refine wp_ite (fun h => absurd rfl h) fun _ => ?_
        rw [wp_bind, wp_modifyLruQ, wp_bind, wp_modifyLruQ]
        have herr : res.err = 0 := not_not.mp herr
        exact .written res.logAddr w hcid href hdirty ⟨res.cpWritten, herr ▸ hres⟩ hparent
      · refine wp_ite (fun _ => ?_) fun h => absurd h (by decide)
        exact .decZero parentCid res.logAddr w hcid hparent hdirty hzero
  · rw [wp_pure]
    refine wp_ite (fun h => absurd rfl h) fun _ => ?_
    rw [wp_bind, wp_modifyLruQ, wp_bind, wp_modifyLruQ]
    exact .clean hcid href (Bool.eq_false_iff.mpr hdirty)

/-- What every flush of a buffer of the transaction preserves, the flushes of the transaction
preserve. -/
theorem preserves_cacheFlushTransactionBlocks {I : CacheWorld → Prop} (tid : Int)
    (hflush : ∀ cid s, (s.lruPtr.caches cid).tid = tid → I s →
      wp (cacheFlushCache cid) (fun _ => I) (fun _ => I) s) :
    Preserves I (cacheFlushTransactionBlocks tid) := by
  have hpass : ∀ (j : Nat) (cids : List Nat), Preserves I (flushPass tid j cids) := by
    intro j cids
    induction cids with
    | nil => exact preserves_pure 0
    | cons cid cids ih =>
      intro s hs
      unfold flushPass
      rw [wp_bind, wp_getLruQ]
      refine wp_ite (fun _ => ih s hs) fun htid => wp_ite (fun _ => ih s hs) fun _ => ?_
      refine wp_seq (hflush cid s (not_not.mp htid) hs) fun res t ht => ?_
      exact wp_ite (fun _ => ih t ht) fun _ => wp_ite (fun _ => ht) fun _ => ht
  have hpasses : ∀ js, Preserves I (flushPasses tid js) := by
    intro js
    induction js with
    | nil => exact preserves_pure 0
    | cons j js ih =>
      unfold flushPasses
      exact preserves_bind (hpass j _) fun res => preserves_ite (fun _ => ih) fun _ =>
        preserves_pure res
  exact hpasses _

/-! ## Reading the list -/

section Access
variable {E : Stop → CacheWorld → Prop} {lru : List Nat}

/-- The first buffer of the list that has the address. -/
theorem wp_cacheGetCidByRealAddr {logAddr : LogAddr} {Q : Option Nat → CacheWorld → Prop}
    (h : s.lruPtr.Listed fsCacheBuffers lru)
    (hQ : Q (if isAddressEmpty logAddr = true then none
      else lru.find? fun cid => (s.lruPtr.caches cid).logAddr == logAddr) s) :
    wp (cacheGetCidByRealAddr logAddr) Q E s := by
  unfold cacheGetCidByRealAddr
  rw [wp_bind, wp_getLruQ]
  refine wp_ite (fun hempty => ?_) fun hempty => ?_
  · rw [if_pos hempty] at hQ
    exact hQ
  · rw [if_neg hempty] at hQ
    rw [h.lists.findRealAddr h.length_le]
    exact hQ

/-- The buffer is the one that the address names, or it has the block of the address. -/
def CacheLruQ.Holds (q : CacheLruQ) (cid : Nat) (a : LogAddr) : Prop :=
  isCachedAddr a = true ∧ cid = a.offset ∨
    isCachedAddr a = false ∧ isAddressEmpty a = false ∧ cid < fsCacheBuffers ∧
      (q.caches cid).logAddr = a

omit [CacheConfig] in
theorem ne_empty_of_isAddressEmpty {a : LogAddr} (h : isAddressEmpty a = false) :
    a ≠ LogAddr.empty := by
  rintro rfl
  exact absurd h (by decide)

/-- `cache_get_cid_by_addr` finds the buffer of an address, if there is one. -/
theorem wp_cacheGetCidByAddr (h : s.lruPtr.Listed fsCacheBuffers lru) {oldAddr : LogAddr}
    : wp (cacheGetCidByAddr oldAddr) (fun res t => t = s ∧
      match res with
      | some cid => s.lruPtr.Holds cid oldAddr
      | none => isCachedAddr oldAddr = false ∧ ∀ cid, ¬s.lruPtr.Holds cid oldAddr) E s := by
  unfold cacheGetCidByAddr
  refine wp_ite (fun hcached => ⟨rfl, .inl ⟨hcached, rfl⟩⟩) fun hcached => ?_
  have hcached := Bool.eq_false_iff.mpr hcached
  have hnone : isAddressEmpty oldAddr = true → ∀ cid, ¬s.lruPtr.Holds cid oldAddr := by
    rintro haddr cid (⟨hcached', -⟩ | ⟨-, hempty, -⟩)
    · exact absurd (hcached'.symm.trans hcached) (by decide)
    · exact absurd (haddr.symm.trans hempty) (by decide)
  refine wp_ite (fun hempty => ⟨rfl, hcached, hnone ?_⟩) fun hempty => ?_
  · rw [isAddrEmpty_eq_true.mp hempty]
    rfl
  · refine wp_cacheGetCidByRealAddr h ?_
    by_cases haddr : isAddressEmpty oldAddr = true
    · rw [if_pos haddr]
      exact ⟨rfl, hcached, hnone haddr⟩
    · rw [if_neg haddr]
      refine ⟨rfl, ?_⟩
      cases hfind : lru.find? fun cid => (s.lruPtr.caches cid).logAddr == oldAddr with
      | none =>
        refine ⟨hcached, ?_⟩
        rintro cid (⟨hcached', -⟩ | ⟨-, -, hcid, hsame⟩)
        · exact absurd (hcached'.symm.trans hcached) (by decide)
        · have hmem : cid ∈ lru := by
            refine (h.mem_iff cid).mpr ⟨hcid, ?_⟩
            unfold CacheBuffer.isFree
            rw [hsame, Bool.and_eq_false_iff]
            exact .inr (Bool.eq_false_iff.mpr hempty)
          exact List.find?_eq_none.mp hfind cid hmem (beq_iff_eq.mpr hsame)
      | some cid =>
        have hsame := List.find?_some hfind
        exact .inr ⟨hcached, Bool.eq_false_iff.mpr haddr, h.lt (List.mem_of_find?_eq_some hfind),
          beq_iff_eq.mp hsame⟩

/-! ## What an access does -/

/-- `cache_get_free_cache_id` gives a buffer, or fails, and leaves a state. -/
inductive Acquires (s : CacheWorld) : Except Int Nat → CacheWorld → Prop
  | free (cid : Nat) (hcid : cid < fsCacheBuffers) (hfree : (s.lruPtr.caches cid).isFree = true) :
    Acquires s (.ok cid) s
  | evicted (cid : Nat) (t : CacheWorld) (hcid : cid < fsCacheBuffers) (h : Flushes cid s 0 t) :
    Acquires s (.ok cid) t
  | failed (cid : Nat) (res : Int) (t : CacheWorld) (h : Flushes cid s res t) (hres : res ≠ 0) :
    Acquires s (.error res) t
  | allUsed : Acquires s (.error fsErrorCritical) s

/-- Every outcome of the search for a free buffer. -/
theorem wp_cacheGetFreeCacheId (h : s.lruPtr.Listed fsCacheBuffers lru) :
    wp cacheGetFreeCacheId (Acquires s) (StopsBelow s) s := by
  unfold cacheGetFreeCacheId
  rw [wp_bind, wp_getLruQ]
  split
  · next i hfind =>
    have hfree := List.find?_some hfind
    exact .free i (List.mem_range.mp (List.mem_of_find?_eq_some hfind)) hfree
  · unfold cacheGetLruCid
    rw [wp_bind, wp_bind, wp_getLruQ]
    split
    · exact .allUsed
    · next i hlru =>
      obtain ⟨leaf, hleaf, hspec⟩ := h.lists.findLeaf h.length_le none hlru
      rw [hleaf, wp_orEndless_some]
      cases leaf with
      | none => exact .allUsed
      | some lruCid =>
        refine wp_seq wp_cacheFlushCache fun res t ht => ?_
        refine wp_ite (fun hres => .failed lruCid res t ht hres) fun hres => ?_
        have hres : res = 0 := not_not.mp hres
        exact .evicted lruCid t (h.lt (hspec lruCid rfl).1) (hres ▸ ht)

/-- `cache_access_cache` of an address leaves a state. -/
inductive Accesses (buf : Block) (oldAddr : LogAddr) (parentOffset : Option Nat) (tid : Int)
    (dataType : DataType) (isWrite : Bool) (s : CacheWorld) : CacheWorld → Prop
  | refused (res : Int) (t : CacheWorld) (h : Acquires s (.error res) t) :
    Accesses buf oldAddr parentOffset tid dataType isWrite s t
  | unread (cid : Nat) (t : CacheWorld) (w : World) (h : Acquires s (.ok cid) t) :
    Accesses buf oldAddr parentOffset tid dataType isWrite s { t with world := w }
  | write (cid : Nat) (t : CacheWorld) (hcached : isCachedAddr oldAddr = false)
    (hnew : ∀ i, ¬s.lruPtr.Holds i oldAddr) (hwrite : isWrite = true)
    (h : Acquires s (.ok cid) t) :
    Accesses buf oldAddr parentOffset tid dataType isWrite s { t with
      lruPtr := t.lruPtr.accessClean cid buf oldAddr parentOffset tid dataType isWrite
      used := cid :: t.used }
  | read (cid : Nat) (t : CacheWorld) (block : Block) (w : World)
    (hcached : isCachedAddr oldAddr = false) (hnew : ∀ i, ¬s.lruPtr.Holds i oldAddr)
    (hread : isWrite = false) (h : Acquires s (.ok cid) t) :
    Accesses buf oldAddr parentOffset tid dataType isWrite s { t with
      world := w
      lruPtr := (t.lruPtr.modify cid fun c => { c with buf := block }).accessClean cid buf oldAddr
        parentOffset tid dataType isWrite
      used := cid :: t.used }
  | dirty (cid : Nat) (hholds : s.lruPtr.Holds cid oldAddr)
    (hdirty : (s.lruPtr.caches cid).isDirty = true) :
    Accesses buf oldAddr parentOffset tid dataType isWrite s { s with
      lruPtr := s.lruPtr.accessDirty cid buf tid dataType isWrite
      used := cid :: s.used }
  | clean (cid : Nat) (hholds : s.lruPtr.Holds cid oldAddr)
    (hdirty : (s.lruPtr.caches cid).isDirty = false) :
    Accesses buf oldAddr parentOffset tid dataType isWrite s { s with
      lruPtr := s.lruPtr.accessClean cid buf oldAddr parentOffset tid dataType isWrite
      used := cid :: s.used }

/-- Where an access stops, the layer below did, before or after a buffer was acquired. -/
def AccessStops (s : CacheWorld) (e : Stop) (t : CacheWorld) : Prop :=
  ∃ u, (u = s ∨ ∃ cid, Acquires s (.ok cid) u) ∧ StopsBelow u e t

/-- Every outcome of an access.  The check that the buffer is the one of the address never fails. -/
theorem wp_cacheAccessCache (h : s.lruPtr.Listed fsCacheBuffers lru) {buf : Block}
    {oldAddr : LogAddr} {parentOffset : Option Nat} {tid : Int} {dataType : DataType}
    {isWrite : Bool} :
    wp (cacheAccessCache buf oldAddr parentOffset tid dataType isWrite)
      (fun _ t => Accesses buf oldAddr parentOffset tid dataType isWrite s t) (AccessStops s) s := by
  unfold cacheAccessCache
  refine wp_seq (wp_cacheGetCidByAddr h) fun res t ht => ?_
  obtain ⟨rfl, hres⟩ := ht
  cases res with
  | none =>
    obtain ⟨hcached, hnew⟩ := hres
    refine wp_seq (wp_mono (wp_cacheGetFreeCacheId h) (fun _ _ hu => hu)
      fun _ _ hu => ⟨t, .inl rfl, hu⟩) fun res u hu => ?_
    cases res with
    | error res => exact .refused res u hu
    | ok cid =>
      refine wp_ite (fun hwrite => ?_) fun hread => ?_
      · unfold cacheAccessClean
        rw [wp_bind, wp_modifyLruQ, wp_bind, wp_use]
        exact .write cid u hcached hnew hwrite hu
      · rw [wp_bind]
        refine wp_onLog_of_run (fun res w _ => ?_) fun e w =>
          ⟨u, .inr ⟨cid, hu⟩, ⟨e, rfl⟩, rfl⟩
        cases res with
        | none => exact .unread cid u w hu
        | some block =>
          unfold cacheAccessClean
          dsimp only
          rw [wp_bind, wp_modifyLruQ, wp_bind, wp_modifyLruQ, wp_bind, wp_use]
          exact .read cid u block w hcached hnew (Bool.eq_false_iff.mpr hread) hu
  | some cid =>
    dsimp only
    rw [wp_bind, wp_getLruQ]
    refine wp_ite (fun hother => ?_) fun _ => ?_
    · obtain ⟨hcached, hne⟩ := hother
      rcases hres with ⟨-, rfl⟩ | ⟨hcached', -⟩
      · exact absurd rfl hne
      · exact absurd (hcached.symm.trans hcached') (by decide)
    · refine wp_ite (fun hdirty => ?_) fun hdirty => ?_
      · rw [wp_bind, wp_modifyLruQ, wp_bind, wp_use]
        exact .dirty cid hres hdirty
      · unfold cacheAccessClean
        rw [wp_bind, wp_modifyLruQ, wp_bind, wp_use]
        exact .clean cid hres (Bool.eq_false_iff.mpr hdirty)

/-! ## Parents -/

/-- Every buffer with a parent has an entry in it. -/
def CacheLruQ.ParentsIndexed (q : CacheLruQ) : Prop :=
  ∀ cid < fsCacheBuffers, (q.caches cid).parentCid ≠ none → (q.caches cid).parentOffset ≠ none

instance (q : CacheLruQ) : Decidable q.ParentsIndexed :=
  inferInstanceAs (Decidable (∀ cid < fsCacheBuffers,
    (q.caches cid).parentCid ≠ none → (q.caches cid).parentOffset ≠ none))

/-- From `q` to `q'` the list stays, and which buffers are free, and the parents. -/
structure CacheLruQ.KeepsParents (q q' : CacheLruQ) : Prop extends q.Keeps q' where
  parentCid : ∀ i, (q'.caches i).parentCid = (q.caches i).parentCid
  parentOffset : ∀ i, (q'.caches i).parentOffset = (q.caches i).parentOffset

namespace CacheLruQ.KeepsParents
variable {q q' q'' : CacheLruQ} {cid : Nat}

theorem refl (q : CacheLruQ) : q.KeepsParents q := ⟨.refl q, fun _ => rfl, fun _ => rfl⟩

theorem trans (h : q.KeepsParents q') (h' : q'.KeepsParents q'') : q.KeepsParents q'' :=
  ⟨h.toKeeps.trans h'.toKeeps, fun i => (h'.parentCid i).trans (h.parentCid i),
    fun i => (h'.parentOffset i).trans (h.parentOffset i)⟩

theorem modify {f : CacheBuffer → CacheBuffer} (hlisting : ∀ c, (f c).listing = c.listing)
    (hcid : ∀ c, (f c).parentCid = c.parentCid)
    (hoffset : ∀ c, (f c).parentOffset = c.parentOffset) : q.KeepsParents (q.modify cid f) :=
  ⟨.modify hlisting, fun _ => modify_view CacheBuffer.parentCid hcid,
    fun _ => modify_view CacheBuffer.parentOffset hoffset⟩

theorem indexed (h : q.KeepsParents q') (hq : q.ParentsIndexed) : q'.ParentsIndexed := by
  intro i hi
  rw [h.parentCid, h.parentOffset]
  exact hq i hi

/-- An entry of a block is set. -/
theorem setParentEntry (a : LogAddr)
    (hoffset : (q.caches cid).parentCid ≠ none → (q.caches cid).parentOffset ≠ none) :
    q.KeepsParents (q.setParentEntry cid a) := by
  unfold CacheLruQ.setParentEntry
  cases hparent : (q.caches cid).parentCid with
  | none => exact refl q
  | some parentCid =>
    obtain ⟨num, hnum⟩ := Option.ne_none_iff_exists'.mp
      (hoffset (hparent ▸ Option.some_ne_none parentCid))
    dsimp only
    rw [hnum]
    exact modify (fun _ => rfl) (fun _ => rfl) fun _ => rfl

end CacheLruQ.KeepsParents

theorem CacheLruQ.KeepsParents.fixParent {q : CacheLruQ} (a : LogAddr)
    (hoffset : (q.caches cid).parentCid ≠ none → (q.caches cid).parentOffset ≠ none) :
    q.KeepsParents (q.fixParent cid a) := by
  have hset := setParentEntry a hoffset
  unfold CacheLruQ.fixParent
  split
  · refine hset.trans (.modify ?_ ?_ ?_) <;> exact fun _ => rfl
  · exact .refl q

/-! ## What freeing does -/

/-- A buffer that is not dirty is freed, or none is. -/
def FreesByAddr (s t : CacheWorld) : Prop :=
  t = s ∨ ∃ cid, cid < fsCacheBuffers ∧ (s.lruPtr.caches cid).isDirty = false ∧
    t = { s with lruPtr := s.lruPtr.recycle cid }

theorem wp_cacheFreeByAddr (h : s.lruPtr.Listed fsCacheBuffers lru) (logAddr : LogAddr) :
    wp (cacheFreeByAddr logAddr) (fun _ t => FreesByAddr s t) E s := by
  unfold cacheFreeByAddr
  rw [wp_bind]
  refine wp_cacheGetCidByRealAddr h ?_
  split
  · exact .inl rfl
  · next cid hfind =>
    rw [wp_bind, wp_getLruQ]
    refine wp_ite (fun _ => .inl rfl) fun hdirty => ?_
    have hclean := Bool.eq_false_iff.mpr hdirty
    rw [wp_bind, wp_modifyLruQ, ← CacheLruQ.recycle_of_clean hclean]
    refine .inr ⟨cid, ?_, hclean, rfl⟩
    by_cases haddr : isAddressEmpty logAddr = true
    · rw [if_pos haddr] at hfind
      exact absurd hfind (Option.some_ne_none cid).symm
    · rw [if_neg haddr] at hfind
      exact h.lt (List.mem_of_find?_eq_some hfind)

/-- In `cache_force_free_cache`: what the queue becomes. -/
def CacheLruQ.forceFree (q : CacheLruQ) (cid : Nat) (lru : List Nat) : CacheLruQ :=
  ((q.setParentEntry cid (q.caches cid).logAddr).recycle cid).forgetParent cid (lru.erase cid)

theorem wp_cacheForceFreeCache (h : s.lruPtr.Listed fsCacheBuffers lru)
    (hoffset : (s.lruPtr.caches cid).parentCid ≠ none →
      (s.lruPtr.caches cid).parentOffset ≠ none) {E : Stop → CacheWorld → Prop} :
    wp (cacheForceFreeCache cid) (fun res t => res = 0 ∧ t = { s with
      transactions := t.transactions
      lruPtr := s.lruPtr.forceFree cid lru }) E s := by
  have hset : s.lruPtr.KeepsParents
      (s.lruPtr.setParentEntry cid (s.lruPtr.caches cid).logAddr) := .setParentEntry _ hoffset
  unfold cacheForceFreeCache
  rw [wp_bind, wp_modifyLruQ, wp_bind]
  have hrest : ∀ transactions : Int → Transaction,
      wp (do
        modifyLruQ fun q => q.removeFromLru cid
        modifyLruQ fun q =>
          if (q.caches cid).isDirty then { q with dirtyCount := q.dirtyCount - 1 } else q
        modifyLruQ fun q => q.initByCid cid
        let q ← getLruQ
        let q ← orEndless (CacheLruQ.omitParent cid fsCacheBuffers q.mruCid q)
        modifyLruQ fun _ => q
        return (0 : Int)) (fun res u => res = 0 ∧ u = { s with
          transactions := u.transactions
          lruPtr := s.lruPtr.forceFree cid lru }) E { s with
        transactions
        lruPtr := s.lruPtr.setParentEntry cid (s.lruPtr.caches cid).logAddr } := by
    intro transactions
    rw [wp_bind, wp_modifyLruQ, wp_bind, wp_modifyLruQ, wp_bind, wp_modifyLruQ, wp_bind,
      wp_getLruQ]
    dsimp only
    rw [CacheLruQ.recycle_of_removed _ rfl]
    have hlisted := (h.keeps hset.toKeeps).recycle cid
    rw [hlisted.lists.omitParent hlisted.length_le, wp_bind, wp_orEndless_some, wp_bind,
      wp_modifyLruQ]
    exact ⟨rfl, rfl⟩
  unfold cacheRestoreInode
  rw [wp_bind, wp_getLruQ, wp_bind, wp_get]
  refine wp_ite (fun _ => ?_) fun _ => ?_
  · rw [wp_modifyTransaction]
    exact hrest _
  · exact hrest _

/-! ## Index blocks -/

/-- Nothing changes in the buffers but the indicator of one of them. -/
def MarksLeaf (s t : CacheWorld) : Prop :=
  t.used = s.used ∧ (t.lruPtr = s.lruPtr ∨ ∃ parentCid flag,
    t.lruPtr = s.lruPtr.modify parentCid fun p => { p with isIndirectLeaf := flag })

theorem MarksLeaf.keepsParents {t : CacheWorld} (h : MarksLeaf s t) :
    s.lruPtr.KeepsParents t.lruPtr := by
  rcases h.2 with hlru | ⟨parentCid, flag, hlru⟩
  · rw [hlru]
    exact .refl _
  · rw [hlru]
    refine .modify ?_ ?_ ?_ <;> exact fun _ => rfl

theorem wp_cacheMarkIndirectLeaf : wp (cacheMarkIndirectLeaf cid) (fun _ t => MarksLeaf s t) E s := by
  unfold cacheMarkIndirectLeaf
  rw [wp_bind, wp_getLruQ]
  dsimp only
  split
  · exact ⟨rfl, .inl rfl⟩
  · next parentCid _ =>
    refine wp_ite (fun _ => ⟨rfl, .inl rfl⟩) fun _ => ?_
    rw [wp_bind, wp_modifyTransaction, wp_modifyLruQ]
    exact ⟨rfl, .inr ⟨parentCid, true, rfl⟩⟩

/-- The buffer of the block is forced out, if there is one. -/
def RemovesIndirect (indirectAddr : LogAddr) (lru : List Nat) (s t : CacheWorld) : Prop :=
  t = s ∨ ∃ cid u, s.lruPtr.Holds cid indirectAddr ∧ cid < fsCacheBuffers ∧ MarksLeaf s u ∧
    t.used = u.used ∧ t.lruPtr = u.lruPtr.forceFree cid lru

theorem wp_cacheRemoveIndirectBlock (h : s.lruPtr.Listed fsCacheBuffers lru)
    (hindexed : s.lruPtr.ParentsIndexed) {indirectAddr : LogAddr}
    (hcached : isCachedAddr indirectAddr = true → indirectAddr.offset < fsCacheBuffers) :
    wp (cacheRemoveIndirectBlock indirectAddr)
      (fun _ t => RemovesIndirect indirectAddr lru s t) E s := by
  have hforce : ∀ cid < fsCacheBuffers, s.lruPtr.Holds cid indirectAddr → wp (do
      cacheMarkIndirectLeaf cid
      cacheForceFreeCache cid) (fun _ t => RemovesIndirect indirectAddr lru s t) E s := by
    intro cid hcid hholds
    refine wp_seq wp_cacheMarkIndirectLeaf fun _ u hu => ?_
    have hkeeps := hu.keepsParents
    have hoffset := hkeeps.indexed hindexed cid hcid
    refine wp_mono (wp_cacheForceFreeCache (h.keeps hkeeps.toKeeps) hoffset) (fun _ t ht => ?_)
      fun _ _ he => he
    refine .inr ⟨cid, u, hholds, hcid, hu, ?_, ?_⟩
    · rw [ht.2]
    · rw [ht.2]
  unfold cacheRemoveIndirectBlock cacheGetIndirectCid
  rw [wp_bind]
  refine wp_ite (fun haddr => ?_) fun haddr => ?_
  · exact hforce _ (hcached haddr) (.inl ⟨haddr, rfl⟩)
  · refine wp_cacheGetCidByRealAddr h ?_
    by_cases hempty : isAddressEmpty indirectAddr = true
    · rw [if_pos hempty]
      exact .inl rfl
    · rw [if_neg hempty]
      cases hfind : lru.find? fun cid => (s.lruPtr.caches cid).logAddr == indirectAddr with
      | none => exact .inl rfl
      | some cid =>
        have hsame := List.find?_some hfind
        have hcid := h.lt (List.mem_of_find?_eq_some hfind)
        exact hforce cid hcid (.inr ⟨Bool.eq_false_iff.mpr haddr, Bool.eq_false_iff.mpr hempty,
          hcid, beq_iff_eq.mp hsame⟩)

theorem wp_cacheGetIndirectParent (h : s.lruPtr.Listed fsCacheBuffers lru) (indirectOffset : Int)
    (doubleLogAddr : LogAddr) (tid : Int) :
    wp (cacheGetIndirectParent indirectOffset doubleLogAddr tid) (fun _ t => t = s) E s := by
  unfold cacheGetIndirectParent
  rw [wp_bind, wp_get]
  refine wp_ite (fun _ => rfl) fun _ => ?_
  refine wp_ite (fun _ => rfl) fun _ => ?_
  rw [wp_bind]
  refine wp_cacheGetCidByRealAddr h ?_
  split <;> exact rfl

theorem wp_cacheFixIndirectLeafIndicator (h : s.lruPtr.Listed fsCacheBuffers lru)
    (indirectOffset : Int) (doubleLogAddr : LogAddr) (tid : Int) (flag : Bool) :
    wp (cacheFixIndirectLeafIndicator indirectOffset doubleLogAddr tid flag)
      (fun _ t => MarksLeaf s t) E s := by
  unfold cacheFixIndirectLeafIndicator
  refine wp_seq (wp_cacheGetIndirectParent h indirectOffset doubleLogAddr tid) fun res t ht => ?_
  subst ht
  cases res with
  | none => exact ⟨rfl, .inl rfl⟩
  | some parentCid =>
    dsimp only
    rw [wp_modifyLruQ]
    exact ⟨rfl, .inr ⟨parentCid, flag, rfl⟩⟩

end Access

end Steps

end NandFs
