import NandFs.CacheSteps

/-! # The list over runs of the cache

Whatever is accessed, flushed and freed, in any order, the list holds the buffers in use from the
most recently used one to the least recently used one, unless a temporary address is read after its
buffer was freed.  `cache_access_cache` checks that the buffer of an address is the one it names,
which it always is, and not that there is a block in it.
-/
namespace NandFs

open Program CacheConfig

section Runs
variable [CacheConfig]

/-! ## Calls -/

/-- What is called in the cache, or happens to what it shares with the layers around it: they write
pages, change transactions and mark buffers as voted. -/
inductive CacheCall
  | access (buf : Block) (oldAddr : LogAddr) (parentOffset : Option Nat) (tid : Int)
      (dataType : DataType) (isWrite : Bool)
  | flush (cid : Nat)
  | flushTransaction (tid : Int)
  | free (logAddr : LogAddr)
  | forceFree (cid : Nat)
  | removeIndirect (indirectAddr : LogAddr)
  | fixIndirectLeaf (indirectOffset : Int) (doubleLogAddr : LogAddr) (tid : Int) (flag : Bool)
  | initTid (tid : Int)
  | outside (world : World) (transactions : Int → Transaction) (isVoted : Nat → Bool)

namespace CacheCall

def exec : CacheCall → CacheM Unit
  | access buf oldAddr parentOffset tid dataType isWrite =>
    Functor.discard (cacheAccessCache buf oldAddr parentOffset tid dataType isWrite)
  | flush cid => Functor.discard (cacheFlushCache cid)
  | flushTransaction tid => Functor.discard (cacheFlushTransactionBlocks tid)
  | free logAddr => Functor.discard (cacheFreeByAddr logAddr)
  | forceFree cid => Functor.discard (cacheForceFreeCache cid)
  | removeIndirect indirectAddr => Functor.discard (cacheRemoveIndirectBlock indirectAddr)
  | fixIndirectLeaf indirectOffset doubleLogAddr tid flag =>
    cacheFixIndirectLeafIndicator indirectOffset doubleLogAddr tid flag
  | initTid tid => cacheInitTidRelated tid
  | outside world transactions isVoted => modify fun s => { s with
      world, transactions
      lruPtr := { s.lruPtr with caches := fun cid =>
        { s.lruPtr.caches cid with isVoted := isVoted cid } } }

end CacheCall

/-! ## What goes wrong -/

/-- The call keeps to the buffers: a temporary address names one of them, and one in use if it is
read; what else is read has an address; and no entry is looked for outside of a block. -/
def CacheCall.KeepsToBuffers : CacheCall → CacheWorld → Prop
  | access _ oldAddr _ _ _ isWrite, s =>
    (if isCachedAddr oldAddr = true then oldAddr.offset < fsCacheBuffers ∧
        (isWrite = true ∨ (s.lruPtr.caches oldAddr.offset).isFree = false)
      else if isAddressEmpty oldAddr = true then oldAddr = LogAddr.empty ∧ isWrite = true
      else True) ∧ s.lruPtr.ParentsIndexed
  | flush _, s => s.lruPtr.ParentsIndexed
  | flushTransaction _, s => s.lruPtr.ParentsIndexed
  | forceFree cid, s => cid < fsCacheBuffers ∧ s.lruPtr.ParentsIndexed
  | removeIndirect indirectAddr, s =>
    (isCachedAddr indirectAddr = true → indirectAddr.offset < fsCacheBuffers) ∧
      s.lruPtr.ParentsIndexed
  | _, _ => True

instance : ∀ call s, Decidable (CacheCall.KeepsToBuffers call s)
  | .access _ oldAddr _ _ _ isWrite, s => inferInstanceAs (Decidable (
    (if isCachedAddr oldAddr = true then oldAddr.offset < fsCacheBuffers ∧
        (isWrite = true ∨ (s.lruPtr.caches oldAddr.offset).isFree = false)
      else if isAddressEmpty oldAddr = true then oldAddr = LogAddr.empty ∧ isWrite = true
      else True) ∧ s.lruPtr.ParentsIndexed))
  | .flush _, s => inferInstanceAs (Decidable s.lruPtr.ParentsIndexed)
  | .flushTransaction _, s => inferInstanceAs (Decidable s.lruPtr.ParentsIndexed)
  | .forceFree _, _ => inferInstanceAs (Decidable (_ ∧ _))
  | .removeIndirect _, _ => inferInstanceAs (Decidable ((_ → _) ∧ _))
  | .free _, _ => .isTrue trivial
  | .fixIndirectLeaf .., _ => .isTrue trivial
  | .initTid _, _ => .isTrue trivial
  | .outside .., _ => .isTrue trivial

/-- The list is `lru`, without cycles and the same in both directions; it holds the buffers in use
and no others, in the order in which they were accessed, the last one first; and no block is in two
of them. -/
structure CacheWorld.LruList (s : CacheWorld) (lru : List Nat) : Prop where
  listed : s.lruPtr.Listed fsCacheBuffers lru
  recency : lru.Pairwise fun a b => s.used.idxOf a < s.used.idxOf b
  used : ∀ cid ∈ lru, cid ∈ s.used

/-! ## Shrinking the list -/

theorem CacheLruQ.ParentsIndexed.recycle {q : CacheLruQ} {cid : Nat} (h : q.ParentsIndexed) :
    (q.recycle cid).ParentsIndexed := by
  intro i hi
  by_cases hic : i = cid
  · rw [hic, CacheLruQ.recycle_caches_self]
    exact fun hparent => absurd rfl hparent
  · rw [CacheLruQ.recycle_view CacheBuffer.parentCid (fun _ => rfl) hic,
      CacheLruQ.recycle_view CacheBuffer.parentOffset (fun _ => rfl) hic]
    exact h i hi

/-- From `s` to `t` buffers left the list `lru` and were initialised, or nothing happened to it. -/
structure CacheWorld.Shrinks (s : CacheWorld) (lru : List Nat) (t : CacheWorld) : Prop where
  used : t.used = s.used
  indexed : s.lruPtr.ParentsIndexed → t.lruPtr.ParentsIndexed
  listed : ∃ lru', t.lruPtr.Listed fsCacheBuffers lru' ∧ lru'.Sublist lru

namespace CacheWorld
variable {s t : CacheWorld} {lru : List Nat} {cid : Nat}

theorem LruList.shrinks (h : s.LruList lru) (hshrinks : s.Shrinks lru t) :
    ∃ lru', t.LruList lru' := by
  obtain ⟨lru', hlisted, hsub⟩ := hshrinks.listed
  refine ⟨lru', hlisted, ?_, fun cid hcid => ?_⟩
  · rw [hshrinks.used]
    exact h.recency.sublist hsub
  · rw [hshrinks.used]
    exact h.used cid (hsub.subset hcid)

theorem Shrinks.of_keeps (h : s.lruPtr.Listed fsCacheBuffers lru) (hused : t.used = s.used)
    (hkeeps : s.lruPtr.KeepsParents t.lruPtr) : s.Shrinks lru t :=
  ⟨hused, hkeeps.indexed, lru, h.keeps hkeeps.toKeeps, List.Sublist.refl lru⟩

theorem Shrinks.refl (h : s.lruPtr.Listed fsCacheBuffers lru) : s.Shrinks lru s :=
  .of_keeps h rfl (.refl _)

theorem Shrinks.after_keeps {u : CacheWorld} (hused : t.used = s.used)
    (hkeeps : s.lruPtr.KeepsParents t.lruPtr) (h : t.Shrinks lru u) : s.Shrinks lru u :=
  ⟨h.used.trans hused, fun hs => h.indexed (hkeeps.indexed hs), h.listed⟩

/-- A buffer is taken out of the list. -/
theorem Shrinks.recycle {q : CacheLruQ} (h : q.Listed fsCacheBuffers lru)
    (hindexed : s.lruPtr.ParentsIndexed → q.ParentsIndexed) (hused : t.used = s.used)
    (hlru : t.lruPtr = q.recycle cid) : s.Shrinks lru t := by
  refine ⟨hused, fun hs => ?_, lru.erase cid, ?_, List.erase_sublist⟩
  · rw [hlru]
    exact (hindexed hs).recycle
  · rw [hlru]
    exact h.recycle cid

/-- What shrinks the list further has shrunk it from the beginning on. -/
theorem Shrinks.next (h : s.Shrinks lru t) : ∃ lru', t.lruPtr.Listed fsCacheBuffers lru' ∧
    ∀ u, t.Shrinks lru' u → s.Shrinks lru u := by
  obtain ⟨lru', hlisted, hsub⟩ := h.listed
  refine ⟨lru', hlisted, fun u hu => ⟨hu.used.trans h.used, fun hs => hu.indexed (h.indexed hs), ?_⟩⟩
  obtain ⟨lru'', hlisted', hsub'⟩ := hu.listed
  exact ⟨lru'', hlisted', hsub'.trans hsub⟩

end CacheWorld

/-! ## Flushing -/

section Flushing
variable {s : CacheWorld} {lru : List Nat} {cid : Nat}

/-- Where a call stops, the list is as the call has left it, and has no cycle. -/
def Stopped (s : CacheWorld) (lru : List Nat) (e : Stop) (t : CacheWorld) : Prop :=
  e ≠ .endless ∧ s.Shrinks lru t

theorem StopsBelow.stopped (h : s.lruPtr.Listed fsCacheBuffers lru) {e : Stop} {t : CacheWorld}
    (ht : StopsBelow s e t) : Stopped s lru e t := by
  obtain ⟨⟨halt, rfl⟩, ht⟩ := ht
  refine ⟨Stop.noConfusion, ?_⟩
  rw [ht]
  exact .of_keeps h rfl (.refl _)

/-- A flush takes its buffer out of the list, or fails. -/
theorem Flushes.shrinks {res : Int} {t : CacheWorld} (ht : Flushes cid s res t)
    (h : s.lruPtr.Listed fsCacheBuffers lru) (hindexed : s.lruPtr.ParentsIndexed) :
    s.Shrinks lru t ∧ (res = 0 → (t.lruPtr.caches cid).isFree = true) ∧
      ∀ i ≠ cid, (t.lruPtr.caches i).logAddr = (s.lruPtr.caches i).logAddr := by
  cases ht with
  | illegal | referenced => exact ⟨.refl h, fun hres => absurd hres (by decide), fun _ _ => rfl⟩
  | free hcid hfree => exact ⟨.refl h, fun _ => hfree, fun _ _ => rfl⟩
  | clean hcid href hdirty =>
    refine ⟨.recycle h id rfl rfl, fun _ => ?_, fun i hi => ?_⟩
    · dsimp only
      rw [CacheLruQ.recycle_caches_self, isFree_initCacheBuffer]
    · exact CacheLruQ.recycle_view CacheBuffer.logAddr (fun _ => rfl) hi
  | failed w =>
    exact ⟨.of_keeps h rfl (.refl _), fun hres => absurd hres (by decide), fun _ _ => rfl⟩
  | decZero parentCid a w hcid =>
    have hset := CacheLruQ.KeepsParents.setParentEntry a (hindexed cid hcid)
    exact ⟨.of_keeps h rfl hset, fun hres => absurd hres (by decide), fun i _ => hset.logAddr i⟩
  | written a w hcid =>
    have hfix := CacheLruQ.KeepsParents.fixParent a (hindexed cid hcid)
    refine ⟨.recycle (h.keeps hfix.toKeeps) hfix.indexed rfl rfl, fun _ => ?_, fun i hi => ?_⟩
    · dsimp only
      rw [CacheLruQ.recycle_caches_self, isFree_initCacheBuffer]
    · exact (CacheLruQ.recycle_view CacheBuffer.logAddr (fun _ => rfl) hi).trans (hfix.logAddr i)

/-- The buffer that `cache_get_free_cache_id` gives is free, and no other changes. -/
theorem Acquires.shrinks {res : Except Int Nat} {t : CacheWorld} (ht : Acquires s res t)
    (h : s.lruPtr.Listed fsCacheBuffers lru) (hindexed : s.lruPtr.ParentsIndexed) :
    s.Shrinks lru t ∧ ∀ cid, res = .ok cid → cid < fsCacheBuffers ∧
      ∀ i ≠ cid, (t.lruPtr.caches i).logAddr = (s.lruPtr.caches i).logAddr := by
  cases ht with
  | free cid hcid hfree =>
    refine ⟨.refl h, fun i hi => ?_⟩
    obtain rfl : cid = i := Except.ok.inj hi
    exact ⟨hcid, fun _ _ => rfl⟩
  | evicted cid t hcid ht =>
    obtain ⟨hshrinks, -, hother⟩ := ht.shrinks h hindexed
    refine ⟨hshrinks, fun i hi => ?_⟩
    obtain rfl : cid = i := Except.ok.inj hi
    exact ⟨hcid, hother⟩
  | failed cid res t ht hres =>
    exact ⟨(ht.shrinks h hindexed).1, fun i hi => by cases hi⟩
  | allUsed => exact ⟨.refl h, fun i hi => by cases hi⟩

/-! ## Freeing -/

theorem FreesByAddr.shrinks {t : CacheWorld} (ht : FreesByAddr s t)
    (h : s.lruPtr.Listed fsCacheBuffers lru) :
    s.Shrinks lru t := by
  rcases ht with rfl | ⟨cid, -, -, rfl⟩
  · exact .refl h
  · exact .recycle h id rfl rfl

theorem MarksLeaf.shrinks {t : CacheWorld} (ht : MarksLeaf s t)
    (h : s.lruPtr.Listed fsCacheBuffers lru) : s.Shrinks lru t :=
  .of_keeps h ht.1 ht.keepsParents

theorem CacheWorld.Shrinks.forceFree (h : s.lruPtr.Listed fsCacheBuffers lru)
    (hoffset : (s.lruPtr.caches cid).parentCid ≠ none →
      (s.lruPtr.caches cid).parentOffset ≠ none) {t : CacheWorld} (hused : t.used = s.used)
    (hlru : t.lruPtr = s.lruPtr.forceFree cid lru) : s.Shrinks lru t := by
  have hset : s.lruPtr.KeepsParents
      (s.lruPtr.setParentEntry cid (s.lruPtr.caches cid).logAddr) := .setParentEntry _ hoffset
  refine ⟨hused, fun hs i => ?_, lru.erase cid, ?_, List.erase_sublist⟩
  · rw [hlru]
    unfold CacheLruQ.forceFree CacheLruQ.forgetParent
    dsimp only
    split
    · exact fun _ hparent => absurd rfl hparent
    · exact (hset.indexed hs).recycle i
  · rw [hlru]
    exact ((h.keeps hset.toKeeps).recycle cid).keeps (CacheLruQ.keeps_forgetParent _ _ _)

theorem RemovesIndirect.shrinks {indirectAddr : LogAddr} {t : CacheWorld}
    (ht : RemovesIndirect indirectAddr lru s t) (h : s.lruPtr.Listed fsCacheBuffers lru)
    (hindexed : s.lruPtr.ParentsIndexed) : s.Shrinks lru t := by
  rcases ht with rfl | ⟨cid, u, -, hcid, hu, hused, hlru⟩
  · exact .refl h
  · have hkeeps := hu.keepsParents
    refine .after_keeps hu.1 hkeeps (.forceFree (h.keeps hkeeps.toKeeps) ?_ hused hlru)
    exact hkeeps.indexed hindexed cid hcid

theorem foldl_initTid (tid : Int) (cids : List Nat) :
    ∀ {q : CacheLruQ} {lru : List Nat}, q.Listed fsCacheBuffers lru →
      ∃ lru', (cids.foldl (CacheLruQ.initTid tid) q).Listed fsCacheBuffers lru' ∧
        lru'.Sublist lru ∧
        (q.ParentsIndexed → (cids.foldl (CacheLruQ.initTid tid) q).ParentsIndexed) := by
  induction cids with
  | nil => exact fun h => ⟨_, h, List.Sublist.refl _, id⟩
  | cons cid cids ih =>
    intro q lru h
    rw [List.foldl_cons, CacheLruQ.initTid_eq]
    split
    · obtain ⟨lru', hlisted, hsub, hindexed⟩ := ih (h.recycle cid)
      exact ⟨lru', hlisted, hsub.trans List.erase_sublist, fun hq => hindexed hq.recycle⟩
    · exact ih h

/-! ## Flushing a transaction -/

/-- The buffers are flushed one after the other, and each flush shrinks the list. -/
theorem wp_flushPass (tid : Int) (j : Nat) (cids : List Nat) :
    ∀ {s : CacheWorld} {lru : List Nat}, s.lruPtr.Listed fsCacheBuffers lru →
      s.lruPtr.ParentsIndexed →
      wp (flushPass tid j cids) (fun _ t => s.Shrinks lru t) (Stopped s lru) s := by
  induction cids with
  | nil => exact fun h _ => .refl h
  | cons cid cids ih =>
    intro s lru h hindexed
    unfold flushPass
    rw [wp_bind, wp_getLruQ]
    refine wp_ite (fun _ => ih h hindexed) fun _ => ?_
    refine wp_ite (fun _ => ih h hindexed) fun _ => ?_
    refine wp_seq (wp_mono wp_cacheFlushCache (fun _ _ ht => (ht.shrinks h hindexed).1)
      fun _ _ => StopsBelow.stopped h) fun res t ht => ?_
    refine wp_ite (fun _ => ?_) fun _ => ?_
    · obtain ⟨lru', hlisted, hnext⟩ := ht.next
      exact wp_mono (ih hlisted (ht.indexed hindexed)) (fun _ u hu => hnext u hu)
        fun e u hu => ⟨hu.1, hnext u hu.2⟩
    · exact wp_ite (fun _ => ⟨Stop.noConfusion, ht⟩) fun _ => ht

theorem wp_flushPasses (tid : Int) (js : List Nat) :
    ∀ {s : CacheWorld} {lru : List Nat}, s.lruPtr.Listed fsCacheBuffers lru →
      s.lruPtr.ParentsIndexed →
      wp (flushPasses tid js) (fun _ t => s.Shrinks lru t) (Stopped s lru) s := by
  induction js with
  | nil => exact fun h _ => .refl h
  | cons j js ih =>
    intro s lru h hindexed
    unfold flushPasses
    refine wp_seq (wp_flushPass tid j _ h hindexed) fun res t ht => ?_
    refine wp_ite (fun _ => ?_) fun _ => ht
    obtain ⟨lru', hlisted, hnext⟩ := ht.next
    exact wp_mono (ih hlisted (ht.indexed hindexed)) (fun _ u hu => hnext u hu)
      fun e u hu => ⟨hu.1, hnext u hu.2⟩

end Flushing

/-! ## Every run -/

section Steps
variable {s : CacheWorld} {lru : List Nat} {cid : Nat}

theorem CacheWorld.LruList.keeps {t : CacheWorld} (h : s.LruList lru) (hused : t.used = s.used)
    (hkeeps : s.lruPtr.Keeps t.lruPtr) : t.LruList lru :=
  ⟨h.listed.keeps hkeeps, hused ▸ h.recency, hused ▸ h.used⟩

/-- A buffer that is accessed comes first. -/
theorem CacheWorld.LruList.use (h : s.LruList lru) {q : CacheLruQ}
    (hlisted : q.Listed fsCacheBuffers (cid :: lru.erase cid)) :
    ({ s with lruPtr := q, used := cid :: s.used } : CacheWorld).LruList (cid :: lru.erase cid) := by
  refine ⟨hlisted, List.pairwise_cons.mpr ⟨fun i hi => ?_, ?_⟩, fun i hi => ?_⟩
  · have hne : i ≠ cid := fun he =>
      (List.nodup_cons.mp hlisted.lists.nodup).1 (he ▸ hi)
    simp [Ne.symm hne]
  · refine (h.recency.sublist List.erase_sublist).imp_of_mem fun {a b} ha hb hab => ?_
    have hne : ∀ i ∈ lru.erase cid, i ≠ cid := fun i hi he =>
      (List.nodup_cons.mp hlisted.lists.nodup).1 (he ▸ hi)
    simp [Ne.symm (hne a ha), Ne.symm (hne b hb), hab]
  · rcases List.mem_cons.mp hi with rfl | hi
    · exact List.mem_cons_self
    · exact List.mem_cons_of_mem cid (h.used i (List.mem_of_mem_erase hi))

theorem setOldAddr_cached {q : CacheLruQ} {oldAddr : LogAddr}
    (hcached : isCachedAddr oldAddr = true) : q.setOldAddr cid oldAddr = q := by
  unfold CacheLruQ.setOldAddr
  rw [if_pos hcached]

theorem setOldAddr_logAddr {q : CacheLruQ} {oldAddr : LogAddr}
    (hcached : isCachedAddr oldAddr = false) :
    ((q.setOldAddr cid oldAddr).caches cid).logAddr = oldAddr := by
  unfold CacheLruQ.setOldAddr
  rw [if_neg (Bool.eq_false_iff.mp hcached), CacheLruQ.modify_caches_self]

theorem isFree_of_logAddr {c : CacheBuffer} (hne : c.logAddr ≠ LogAddr.empty) :
    c.isFree = false := by
  unfold CacheBuffer.isFree
  rw [Bool.and_eq_false_iff]
  exact .inr (Bool.eq_false_iff.mpr fun hempty => hne (isAddrEmpty_eq_true.mp hempty))

/-- An access that keeps to the buffers keeps the list. -/
theorem Accesses.lruList {buf : Block} {oldAddr : LogAddr} {parentOffset : Option Nat} {tid : Int}
    {dataType : DataType} {isWrite : Bool} {t : CacheWorld}
    (ht : Accesses buf oldAddr parentOffset tid dataType isWrite s t) (h : s.LruList lru)
    (hkeeps : (CacheCall.access buf oldAddr parentOffset tid dataType isWrite).KeepsToBuffers s) :
    ∃ lru, t.LruList lru := by
  obtain ⟨hkeeps, hindexed⟩ := hkeeps
  have hacquired : ∀ {res u}, Acquires s res u → ∃ lru, u.LruList lru :=
    fun hu => h.shrinks (hu.shrinks h.listed hindexed).1
  -- no other buffer has the address that is new
  have hnew : ∀ {cid u}, isCachedAddr oldAddr = false → (∀ i, ¬s.lruPtr.Holds i oldAddr) →
      Acquires s (.ok cid) u → oldAddr ≠ LogAddr.empty → ∀ i < fsCacheBuffers, i ≠ cid →
        (u.lruPtr.caches i).logAddr ≠ oldAddr := by
    intro cid u hcached hnew hu hne i hi hic
    rw [((hu.shrinks h.listed hindexed).2 cid rfl).2 i hic]
    refine fun hsame => hnew i (.inr ⟨hcached, Bool.eq_false_iff.mpr fun hempty => ?_, hi, hsame⟩)
    rw [if_neg (Bool.eq_false_iff.mp hcached), if_pos hempty] at hkeeps
    exact hne hkeeps.1
  cases ht with
  | refused res t hu => exact hacquired hu
  | unread cid t w hu =>
    obtain ⟨lru', ht⟩ := hacquired hu
    exact ⟨lru', ht.keeps rfl (.refl _)⟩
  | write cid t hcached hnone hwrite hu =>
    obtain ⟨lru', ht⟩ := hacquired hu
    have hcid := ((hu.shrinks h.listed hindexed).2 cid rfl).1
    refine ⟨_, ht.use (ht.listed.accessClean hcid buf parentOffset tid dataType (.inl hwrite) ?_)⟩
    rw [setOldAddr_logAddr hcached]
    exact hnew hcached hnone hu
  | read cid t block w hcached hnone hread hu =>
    obtain ⟨lru', ht⟩ := hacquired hu
    have hcid := ((hu.shrinks h.listed hindexed).2 cid rfl).1
    have hbuf : t.lruPtr.Keeps (t.lruPtr.modify cid fun c => { c with buf := block }) :=
      .modify fun _ => rfl
    have ht' : ({ t with
        world := w
        lruPtr := t.lruPtr.modify cid fun c => { c with buf := block } } : CacheWorld).LruList lru' :=
      ht.keeps rfl hbuf
    have hne : oldAddr ≠ LogAddr.empty := by
      intro he
      rw [if_neg (Bool.eq_false_iff.mp hcached), if_pos (by rw [he]; rfl), hread] at hkeeps
      exact absurd hkeeps.2 (by decide)
    refine ⟨_, ht'.use (ht'.listed.accessClean hcid buf parentOffset tid dataType (.inr ?_) ?_)⟩
    · refine isFree_of_logAddr ?_
      rw [setOldAddr_logAddr hcached]
      exact hne
    · rw [setOldAddr_logAddr hcached]
      intro _ i hi hic
      rw [CacheLruQ.modify_caches_of_ne hic]
      exact hnew hcached hnone hu hne i hi hic
  | dirty cid hholds hdirty =>
    have hcid : cid < fsCacheBuffers := by
      rcases hholds with ⟨hcached, rfl⟩ | ⟨-, -, hcid, -⟩
      · rw [if_pos hcached] at hkeeps
        exact hkeeps.1
      · exact hcid
    exact ⟨_, h.use (h.listed.accessDirty hcid hdirty buf tid dataType isWrite)⟩
  | clean cid hholds hdirty =>
    have hcid : cid < fsCacheBuffers := by
      rcases hholds with ⟨hcached, rfl⟩ | ⟨-, -, hcid, -⟩
      · rw [if_pos hcached] at hkeeps
        exact hkeeps.1
      · exact hcid
    have hsame : ((s.lruPtr.setOldAddr cid oldAddr).caches cid).logAddr =
        (s.lruPtr.caches cid).logAddr := by
      rcases hholds with ⟨hcached, -⟩ | ⟨hcached, -, -, haddr⟩
      · rw [setOldAddr_cached hcached]
      · rw [setOldAddr_logAddr hcached, haddr]
    refine ⟨_, h.use (h.listed.accessClean hcid buf parentOffset tid dataType ?_ ?_)⟩
    · rcases hholds with ⟨hcached, rfl⟩ | ⟨-, hempty, -, haddr⟩
      · rw [if_pos hcached] at hkeeps
        rw [setOldAddr_cached hcached]
        exact hkeeps.2
      · refine .inr (isFree_of_logAddr ?_)
        rw [hsame, haddr]
        exact ne_empty_of_isAddressEmpty hempty
    · rw [hsame]
      exact fun hne i hi hic hi' => hic (h.listed.addr_inj i hi cid hcid hi' (hi' ▸ hne))

theorem StopsBelow.lruList {e : Stop} {t : CacheWorld} (ht : StopsBelow s e t)
    (h : s.LruList lru) : e ≠ .endless ∧ ∃ lru, t.LruList lru := by
  obtain ⟨he, hshrinks⟩ := ht.stopped h.listed
  exact ⟨he, h.shrinks hshrinks⟩

/-- Every call that keeps to the buffers keeps the list. -/
theorem CacheCall.wp_exec (call : CacheCall) (h : s.LruList lru) (hkeeps : call.KeepsToBuffers s) :
    wp (exec call) (fun _ t => ∃ lru, t.LruList lru)
      (fun e t => e ≠ .endless ∧ ∃ lru, t.LruList lru) s := by
  have hshrinks : ∀ {α : Type} {m : CacheM α}, wp m (fun _ t => s.Shrinks lru t) (Stopped s lru) s →
      wp m (fun _ t => ∃ lru, t.LruList lru) (fun e t => e ≠ .endless ∧ ∃ lru, t.LruList lru) s :=
    fun hm => wp_mono hm (fun _ _ ht => h.shrinks ht) fun _ _ ht => ⟨ht.1, h.shrinks ht.2⟩
  cases call with
  | access buf oldAddr parentOffset tid dataType isWrite =>
    refine (wp_map _ _).mpr (wp_mono (wp_cacheAccessCache h.listed)
      (fun _ _ ht => ht.lruList h hkeeps) fun e t ht => ?_)
    obtain ⟨u, rfl | ⟨cid, hu⟩, hstops⟩ := ht
    · exact hstops.lruList h
    · obtain ⟨lru', hlru'⟩ := h.shrinks (hu.shrinks h.listed hkeeps.2).1
      exact hstops.lruList hlru'
  | flush cid =>
    refine (wp_map _ _).mpr (hshrinks (wp_mono wp_cacheFlushCache
      (fun _ _ ht => (ht.shrinks h.listed hkeeps).1) fun _ _ => StopsBelow.stopped h.listed))
  | flushTransaction tid =>
    exact (wp_map _ _).mpr (hshrinks (wp_flushPasses tid _ h.listed hkeeps))
  | free logAddr =>
    exact (wp_map _ _).mpr (hshrinks (wp_mono (wp_cacheFreeByAddr h.listed logAddr)
      (fun _ _ ht => ht.shrinks h.listed) fun _ _ he => he))
  | forceFree cid =>
    refine (wp_map _ _).mpr (hshrinks (wp_mono
      (wp_cacheForceFreeCache h.listed (hkeeps.2 cid hkeeps.1)) (fun _ t ht => ?_) fun _ _ he => he))
    refine .forceFree h.listed (hkeeps.2 cid hkeeps.1) ?_ ?_
    · rw [ht.2]
    · rw [ht.2]
  | removeIndirect indirectAddr =>
    exact (wp_map _ _).mpr (hshrinks (wp_mono
      (wp_cacheRemoveIndirectBlock h.listed hkeeps.2 hkeeps.1)
      (fun _ _ ht => ht.shrinks h.listed hkeeps.2) fun _ _ he => he))
  | fixIndirectLeaf indirectOffset doubleLogAddr tid flag =>
    exact hshrinks (wp_mono
      (wp_cacheFixIndirectLeafIndicator h.listed indirectOffset doubleLogAddr tid flag)
      (fun _ _ ht => ht.shrinks h.listed) fun _ _ he => he)
  | initTid tid =>
    obtain ⟨lru', hlisted, hsub, hindexed⟩ := foldl_initTid tid (List.range fsCacheBuffers) h.listed
    exact hshrinks ⟨rfl, hindexed, lru', hlisted, hsub⟩
  | outside world transactions isVoted =>
    exact ⟨lru, h.keeps rfl ⟨rfl, rfl, rfl, fun _ => rfl⟩⟩

end Steps

/-- The cache as `cache_init_lru_q` leaves it: nothing was accessed. -/
def CacheWorld.Starts (s : CacheWorld) : Prop := s.lruPtr = initLruQ ∧ s.used = []

theorem CacheWorld.Starts.lruList {s : CacheWorld} (h : s.Starts) : s.LruList [] := by
  refine ⟨?_, List.Pairwise.nil, fun _ hi => absurd hi List.not_mem_nil⟩
  rw [h.1]
  exact .init _

/-- The list of the buffers in use is in order: both of its ends are at hand, and nothing goes round
in it. -/
def CacheWorld.WellFormed (s : CacheWorld) : Prop :=
  ∃ lru, s.LruList lru ∧ s.lruPtr.mruCid = lru.head? ∧ s.lruPtr.lruCid = lru.getLast?

/-- In every run that keeps to the buffers, of any length and with any number of buffers, the list
is well formed after each call, also where a call stops. -/
theorem lru_wellFormed (calls : List CacheCall) (s : CacheWorld) (hs : s.Starts)
    (hcalls : Meets CacheCall.exec CacheCall.KeepsToBuffers calls s) :
    Always CacheCall.exec (fun _ _ t => t.WellFormed) calls s := by
  have hends : ∀ {t : CacheWorld}, (∃ lru, t.LruList lru) → t.WellFormed :=
    fun ⟨lru, ht⟩ => ⟨lru, ht, ht.listed.lists.mruCid, ht.listed.lists.lruCid⟩
  refine always_of_meets (I := fun t => ∃ lru, t.LruList lru) (fun call t ht hcall => ?_) calls s
    ⟨[], hs.lruList⟩ hcalls
  obtain ⟨lru, ht⟩ := ht
  exact wp_mono (call.wp_exec ht hcall) (fun _ u hu => ⟨hends hu, hu⟩) fun _ _ hu => hends hu.2

end Runs

/-! ## A buffer that was freed -/

section SmallPage

@[reducible] def smallCache : CacheConfig where
  toFsConfig := smallPageFs
  fsCacheBuffers := 4
  cpData _ _ := 0
  cpBytes := 4

attribute [local instance] smallCache

/-- A transaction that is not open. -/
def noTransaction : Transaction where
  tType := .empty
  inoNum := -1
  prevLogAddr := LogAddr.empty
  inoLogAddr := LogAddr.empty
  fileOffset := -1
  indirectBuf := initBuf.main
  isVoted := false

/-- Nothing was accessed, over a chip that was erased. -/
def emptyCache : CacheWorld where
  world := erasedWorld fun _ => false
  lruPtr := initLruQ
  transactions _ := noTransaction
  flushed := []
  used := []

/-- Two new blocks are written, and one of them is read again and freed. -/
def keepsTwoBlocks : List CacheCall :=
  [.access initBuf.main LogAddr.empty none 0 .regular true,
    .access initBuf.main LogAddr.empty none 0 .regular true,
    .access initBuf.main (cachedAddr 0) none 0 .regular false, .forceFree 1]

theorem lru_wellFormed_keepsTwoBlocks :
    Always CacheCall.exec (fun _ _ t => t.WellFormed) keepsTwoBlocks emptyCache :=
  lru_wellFormed keepsTwoBlocks emptyCache ⟨rfl, rfl⟩
    (@of_decide_eq_true _ (decidableMeets inferInstance _ _) (by decide +kernel))

/-- A block is written, its buffer is freed, and the block is read again. -/
def readsForcedOut : List CacheCall :=
  [.access initBuf.main LogAddr.empty none 0 .regular true, .forceFree 0,
    .access initBuf.main (cachedAddr 0) none 0 .regular false]

/-- Then the list holds a buffer that is free. -/
theorem not_lru_wellFormed : emptyCache.Starts ∧
    ¬Always CacheCall.exec (fun _ _ t => t.WellFormed) readsForcedOut emptyCache := by
  refine ⟨⟨rfl, rfl⟩, fun h => ?_⟩
  have hrun : (runAll CacheCall.exec readsForcedOut emptyCache).map (fun t =>
      (t.lruPtr.mruCid, (t.lruPtr.caches 0).isFree)) = some (some 0, true) := by decide +kernel
  obtain ⟨t, ht, hends⟩ := Option.map_eq_some_iff.mp hrun
  obtain ⟨hmru, hfree⟩ := Prod.mk.inj hends
  have hstart : emptyCache.WellFormed :=
    ⟨[], CacheWorld.Starts.lruList ⟨rfl, rfl⟩, rfl, rfl⟩
  obtain ⟨lru, hlru, hhead, -⟩ := h.last (J := CacheWorld.WellFormed) (fun _ _ _ hu => hu) hstart ht
  rw [hmru] at hhead
  have hmem : 0 ∈ lru := List.mem_of_head? hhead.symm
  have hused := ((hlru.listed.mem_iff 0).mp hmem).2
  exact absurd (hfree.symm.trans hused) (by decide)

end SmallPage

end NandFs
