import NandFs.CacheRuns
import NandFs.Parents

/-! # What the cache counts

The number of dirty buffers is always right.  A buffer counts the dirty buffers whose parent it is,
as long as each block that is written names its own children, and no child is forced out before its
parent.
-/
namespace NandFs

open Program CacheConfig

section Counts
variable [CacheConfig]

/-- What of a buffer is counted. -/
def CacheBuffer.counting (c : CacheBuffer) : Bool × Option Nat × Int :=
  (c.isDirty, c.parentCid, c.refCount)

namespace CacheLruQ

def dirty (q : CacheLruQ) : Finset Nat :=
  (Finset.range fsCacheBuffers).filter fun i => (q.caches i).isDirty = true

def parent (q : CacheLruQ) (i : Nat) : Option Nat := (q.caches i).parentCid

def refCount (q : CacheLruQ) (i : Nat) : Int := (q.caches i).refCount

theorem mem_dirty {q : CacheLruQ} {i : Nat} :
    i ∈ q.dirty ↔ i < fsCacheBuffers ∧ (q.caches i).isDirty = true := by
  unfold dirty
  rw [Finset.mem_filter, Finset.mem_range]

/-- The dirty buffers are counted, and the children of each buffer. -/
structure Counted (q : CacheLruQ) : Prop where
  dirtyCount : q.dirtyCount = q.dirty.card
  refs : Parents.Counted (Finset.range fsCacheBuffers) q.dirty q.parent q.refCount

/-- From `q` to `q'` nothing changes that is counted. -/
structure KeepsCounts (q q' : CacheLruQ) : Prop where
  dirtyCount : q'.dirtyCount = q.dirtyCount
  counting : ∀ i, (q'.caches i).counting = (q.caches i).counting

namespace KeepsCounts
variable {q q' q'' : CacheLruQ} {cid : Nat}

theorem refl (q : CacheLruQ) : q.KeepsCounts q := ⟨rfl, fun _ => rfl⟩

theorem trans (h : q.KeepsCounts q') (h' : q'.KeepsCounts q'') : q.KeepsCounts q'' :=
  ⟨h'.dirtyCount.trans h.dirtyCount, fun i => (h'.counting i).trans (h.counting i)⟩

theorem modify {f : CacheBuffer → CacheBuffer} (hf : ∀ c, (f c).counting = c.counting) :
    q.KeepsCounts (q.modify cid f) :=
  ⟨rfl, fun _ => modify_view CacheBuffer.counting hf⟩

theorem isDirty (h : q.KeepsCounts q') (i : Nat) :
    (q'.caches i).isDirty = (q.caches i).isDirty := congrArg (fun p => p.1) (h.counting i)

theorem parent (h : q.KeepsCounts q') (i : Nat) : q'.parent i = q.parent i :=
  congrArg (fun p => p.2.1) (h.counting i)

theorem refCount (h : q.KeepsCounts q') (i : Nat) : q'.refCount i = q.refCount i :=
  congrArg (fun p => p.2.2) (h.counting i)

theorem dirty (h : q.KeepsCounts q') : q'.dirty = q.dirty := by
  unfold CacheLruQ.dirty
  refine Finset.filter_congr fun i _ => ?_
  rw [h.isDirty]

theorem setParentEntry (a : LogAddr) : q.KeepsCounts (q.setParentEntry cid a) := by
  refine ⟨?_, fun i => setParentEntry_view CacheBuffer.counting
    (CacheBuffer.setEntry_view _ (fun _ _ => rfl) fun _ _ => rfl)⟩
  unfold CacheLruQ.setParentEntry
  split <;> rfl

theorem toMru : q.KeepsCounts ((q.removeFromLru cid).insertToLru cid) := by
  refine ⟨?_, fun i => CacheBuffer.unlinked_view toMru_unlinked CacheBuffer.counting fun _ => rfl⟩
  rw [insertToLru_dirtyCount, removeFromLru_dirtyCount]

theorem setOldAddr (a : LogAddr) : q.KeepsCounts (q.setOldAddr cid a) := by
  unfold CacheLruQ.setOldAddr
  split
  · exact refl q
  · exact modify fun _ => rfl

end KeepsCounts

namespace Counted
variable {q q' : CacheLruQ} {cid : Nat}

theorem init : (initLruQ : CacheLruQ).Counted := by
  have hdirty : (initLruQ : CacheLruQ).dirty = ∅ := by
    refine Finset.eq_empty_of_forall_notMem fun i hi => ?_
    exact absurd (mem_dirty.mp hi).2 Bool.false_ne_true
  refine ⟨?_, ?_, fun b _ => ?_, fun i _ b hb => absurd hb (Option.some_ne_none b).symm⟩
  · rw [hdirty]
    rfl
  · rw [hdirty]
    exact Finset.empty_subset _
  · rw [hdirty]
    rfl

theorem keeps (h : q.Counted) (hkeeps : q.KeepsCounts q') : q'.Counted := by
  refine ⟨?_, h.refs.congr hkeeps.dirty (fun i _ => hkeeps.parent i) fun b _ => hkeeps.refCount b⟩
  rw [hkeeps.dirtyCount, hkeeps.dirty]
  exact h.dirtyCount

/-- A buffer that is initialised is not dirty. -/
theorem dirty_leave (hself : q'.caches cid = initCacheBuffer)
    (hdirty : ∀ i, i ≠ cid → (q'.caches i).isDirty = (q.caches i).isDirty) :
    q'.dirty = q.dirty.erase cid := by
  ext i
  rw [mem_dirty, Finset.mem_erase, mem_dirty]
  by_cases hi : i = cid
  · rw [hi, hself]
    simp [initCacheBuffer]
  · rw [hdirty i hi]
    tauto

theorem dirtyCount_leave (h : q.dirtyCount = q.dirty.card) (hcid : cid < fsCacheBuffers)
    (hself : q'.caches cid = initCacheBuffer)
    (hdirty : ∀ i, i ≠ cid → (q'.caches i).isDirty = (q.caches i).isDirty)
    (hnum : q'.dirtyCount =
      if (q.caches cid).isDirty = true then q.dirtyCount - 1 else q.dirtyCount) :
    q'.dirtyCount = q'.dirty.card := by
  rw [hnum, dirty_leave hself hdirty, h]
  by_cases hmem : (q.caches cid).isDirty = true
  · have hmem' := mem_dirty.mpr ⟨hcid, hmem⟩
    have hpos := Finset.card_pos.mpr ⟨cid, hmem'⟩
    rw [if_pos hmem, Finset.card_erase_of_mem hmem']
    omega
  · rw [if_neg hmem, Finset.erase_eq_of_notMem fun hmem' => hmem (mem_dirty.mp hmem').2]

/-- A buffer is initialised, and those whose parent it was have none any more. -/
theorem leave (h : q.Counted) (hcid : cid < fsCacheBuffers)
    (hself : q'.caches cid = initCacheBuffer)
    (hdirty : ∀ i, i ≠ cid → (q'.caches i).isDirty = (q.caches i).isDirty)
    (hparent : ∀ i < fsCacheBuffers, i ≠ cid →
      q'.parent i = if q.parent i = some cid then none else q.parent i)
    (hcount : ∀ b, b ≠ cid →
      q'.refCount b = if q.parent cid = some b then q.refCount b - 1 else q.refCount b)
    (hnum : q'.dirtyCount =
      if (q.caches cid).isDirty = true then q.dirtyCount - 1 else q.dirtyCount) : q'.Counted := by
  refine ⟨dirtyCount_leave h.dirtyCount hcid hself hdirty hnum,
    h.refs.leave (Finset.mem_range.mpr hcid) (dirty_leave hself hdirty) (fun i hi => ?_)
      (fun b _ hb => hcount b hb) ?_⟩
  · by_cases hic : i = cid
    · unfold parent
      rw [if_pos (.inl hic), hic, hself]
      rfl
    · rw [hparent i (Finset.mem_range.mp hi) hic]
      simp [hic]
  · unfold refCount
    rw [hself]
    rfl

/-- A buffer that waits for no other is initialised, once what counts it counts one less. -/
theorem recycle (h : q.Counted) (hcid : cid < fsCacheBuffers) (href : q.refCount cid ≤ 0)
    (hnum : q'.dirtyCount = q.dirtyCount)
    (hdirty : ∀ i, (q'.caches i).isDirty = (q.caches i).isDirty)
    (hparent : ∀ i, q'.parent i = q.parent i)
    (hcount : ∀ b, b ≠ cid →
      q'.refCount b = if q.parent cid = some b then q.refCount b - 1 else q.refCount b) :
    (q'.recycle cid).Counted := by
  refine h.leave hcid recycle_caches_self (fun i hi => ?_) (fun i hi hic => ?_) (fun b hb => ?_) ?_
  · rw [recycle_view CacheBuffer.isDirty (fun _ => rfl) hi, hdirty]
  · have hne := h.refs.parent_ne (Finset.mem_range.mpr hcid) href (Finset.mem_range.mpr hi)
    rw [if_neg hne, ← hparent]
    exact recycle_view CacheBuffer.parentCid (fun _ => rfl) hic
  · rw [← hcount b hb]
    exact recycle_view CacheBuffer.refCount (fun _ => rfl) hb
  · rw [recycle_dirtyCount, hdirty, hnum]

end Counted

section FixParent
variable {q : CacheLruQ} {cid i : Nat} {a : LogAddr}

theorem fixParent_dirtyCount : (q.fixParent cid a).dirtyCount = q.dirtyCount := by
  unfold fixParent
  split
  · exact (KeepsCounts.setParentEntry a).dirtyCount
  · rfl

theorem fixParent_isDirty : ((q.fixParent cid a).caches i).isDirty = (q.caches i).isDirty :=
  fixParent_view CacheBuffer.isDirty (CacheBuffer.setEntry_view _ (fun _ _ => rfl) fun _ _ => rfl)
    fun _ _ => rfl

theorem fixParent_parent : (q.fixParent cid a).parent i = q.parent i :=
  fixParent_view CacheBuffer.parentCid (CacheBuffer.setEntry_view _ (fun _ _ => rfl) fun _ _ => rfl)
    fun _ _ => rfl

theorem fixParent_refCount : (q.fixParent cid a).refCount i =
    if q.parent cid = some i then q.refCount i - 1 else q.refCount i := by
  have hset : (q.setParentEntry cid a).refCount i = q.refCount i :=
    (KeepsCounts.setParentEntry a).refCount i
  unfold fixParent parent
  cases hparent : (q.caches cid).parentCid with
  | none => rfl
  | some parentCid =>
    unfold refCount at *
    dsimp only
    rw [modify_caches]
    by_cases hi : i = parentCid
    · rw [if_pos hi, if_pos (congrArg some hi.symm), ← hset]
    · rw [if_neg hi, if_neg fun he => hi (Option.some.inj he).symm, ← hset]

end FixParent

end CacheLruQ

/-! ## Flushing and freeing -/

section Calls
variable {s t : CacheWorld} {lru : List Nat} {cid : Nat}

open CacheLruQ

theorem Flushes.counted {res : Int} (ht : Flushes cid s res t) (h : s.lruPtr.Counted) :
    t.lruPtr.Counted := by
  cases ht with
  | illegal | referenced | free | failed => exact h
  | decZero parentCid a => exact h.keeps (.setParentEntry a)
  | clean hcid href hdirty =>
    refine h.recycle hcid href rfl (fun _ => rfl) (fun _ => rfl) fun b _ => ?_
    have hnot : cid ∉ s.lruPtr.dirty := fun hmem =>
      absurd ((mem_dirty.mp hmem).2.symm.trans hdirty) (by decide)
    rw [h.refs.parent_eq_none (Finset.mem_range.mpr hcid) hnot, if_neg (Option.some_ne_none b).symm]
  | written a w hcid href =>
    exact h.recycle hcid href fixParent_dirtyCount (fun _ => fixParent_isDirty)
      (fun _ => fixParent_parent) fun b _ => fixParent_refCount

theorem FreesByAddr.counted (ht : FreesByAddr s t) (h : s.lruPtr.Counted) : t.lruPtr.Counted := by
  rcases ht with rfl | ⟨cid, hcid, hdirty, rfl⟩
  · exact h
  · have hnot : cid ∉ s.lruPtr.dirty := fun hmem =>
      absurd ((mem_dirty.mp hmem).2.symm.trans hdirty) (by decide)
    have hslot := Finset.mem_range.mpr hcid
    refine h.leave hcid recycle_caches_self (fun i hi => ?_) (fun i hi hic => ?_) (fun b hb => ?_) ?_
    · exact recycle_view CacheBuffer.isDirty (fun _ => rfl) hi
    · rw [if_neg (h.refs.parent_ne_of_notMem hnot (Finset.mem_range.mpr hi))]
      exact recycle_view CacheBuffer.parentCid (fun _ => rfl) hic
    · rw [h.refs.parent_eq_none hslot hnot, if_neg (Option.some_ne_none b).symm]
      exact recycle_view CacheBuffer.refCount (fun _ => rfl) hb
    · exact recycle_dirtyCount

theorem MarksLeaf.counted (ht : MarksLeaf s t) (h : s.lruPtr.Counted) : t.lruPtr.Counted := by
  rcases ht.2 with hlru | ⟨parentCid, flag, hlru⟩
  · rw [hlru]
    exact h
  · rw [hlru]
    refine h.keeps (.modify ?_)
    exact fun _ => rfl

/-- A buffer is forced out that no other waits for. -/
theorem CacheLruQ.Counted.forceFree {q : CacheLruQ} (h : q.Counted)
    (hlisted : q.Listed fsCacheBuffers lru) (hcid : cid < fsCacheBuffers)
    (hparent : ∀ p, q.parent cid = some p → p = cid) : (q.forceFree cid lru).Counted := by
  have hset : q.KeepsCounts (q.setParentEntry cid (q.caches cid).logAddr) := .setParentEntry _
  have hforget : ∀ {τ : Type} (view : CacheBuffer → τ),
      (∀ c : CacheBuffer, view { c with parentCid := none } = view c) → ∀ i,
      view ((q.forceFree cid lru).caches i) =
        view (((q.setParentEntry cid (q.caches cid).logAddr).recycle cid).caches i) := by
    intro τ view hview i
    unfold CacheLruQ.forceFree forgetParent
    dsimp only
    split
    · exact hview _
    · rfl
  refine h.leave hcid ?_ (fun i hi => ?_) (fun i hi hic => ?_) (fun b hb => ?_) ?_
  · unfold CacheLruQ.forceFree forgetParent
    dsimp only
    rw [if_neg fun hmem => hlisted.lists.nodup.not_mem_erase hmem.1, recycle_caches_self]
  · rw [hforget CacheBuffer.isDirty (fun _ => rfl),
      recycle_view CacheBuffer.isDirty (fun _ => rfl) hi, hset.isDirty]
  · have hrecycled : (((q.setParentEntry cid (q.caches cid).logAddr).recycle cid).caches i).parentCid
        = q.parent i :=
      (recycle_view CacheBuffer.parentCid (fun _ => rfl) hic).trans (hset.parent i)
    unfold CacheLruQ.forceFree forgetParent parent
    dsimp only
    rw [hrecycled]
    by_cases hchild : q.parent i = some cid
    · -- a child is dirty, so it is in the list
      have hdirty := (mem_dirty.mp (h.refs.alive_of_parent i (Finset.mem_range.mpr hi) cid hchild).1).2
      have hmem : i ∈ lru := by
        refine (hlisted.mem_iff i).mpr ⟨hi, ?_⟩
        unfold CacheBuffer.isFree
        rw [hdirty]
        rfl
      rw [if_pos ⟨(List.mem_erase_of_ne hic).mpr hmem, hchild⟩]
      exact (if_pos hchild).symm
    · rw [if_neg fun hmem => hchild hmem.2, hrecycled]
      exact (if_neg hchild).symm
  · rw [if_neg fun he => hb (hparent b he)]
    exact (hforget CacheBuffer.refCount (fun _ => rfl) b).trans
      ((recycle_view CacheBuffer.refCount (fun _ => rfl) hb).trans (hset.refCount b))
  · have hnum : ((q.setParentEntry cid (q.caches cid).logAddr).recycle cid).dirtyCount = _ :=
      recycle_dirtyCount
    rw [hset.isDirty, hset.dirtyCount] at hnum
    exact hnum

/-- `cache_init_tid_related` initialises the buffers of the transaction. -/
theorem foldl_initTid_unlinked (tid : Int) (cids : List Nat) (hnodup : cids.Nodup) (q : CacheLruQ)
    (i : Nat) : ((cids.foldl (initTid tid) q).caches i).unlinked =
      if i ∈ cids ∧ (q.caches i).tid = tid then initCacheBuffer else (q.caches i).unlinked := by
  induction cids generalizing q with
  | nil => simp
  | cons cid cids ih =>
    obtain ⟨hcid, hnodup⟩ := List.nodup_cons.mp hnodup
    rw [List.foldl_cons, ih hnodup, initTid_eq]
    by_cases hi : i = cid
    · subst hi
      rw [if_neg fun hmem => hcid hmem.1]
      split
      · next htid => rw [if_pos ⟨List.mem_cons_self, htid⟩, recycle_caches_self]; rfl
      · next htid => rw [if_neg fun hmem => htid hmem.2]
    · have hsame : ∀ {τ : Type} (view : CacheBuffer → τ), (∀ c, view c.unlinked = view c) →
          view ((if (q.caches cid).tid = tid then q.recycle cid else q).caches i) =
            view (q.caches i) := by
        intro τ view hview
        split
        · exact recycle_view view hview hi
        · rfl
      rw [hsame CacheBuffer.unlinked fun _ => rfl, hsame CacheBuffer.tid fun _ => rfl]
      simp [hi]

theorem foldl_initTid_dirtyCount (tid : Int) (cids : List Nat)
    (hcids : ∀ cid ∈ cids, cid < fsCacheBuffers) (q : CacheLruQ)
    (h : q.dirtyCount = q.dirty.card) : (cids.foldl (initTid tid) q).dirtyCount =
      (cids.foldl (initTid tid) q).dirty.card := by
  induction cids generalizing q with
  | nil => exact h
  | cons cid cids ih =>
    rw [List.foldl_cons, initTid_eq]
    refine ih (fun i hi => hcids i (List.mem_cons_of_mem cid hi)) _ ?_
    split
    · exact Counted.dirtyCount_leave h (hcids cid List.mem_cons_self) recycle_caches_self
        (fun i hi => recycle_view CacheBuffer.isDirty (fun _ => rfl) hi) recycle_dirtyCount
    · exact h

/-- The buffers of a transaction are initialised that neither wait for others nor others for
them. -/
theorem CacheLruQ.Counted.initTid {q : CacheLruQ} (h : q.Counted) (tid : Int)
    (htid : ∀ i < fsCacheBuffers, ∀ p ∈ (q.caches i).parentCid,
      ((q.caches i).tid = tid ↔ (q.caches p).tid = tid)) :
    ((List.range fsCacheBuffers).foldl (CacheLruQ.initTid tid) q).Counted := by
  have hview := foldl_initTid_unlinked tid (List.range fsCacheBuffers) List.nodup_range q
  have hdead : ∀ {τ : Type} (view : CacheBuffer → τ), (∀ c, view c.unlinked = view c) →
      ∀ i < fsCacheBuffers,
        view (((List.range fsCacheBuffers).foldl (CacheLruQ.initTid tid) q).caches i) =
          if (q.caches i).tid = tid then view initCacheBuffer else view (q.caches i) := by
    intro τ view hview' i hi
    rw [← hview', hview i]
    by_cases htid : (q.caches i).tid = tid
    · rw [if_pos ⟨List.mem_range.mpr hi, htid⟩, if_pos htid]
    · rw [if_neg fun hmem => htid hmem.2, if_neg htid, hview']
  refine ⟨foldl_initTid_dirtyCount tid _ (fun i hi => List.mem_range.mp hi) q h.dirtyCount,
    h.refs.leaveAll ((Finset.range fsCacheBuffers).filter fun i => (q.caches i).tid = tid)
      ?_ (fun i hi => ?_) (fun b hb => ?_) fun i hi b hb => ?_⟩
  · ext i
    rw [mem_dirty, Finset.mem_sdiff, mem_dirty, Finset.mem_filter, Finset.mem_range]
    by_cases hi : i < fsCacheBuffers
    · rw [hdead CacheBuffer.isDirty (fun _ => rfl) i hi]
      by_cases htid : (q.caches i).tid = tid
      · simp [hi, htid, initCacheBuffer]
      · simp [htid]
    · simp [hi]
  · have hi' := Finset.mem_range.mp hi
    simp only [Finset.mem_filter, Finset.mem_range, hi', true_and]
    exact hdead CacheBuffer.parentCid (fun _ => rfl) i hi'
  · have hb' := Finset.mem_range.mp hb
    simp only [Finset.mem_filter, Finset.mem_range, hb', true_and]
    exact hdead CacheBuffer.refCount (fun _ => rfl) b hb'
  · have hi' := Finset.mem_range.mp hi
    have hb' := Finset.mem_range.mp (h.refs.subset (h.refs.alive_of_parent i hi b hb).2)
    simp only [Finset.mem_filter, Finset.mem_range, hi', hb', true_and]
    exact htid i hi' b hb

end Calls

/-! ## Writing a block -/

/-- The buffers that the temporary addresses in a block name. -/
def cachedCids (addrs : List LogAddr) : List Nat :=
  (addrs.filter isCachedAddr).map fun a => a.offset

namespace CacheLruQ
variable {q q' : CacheLruQ} {cid : Nat}

theorem setParentFields_real {a : LogAddr} (hreal : isCachedAddr a = false) :
    setParentFields cid q a = q := by
  unfold setParentFields
  rw [hreal]
  rfl

theorem setParentFields_parent {a : LogAddr} (hcached : isCachedAddr a = true) (i : Nat) :
    (setParentFields cid q a).parent i = if i = a.offset then some cid else q.parent i := by
  unfold setParentFields parent
  rw [if_pos hcached, modify_caches]
  by_cases hi : i = a.offset
  · rw [if_pos hi, if_pos hi]
  · rw [if_neg hi, if_neg hi]
    refine modify_view CacheBuffer.parentCid ?_
    exact fun _ => rfl

theorem setParentFields_refCount {a : LogAddr} (hcached : isCachedAddr a = true) (i : Nat) :
    (setParentFields cid q a).refCount i =
      if i = cid then q.refCount i + 1 else q.refCount i := by
  unfold setParentFields refCount
  rw [if_pos hcached]
  refine (modify_view CacheBuffer.refCount ?_).trans ?_
  · exact fun _ => rfl
  · rw [modify_caches]
    split <;> rfl

/-- The buffers that are named have the buffer as a parent, and it counts them. -/
theorem foldl_setParentFields (cid : Nat) (addrs : List LogAddr) (q : CacheLruQ) :
    (∀ i, (addrs.foldl (setParentFields cid) q).parent i =
      if i ∈ cachedCids addrs then some cid else q.parent i) ∧
    (∀ i, (addrs.foldl (setParentFields cid) q).refCount i =
      if i = cid then q.refCount i + (cachedCids addrs).length else q.refCount i) := by
  induction addrs generalizing q with
  | nil =>
    refine ⟨fun i => ?_, fun i => ?_⟩
    · simp [cachedCids]
    · simp [cachedCids]
  | cons a addrs ih =>
    obtain ⟨hparent, hcount⟩ := ih (setParentFields cid q a)
    rw [List.foldl_cons]
    cases hcached : isCachedAddr a with
    | false =>
      have hcids : cachedCids (a :: addrs) = cachedCids addrs := by simp [cachedCids, hcached]
      rw [setParentFields_real hcached] at hparent hcount ⊢
      rw [hcids]
      exact ⟨hparent, hcount⟩
    | true =>
      have hcids : cachedCids (a :: addrs) = a.offset :: cachedCids addrs := by
        simp [cachedCids, hcached]
      rw [hcids]
      refine ⟨fun i => ?_, fun i => ?_⟩
      · rw [hparent, setParentFields_parent hcached]
        by_cases hi : i = a.offset
        · simp [hi]
        · simp [hi]
      · rw [hcount, setParentFields_refCount hcached, List.length_cons]
        by_cases hi : i = cid
        · rw [if_pos hi, if_pos hi, if_pos hi]
          omega
        · rw [if_neg hi, if_neg hi, if_neg hi]

/-- What is written to the buffer names its children, each once: dirty buffers, or the buffer
itself, that no other has as a child. -/
structure Names (q : CacheLruQ) (cid : Nat) (cids : List Nat) : Prop where
  nodup : cids.Nodup
  lt : ∀ i ∈ cids, i < fsCacheBuffers
  dirty : ∀ i ∈ cids, (q.caches i).isDirty = true ∨ i = cid
  own : ∀ i ∈ cids, ∀ p, q.parent i = some p → p = cid
  all : ∀ i < fsCacheBuffers, q.parent i = some cid → i ∈ cids

theorem Keeps.dirty (h : Keeps q q') : q'.dirty = q.dirty := by
  unfold CacheLruQ.dirty
  refine Finset.filter_congr fun i _ => ?_
  rw [h.isDirty]

/-- `cache_set_write_buffer` of a buffer that is dirty by then. -/
theorem Counted.setWriteBuffer (h : q.Counted) (hcid : cid < fsCacheBuffers)
    (hdirty : q'.dirty = insert cid q.dirty) (hnum : q'.dirtyCount = q'.dirty.card)
    (hparent : ∀ i, q'.parent i = q.parent i) (hcount : ∀ i, q'.refCount i = q.refCount i)
    (buf : Block) (dataType : DataType)
    (hnames : q.Names cid (cachedCids (nestedAddrs dataType buf))) :
    (q'.setWriteBuffer cid buf dataType).Counted := by
  have hstart : ∀ i, i ≠ cid →
      (q'.modify cid fun c => { c with buf, refCount := 0 }).caches i = q'.caches i :=
    fun i hi => modify_caches_of_ne hi
  obtain ⟨hfoldParent, hfoldCount⟩ := foldl_setParentFields cid (nestedAddrs dataType buf)
    (q'.modify cid fun c => { c with buf, refCount := 0 })
  have hkeeps : Keeps q' ((nestedAddrs dataType buf).foldl (CacheLruQ.setParentFields cid)
      (q'.modify cid fun c => { c with buf, refCount := 0 })) := by
    refine Keeps.trans (Keeps.modify ?_) (keeps_foldl_setParentFields cid _ _)
    exact fun _ => rfl
  have hcounted : ((nestedAddrs dataType buf).foldl (CacheLruQ.setParentFields cid)
      (q'.modify cid fun c => { c with buf, refCount := 0 })).Counted := by
    refine ⟨?_, h.refs.adopt (Finset.mem_range.mpr hcid)
      (cachedCids (nestedAddrs dataType buf)).toFinset (hkeeps.dirty.trans hdirty)
      (fun i _ => ?_) (fun b _ hb => ?_) ?_ (fun i hi => ?_)
      fun i hi hchild => ?_⟩
    · rw [hkeeps.dirtyCount, hkeeps.dirty]
      exact hnum
    · rw [hfoldParent, ← hparent]
      simp only [List.mem_toFinset]
      refine congrArg (fun o => if i ∈ _ then some cid else o) ?_
      refine modify_view CacheBuffer.parentCid ?_
      exact fun _ => rfl
    · rw [hfoldCount, if_neg hb, ← hcount]
      exact congrArg CacheBuffer.refCount (hstart b hb)
    · rw [hfoldCount, if_pos rfl, List.toFinset_card_of_nodup hnames.nodup]
      unfold refCount
      rw [modify_caches_self]
      exact zero_add _
    · have hmem := List.mem_toFinset.mp hi
      refine ⟨?_, hnames.own i hmem⟩
      rcases hnames.dirty i hmem with hi' | rfl
      · exact Finset.mem_insert_of_mem (mem_dirty.mpr ⟨hnames.lt i hmem, hi'⟩)
      · exact Finset.mem_insert_self _ _
    · exact List.mem_toFinset.mpr (hnames.all i (Finset.mem_range.mp hi) hchild)
  unfold CacheLruQ.setWriteBuffer
  dsimp only
  split
  · exact hcounted.keeps (.modify fun _ => rfl)
  · exact hcounted

theorem dirty_markDirty (hcid : cid < fsCacheBuffers) :
    (q.markDirty cid true).dirty = insert cid q.dirty := by
  ext i
  rw [mem_dirty, Finset.mem_insert, mem_dirty]
  by_cases hi : i = cid
  · rw [hi, markDirty_caches_self]
    simp [hcid]
  · rw [markDirty_caches_of_ne hi]
    simp [hi]

/-- A buffer that becomes dirty is counted. -/
theorem dirtyCount_markDirty (h : q.dirtyCount = q.dirty.card) (hcid : cid < fsCacheBuffers) :
    (q.markDirty cid true).dirtyCount = (q.markDirty cid true).dirty.card := by
  rw [dirty_markDirty hcid]
  unfold markDirty
  cases hdirty : (q.caches cid).isDirty with
  | false =>
    have hnot : cid ∉ q.dirty := fun hmem =>
      absurd ((mem_dirty.mp hmem).2.symm.trans hdirty) (by decide)
    rw [if_pos ⟨rfl, rfl⟩, Finset.card_insert_of_notMem hnot]
    dsimp only
    rw [h]
    omega
  | true =>
    rw [if_neg (by simp), Finset.insert_eq_of_mem (mem_dirty.mpr ⟨hcid, hdirty⟩)]
    exact h

theorem markDirty_view {τ : Type} (view : CacheBuffer → τ)
    (hview : ∀ (c : CacheBuffer) b, view { c with isDirty := b } = view c) {isWrite : Bool} {i : Nat} :
    view ((q.markDirty cid isWrite).caches i) = view (q.caches i) := by
  by_cases hi : i = cid
  · rw [hi, markDirty_caches_self, hview]
  · rw [markDirty_caches_of_ne hi]

/-- What a read does to a buffer that is new or not dirty. -/
theorem KeepsCounts.accessClean (buf : Block) (oldAddr : LogAddr) (parentOffset : Option Nat)
    (tid : Int) (dataType : DataType) :
    q.KeepsCounts (q.accessClean cid buf oldAddr parentOffset tid dataType false) := by
  have hmark : ∀ k : CacheLruQ, k.markDirty cid false = k := fun _ => rfl
  unfold CacheLruQ.accessClean
  dsimp only
  rw [hmark, if_neg Bool.false_ne_true]
  refine (setOldAddr oldAddr).trans (toMru.trans ((modify ?_).trans (modify ?_)))
  · exact fun _ => rfl
  · exact fun _ => rfl

/-- What a write does to a buffer that is new or not dirty. -/
theorem Counted.accessClean (h : q.Counted) (hcid : cid < fsCacheBuffers) (buf : Block)
    (oldAddr : LogAddr) (parentOffset : Option Nat) (tid : Int) (dataType : DataType)
    (hnames : q.Names cid (cachedCids (nestedAddrs dataType buf))) :
    (q.accessClean cid buf oldAddr parentOffset tid dataType true).Counted := by
  have hfront : q.KeepsCounts (((q.setOldAddr cid oldAddr).removeFromLru cid).insertToLru cid) :=
    (KeepsCounts.setOldAddr oldAddr).trans .toMru
  unfold CacheLruQ.accessClean
  dsimp only
  rw [if_pos rfl]
  generalize ((q.setOldAddr cid oldAddr).removeFromLru cid).insertToLru cid = q₁ at *
  have htid : (q₁.markDirty cid true).KeepsCounts
      ((q₁.markDirty cid true).modify cid fun c => { c with tid }) := .modify fun _ => rfl
  have hcounted := h.keeps hfront
  refine keeps (h.setWriteBuffer hcid ?_ ?_ (fun i => ?_) (fun i => ?_) buf dataType hnames)
    (.modify fun _ => rfl)
  · rw [htid.dirty, dirty_markDirty hcid, hfront.dirty]
  · rw [htid.dirty, htid.dirtyCount]
    exact dirtyCount_markDirty hcounted.dirtyCount hcid
  · rw [htid.parent, ← hfront.parent]
    exact markDirty_view CacheBuffer.parentCid fun _ _ => rfl
  · rw [htid.refCount, ← hfront.refCount]
    exact markDirty_view CacheBuffer.refCount fun _ _ => rfl

theorem KeepsCounts.accessDirty (buf : Block) (tid : Int) (dataType : DataType) :
    q.KeepsCounts (q.accessDirty cid buf tid dataType false) := by
  unfold CacheLruQ.accessDirty
  dsimp only
  rw [if_neg Bool.false_ne_true]
  refine toMru.trans (modify ?_)
  exact fun _ => rfl

/-- What a write does to a dirty buffer. -/
theorem Counted.accessDirty (h : q.Counted) (hcid : cid < fsCacheBuffers)
    (hdirty : (q.caches cid).isDirty = true) (buf : Block) (tid : Int) (dataType : DataType)
    (hnames : q.Names cid (cachedCids (nestedAddrs dataType buf))) :
    (q.accessDirty cid buf tid dataType true).Counted := by
  have hfront : q.KeepsCounts
      (((q.removeFromLru cid).insertToLru cid).modify cid fun c => { c with tid }) := by
    refine KeepsCounts.toMru.trans (.modify ?_)
    exact fun _ => rfl
  unfold CacheLruQ.accessDirty
  dsimp only
  rw [if_pos rfl]
  refine h.setWriteBuffer hcid ?_ ?_ hfront.parent hfront.refCount buf dataType hnames
  · rw [hfront.dirty, Finset.insert_eq_of_mem (mem_dirty.mpr ⟨hcid, hdirty⟩)]
  · rw [hfront.dirty, hfront.dirtyCount]
    exact h.dirtyCount

end CacheLruQ

/-! ## Every run -/

/-- The block of an address names its own children: each once, dirty buffers or the one of the
address, that are not children of another block, and all that were its children before. -/
structure CacheLruQ.NamesOwn (q : CacheLruQ) (oldAddr : LogAddr) (cids : List Nat) : Prop where
  nodup : cids.Nodup
  lt : ∀ i ∈ cids, i < fsCacheBuffers
  dirty : ∀ i ∈ cids, (q.caches i).isDirty = true ∨ q.Holds i oldAddr
  own : ∀ i ∈ cids, ∀ p ∈ (q.caches i).parentCid, q.Holds p oldAddr
  all : ∀ i < fsCacheBuffers, ∀ p ∈ (q.caches i).parentCid, q.Holds p oldAddr → i ∈ cids

/-- The call keeps to the buffers and to the counts: a block that is written names its own children;
what is forced out is the child of no other buffer; and of a transaction whose buffers are
initialised are the parents and the children of these. -/
def CacheCall.KeepsCounts (call : CacheCall) (s : CacheWorld) : Prop :=
  call.KeepsToBuffers s ∧
    match call with
    | access buf oldAddr _ _ dataType isWrite =>
      isWrite = true → s.lruPtr.NamesOwn oldAddr (cachedCids (nestedAddrs dataType buf))
    | forceFree cid => ∀ p ∈ (s.lruPtr.caches cid).parentCid, p = cid
    | removeIndirect indirectAddr =>
      ∀ cid < fsCacheBuffers, s.lruPtr.Holds cid indirectAddr →
        ∀ p ∈ (s.lruPtr.caches cid).parentCid, p = cid
    | initTid tid =>
      ∀ i < fsCacheBuffers, ∀ p ∈ (s.lruPtr.caches i).parentCid,
        ((s.lruPtr.caches i).tid = tid ↔ (s.lruPtr.caches p).tid = tid)
    | _ => True

instance (q : CacheLruQ) (cid : Nat) (a : LogAddr) : Decidable (q.Holds cid a) :=
  inferInstanceAs (Decidable (_ ∧ _ ∨ _ ∧ _ ∧ _ ∧ _))

instance (q : CacheLruQ) (oldAddr : LogAddr) (cids : List Nat) :
    Decidable (q.NamesOwn oldAddr cids) :=
  decidable_of_iff (cids.Nodup ∧ (∀ i ∈ cids, i < fsCacheBuffers) ∧
    (∀ i ∈ cids, (q.caches i).isDirty = true ∨ q.Holds i oldAddr) ∧
    (∀ i ∈ cids, ∀ p ∈ (q.caches i).parentCid, q.Holds p oldAddr) ∧
    ∀ i < fsCacheBuffers, ∀ p ∈ (q.caches i).parentCid, q.Holds p oldAddr → i ∈ cids)
    ⟨fun ⟨h₁, h₂, h₃, h₄, h₅⟩ => ⟨h₁, h₂, h₃, h₄, h₅⟩,
      fun h => ⟨h.nodup, h.lt, h.dirty, h.own, h.all⟩⟩

instance : ∀ call s, Decidable (CacheCall.KeepsCounts call s)
  | .access buf oldAddr _ _ dataType isWrite, s => inferInstanceAs (Decidable (_ ∧ (isWrite = true →
      s.lruPtr.NamesOwn oldAddr (cachedCids (nestedAddrs dataType buf)))))
  | .forceFree cid, s =>
    inferInstanceAs (Decidable (_ ∧ ∀ p ∈ (s.lruPtr.caches cid).parentCid, p = cid))
  | .removeIndirect indirectAddr, s => inferInstanceAs (Decidable (_ ∧ ∀ cid < fsCacheBuffers,
      s.lruPtr.Holds cid indirectAddr → ∀ p ∈ (s.lruPtr.caches cid).parentCid, p = cid))
  | .initTid tid, s => inferInstanceAs (Decidable (_ ∧ ∀ i < fsCacheBuffers,
      ∀ p ∈ (s.lruPtr.caches i).parentCid,
        ((s.lruPtr.caches i).tid = tid ↔ (s.lruPtr.caches p).tid = tid)))
  | .flush _, _ => inferInstanceAs (Decidable (_ ∧ True))
  | .flushTransaction _, _ => inferInstanceAs (Decidable (_ ∧ True))
  | .free _, _ => inferInstanceAs (Decidable (_ ∧ True))
  | .fixIndirectLeaf .., _ => inferInstanceAs (Decidable (_ ∧ True))
  | .outside .., _ => inferInstanceAs (Decidable (_ ∧ True))

section Steps
variable {s t : CacheWorld} {lru : List Nat} {cid : Nat}

open CacheLruQ

theorem CacheLruQ.Holds.unique {q : CacheLruQ} {i j : Nat} {a : LogAddr}
    (h : q.Listed fsCacheBuffers lru) (hi : q.Holds i a) (hj : q.Holds j a) : i = j := by
  rcases hi with ⟨hcached, rfl⟩ | ⟨hreal, hempty, hi, haddr⟩
  · rcases hj with ⟨-, rfl⟩ | ⟨hreal, -⟩
    · rfl
    · exact absurd (hcached.symm.trans hreal) (by decide)
  · rcases hj with ⟨hcached, -⟩ | ⟨-, -, hj, haddr'⟩
    · exact absurd (hcached.symm.trans hreal) (by decide)
    · refine h.addr_inj i hi j hj (haddr.trans haddr'.symm) ?_
      rw [haddr]
      exact ne_empty_of_isAddressEmpty hempty

/-- The buffer of an address names its children. -/
theorem CacheLruQ.NamesOwn.names {q : CacheLruQ} {oldAddr : LogAddr} {cids : List Nat}
    (h : q.NamesOwn oldAddr cids) (hlisted : q.Listed fsCacheBuffers lru)
    (hholds : q.Holds cid oldAddr) : q.Names cid cids where
  nodup := h.nodup
  lt := h.lt
  dirty i hi := (h.dirty i hi).imp_right fun hi' => hi'.unique hlisted hholds
  own i hi p hp := (h.own i hi p hp).unique hlisted hholds
  all i hi hp := h.all i hi cid hp hholds

/-- A buffer that was flushed is not dirty, and no other changes. -/
theorem Flushes.acquired {res : Int} (ht : Flushes cid s res t) (hres : res = 0) :
    (t.lruPtr.caches cid).isDirty = false ∧ ∀ i, i ≠ cid →
      (t.lruPtr.caches i).isDirty = (s.lruPtr.caches i).isDirty ∧
        t.lruPtr.parent i = s.lruPtr.parent i := by
  cases ht with
  | illegal | referenced | failed | decZero => exact absurd hres (by decide)
  | free hcid hfree =>
    refine ⟨?_, fun _ _ => ⟨rfl, rfl⟩⟩
    unfold CacheBuffer.isFree at hfree
    rw [Bool.and_eq_true, Bool.not_eq_true'] at hfree
    exact hfree.1
  | clean =>
    refine ⟨?_, fun i hi => ⟨?_, ?_⟩⟩
    · dsimp only
      rw [recycle_caches_self]
      rfl
    · exact recycle_view CacheBuffer.isDirty (fun _ => rfl) hi
    · exact recycle_view CacheBuffer.parentCid (fun _ => rfl) hi
  | written a =>
    refine ⟨?_, fun i hi => ⟨?_, ?_⟩⟩
    · dsimp only
      rw [recycle_caches_self]
      rfl
    · exact (recycle_view CacheBuffer.isDirty (fun _ => rfl) hi).trans fixParent_isDirty
    · exact (recycle_view CacheBuffer.parentCid (fun _ => rfl) hi).trans fixParent_parent

theorem Acquires.counted {res : Except Int Nat} (ht : Acquires s res t) (h : s.lruPtr.Counted) :
    t.lruPtr.Counted := by
  cases ht with
  | free | allUsed => exact h
  | evicted cid t hcid ht => exact ht.counted h
  | failed cid res t ht => exact ht.counted h

/-- A buffer that is acquired is not dirty, and no other changes. -/
theorem Acquires.acquired (ht : Acquires s (.ok cid) t) : cid < fsCacheBuffers ∧
    (t.lruPtr.caches cid).isDirty = false ∧ ∀ i, i ≠ cid →
      (t.lruPtr.caches i).isDirty = (s.lruPtr.caches i).isDirty ∧
        t.lruPtr.parent i = s.lruPtr.parent i := by
  cases ht with
  | free _ hcid hfree =>
    refine ⟨hcid, ?_, fun _ _ => ⟨rfl, rfl⟩⟩
    unfold CacheBuffer.isFree at hfree
    rw [Bool.and_eq_true, Bool.not_eq_true'] at hfree
    exact hfree.1
  | evicted _ _ hcid ht => exact ⟨hcid, ht.acquired rfl⟩

/-- What is written to a buffer that was acquired names its children, which no other buffer has. -/
theorem Acquires.names {oldAddr : LogAddr} {cids : List Nat} (ht : Acquires s (.ok cid) t)
    (h : s.lruPtr.Counted) (hnew : ∀ i, ¬s.lruPtr.Holds i oldAddr)
    (hnames : s.lruPtr.NamesOwn oldAddr cids) : t.lruPtr.Names cid cids := by
  obtain ⟨hcid, hclean, hother⟩ := ht.acquired
  have hcounted := ht.counted h
  have hnot : cid ∉ t.lruPtr.dirty := fun hmem =>
    absurd ((mem_dirty.mp hmem).2.symm.trans hclean) (by decide)
  refine ⟨hnames.nodup, hnames.lt, fun i hi => ?_, fun i hi p hp => ?_, fun i hi hp => ?_⟩
  · by_cases hic : i = cid
    · exact .inr hic
    · rw [(hother i hic).1]
      exact .inl ((hnames.dirty i hi).resolve_right (hnew i))
  · by_cases hic : i = cid
    · rw [hic, hcounted.refs.parent_eq_none (Finset.mem_range.mpr hcid) hnot] at hp
      exact absurd hp (Option.some_ne_none p).symm
    · rw [(hother i hic).2] at hp
      exact absurd (hnames.own i hi p hp) (hnew p)
  · exact absurd hp (hcounted.refs.parent_ne_of_notMem hnot (Finset.mem_range.mpr hi))

/-- An access keeps the counts, if a block that is written names its own children. -/
theorem Accesses.counted {buf : Block} {oldAddr : LogAddr} {parentOffset : Option Nat} {tid : Int}
    {dataType : DataType} {isWrite : Bool}
    (ht : Accesses buf oldAddr parentOffset tid dataType isWrite s t)
    (hlisted : s.lruPtr.Listed fsCacheBuffers lru) (h : s.lruPtr.Counted)
    (hcall : (CacheCall.access buf oldAddr parentOffset tid dataType isWrite).KeepsCounts s) :
    t.lruPtr.Counted := by
  obtain ⟨⟨hkeeps, -⟩, hnames⟩ := hcall
  have hlt : ∀ {cid}, s.lruPtr.Holds cid oldAddr → cid < fsCacheBuffers := by
    rintro cid (⟨hcached, rfl⟩ | ⟨-, -, hcid, -⟩)
    · rw [if_pos hcached] at hkeeps
      exact hkeeps.1
    · exact hcid
  cases ht with
  | refused res t hu => exact hu.counted h
  | unread cid t w hu => exact hu.counted h
  | write cid t hcached hnew hwrite hu =>
    subst hwrite
    exact (hu.counted h).accessClean hu.acquired.1 buf oldAddr parentOffset tid dataType
      (hu.names h hnew (hnames rfl))
  | read cid t block w hcached hnew hread hu =>
    subst hread
    refine (hu.counted h).keeps (KeepsCounts.trans (.modify ?_)
      (.accessClean buf oldAddr parentOffset tid dataType))
    exact fun _ => rfl
  | dirty cid hholds hdirty =>
    cases isWrite with
    | false => exact h.keeps (.accessDirty buf tid dataType)
    | true =>
      exact h.accessDirty (hlt hholds) hdirty buf tid dataType ((hnames rfl).names hlisted hholds)
  | clean cid hholds hdirty =>
    cases isWrite with
    | false => exact h.keeps (.accessClean buf oldAddr parentOffset tid dataType)
    | true =>
      exact h.accessClean (hlt hholds) buf oldAddr parentOffset tid dataType
        ((hnames rfl).names hlisted hholds)

theorem StopsBelow.lruPtr {e : Stop} (ht : StopsBelow s e t) : t.lruPtr = s.lruPtr := by
  rw [ht.2]

theorem preserves_cacheFlushCache (cid : Nat) :
    Preserves (fun s : CacheWorld => s.lruPtr.Counted) (cacheFlushCache cid) :=
  fun _ hs => wp_mono wp_cacheFlushCache (fun _ _ ht => ht.counted hs)
    fun _ _ ht => ht.lruPtr ▸ hs

/-- Every call that keeps to the counts keeps them. -/
theorem CacheCall.wp_counted (call : CacheCall) (h : s.LruList lru) (hcounted : s.lruPtr.Counted)
    (hcall : call.KeepsCounts s) :
    wp (exec call) (fun _ t => t.lruPtr.Counted) (fun _ t => t.lruPtr.Counted) s := by
  have hlisted := h.listed
  cases call with
  | access buf oldAddr parentOffset tid dataType isWrite =>
    refine (wp_map _ _).mpr (wp_mono (wp_cacheAccessCache hlisted)
      (fun _ _ ht => ht.counted hlisted hcounted hcall) fun e t ht => ?_)
    obtain ⟨u, rfl | ⟨cid, hu⟩, hstops⟩ := ht
    · rw [hstops.lruPtr]
      exact hcounted
    · rw [hstops.lruPtr]
      exact hu.counted hcounted
  | flush cid => exact (wp_map _ _).mpr (preserves_cacheFlushCache cid s hcounted)
  | flushTransaction tid =>
    exact (wp_map _ _).mpr
      (preserves_cacheFlushTransactionBlocks tid (fun cid u _ => preserves_cacheFlushCache cid u) s
        hcounted)
  | free logAddr =>
    exact (wp_map _ _).mpr (wp_mono (wp_cacheFreeByAddr hlisted logAddr)
      (fun _ _ ht => ht.counted hcounted) fun _ _ he => he)
  | forceFree cid =>
    obtain ⟨⟨hcid, hindexed⟩, hparent⟩ := hcall
    refine (wp_map _ _).mpr (wp_mono (wp_cacheForceFreeCache hlisted (hindexed cid hcid))
      (fun _ t ht => ?_) fun _ _ he => he)
    rw [ht.2]
    exact hcounted.forceFree hlisted hcid hparent
  | removeIndirect indirectAddr =>
    obtain ⟨⟨hcached, hindexed⟩, hparent⟩ := hcall
    refine (wp_map _ _).mpr (wp_mono (wp_cacheRemoveIndirectBlock hlisted hindexed hcached)
      (fun _ t ht => ?_) fun _ _ he => he)
    rcases ht with rfl | ⟨cid, u, hholds, hcid, hu, -, hlru⟩
    · exact hcounted
    · rw [hlru]
      have hkeeps := hu.keepsParents
      refine (hu.counted hcounted).forceFree (hlisted.keeps hkeeps.toKeeps) hcid fun p hp => ?_
      exact hparent cid hcid hholds p ((hkeeps.parentCid cid).symm.trans hp)
  | fixIndirectLeaf indirectOffset doubleLogAddr tid flag =>
    exact wp_mono (wp_cacheFixIndirectLeafIndicator hlisted indirectOffset doubleLogAddr tid flag)
      (fun _ _ ht => ht.counted hcounted) fun _ _ he => he
  | initTid tid => exact hcounted.initTid tid hcall.2
  | outside world transactions isVoted => exact hcounted.keeps ⟨rfl, fun _ => rfl⟩

end Steps

/-- The counters of the cache are true: the dirty buffers are counted, each buffer counts the dirty
buffers whose parent it is, and is not flushed before them. -/
structure CacheWorld.CountsTrue (s : CacheWorld) : Prop where
  dirtyCount : s.lruPtr.dirtyCount =
    ((Finset.range fsCacheBuffers).filter fun i => (s.lruPtr.caches i).isDirty = true).card
  refCount : ∀ b < fsCacheBuffers, (s.lruPtr.caches b).refCount =
    ((Finset.range fsCacheBuffers).filter fun i => (s.lruPtr.caches i).isDirty = true ∧
      (s.lruPtr.caches i).parentCid = some b).card
  stays : ∀ b < fsCacheBuffers, ∀ i < fsCacheBuffers, (s.lruPtr.caches i).isDirty = true →
    (s.lruPtr.caches i).parentCid = some b → cacheFlushCache b s = .ok fsErrorNonzeroRefCount s

theorem CacheLruQ.Counted.countsTrue {s : CacheWorld} (h : s.lruPtr.Counted) : s.CountsTrue := by
  have hrefs : ∀ b < fsCacheBuffers, (s.lruPtr.caches b).refCount =
      ((Finset.range fsCacheBuffers).filter fun i => (s.lruPtr.caches i).isDirty = true ∧
        (s.lruPtr.caches i).parentCid = some b).card := by
    intro b hb
    refine (h.refs.count_eq b (Finset.mem_range.mpr hb)).trans ?_
    unfold Parents.children dirty
    rw [Finset.filter_filter]
    rfl
  refine ⟨h.dirtyCount, hrefs, fun b hb i hi hdirty hparent => ?_⟩
  have hpos : 0 < (s.lruPtr.caches b).refCount := by
    rw [hrefs b hb]
    exact Int.natCast_pos.mpr (Finset.card_pos.mpr
      ⟨i, Finset.mem_filter.mpr ⟨Finset.mem_range.mpr hi, hdirty, hparent⟩⟩)
  unfold cacheFlushCache
  rw [bind_ok (show getLruQ s = .ok s.lruPtr s from rfl),
    if_neg (not_le.mpr hb), if_pos hpos]
  rfl

/-- In every run that keeps to the counts, they are true after each call. -/
theorem counts_true (calls : List CacheCall) (s : CacheWorld) (hs : s.Starts)
    (hcalls : Meets CacheCall.exec CacheCall.KeepsCounts calls s) :
    Always CacheCall.exec (fun _ _ t => t.CountsTrue) calls s := by
  have hstart : s.lruPtr.Counted := by
    rw [hs.1]
    exact .init
  refine always_of_meets (I := fun t => (∃ lru, t.LruList lru) ∧ t.lruPtr.Counted)
    (fun call t ht hcall => ?_) calls s ⟨⟨[], hs.lruList⟩, hstart⟩ hcalls
  obtain ⟨⟨lru, hlru⟩, hcounted⟩ := ht
  exact wp_mono (wp_and (call.wp_exec hlru hcall.1) (call.wp_counted hlru hcounted hcall))
    (fun _ u hu => ⟨hu.2.countsTrue, hu⟩) fun _ _ hu => hu.2.countsTrue

end Counts

/-! ## A child that is forced out -/

section SmallPage
attribute [local instance] smallCache

/-- An index block whose first entry is the temporary address of the first buffer. -/
def namesFirst : Block := blockSetIndex initBuf.main 0 (cachedAddr 0)

/-- A block is written, and the index block above it. -/
def writesChild : List CacheCall :=
  [.access initBuf.main LogAddr.empty (some 0) 0 .regular true,
    .access namesFirst LogAddr.empty none 0 .entries true]

theorem counts_true_writesChild :
    Always CacheCall.exec (fun _ _ t => t.CountsTrue)
      (writesChild ++ [.forceFree 1, .forceFree 0]) emptyCache :=
  counts_true _ emptyCache ⟨rfl, rfl⟩
    (@of_decide_eq_true _ (decidableMeets inferInstance _ _) (by decide +kernel))

/-- The block is forced out before the index block, which waits for it from then on. -/
theorem not_counts_true : emptyCache.Starts ∧ ¬Always CacheCall.exec (fun _ _ t => t.CountsTrue)
    (writesChild ++ [.forceFree 0]) emptyCache := by
  refine ⟨⟨rfl, rfl⟩, fun h => ?_⟩
  have hrun : (runAll CacheCall.exec (writesChild ++ [.forceFree 0]) emptyCache).map (fun t =>
      ((t.lruPtr.caches 1).refCount, ((Finset.range 4).filter fun i =>
        (t.lruPtr.caches i).isDirty = true ∧ (t.lruPtr.caches i).parentCid = some 1).card)) =
      some (1, 0) := by decide +kernel
  obtain ⟨t, ht, hcounts⟩ := Option.map_eq_some_iff.mp hrun
  obtain ⟨hcount, hcard⟩ := Prod.mk.inj hcounts
  have hstart : emptyCache.CountsTrue := CacheLruQ.Counted.init.countsTrue
  have hlast := h.last (J := CacheWorld.CountsTrue) (fun _ _ _ hu => hu) hstart ht
  have hone : (t.lruPtr.caches 1).refCount = _ := hlast.refCount 1 (by decide)
  rw [hcount] at hone
  exact absurd (hone.trans (congrArg Nat.cast hcard)) (by decide)

end SmallPage

end NandFs
