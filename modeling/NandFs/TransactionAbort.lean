import NandFs.EuLookup
import NandFs.Format
import NandFs.InodeTree

/-! # Aborting a transaction

`deleteTransactionPages` walks the pages of a transaction from the last one written, by the PREV
addresses in their spare areas, and marks them obsolete.  It passes `readVOTsAndPrev` one variable
for the address to read and for the PREV address it gets back, so the block of a VOTS page is read
from the page before it: from nowhere, if the VOTS page is the first of the transaction.
-/
namespace NandFs

open Program Config

section Abort
variable [Config]

/-! ## The cache -/

/-- The fields of `cache_block` that freeing a buffer looks at. -/
structure CacheBlock where
  tid : Int
  isDirty : Bool
  logAddr : LogAddr

/-- `cache_lru_q`.  `lru` lists the buffers in use from the most recently used one on, which the
source keeps as links in the buffers. -/
structure CacheQueue where
  caches : Nat → CacheBlock
  lru : List Nat
  dirtyCount : Int

/-- `cache_init_by_cid` -/
def CacheQueue.initByCid (q : CacheQueue) (cid : Nat) : CacheQueue :=
  { q with caches := Function.update q.caches cid ⟨-1, false, LogAddr.empty⟩ }

/-- `cache_remove_from_lru` -/
def CacheQueue.removeFromLru (q : CacheQueue) (cid : Nat) : CacheQueue :=
  { q with lru := q.lru.erase cid }

/-- `cache_get_cid_by_real_addr` -/
def CacheQueue.getCidByRealAddr (q : CacheQueue) (logAddr : LogAddr) : Option Nat :=
  if isAddressEmpty logAddr then none
  else q.lru.find? fun cid => (q.caches cid).logAddr == logAddr

/-- The turn of `cache_init_tid_related` for one buffer. -/
def CacheQueue.initTid (tid : Int) (q : CacheQueue) (cid : Nat) : CacheQueue :=
  if (q.caches cid).tid = tid then
    let q := if (q.caches cid).isDirty then { q with dirtyCount := q.dirtyCount - 1 } else q
    (q.removeFromLru cid).initByCid cid
  else q

/-- `cache_init_tid_related`, where there are `nBuffers` buffers (`FS_CACHE_BUFFERS`). -/
def CacheQueue.initTidRelated (q : CacheQueue) (nBuffers : Nat) (tid : Int) : CacheQueue :=
  (List.range nBuffers).foldl (CacheQueue.initTid tid) q

/-- `FS_ERROR_FREEING_DIRTY_CACHE` -/
def fsErrorFreeingDirtyCache : Int := -13

/-- `FS_ERROR_CRITICAL` -/
def fsErrorCritical : Int := -9

/-- The sequencing layer, and the cache above it. -/
structure CachingWorld where
  world : World
  cache : CacheQueue

abbrev TrM := EStateM Halt CachingWorld

/-- What the layer below does. -/
def inWorld {α : Type} : SeqM α → TrM α :=
  onPart CachingWorld.world fun w s => { s with world := w }

/-- `cache_free_by_real_addr` -/
def cacheFreeByRealAddr (logAddr : LogAddr) : TrM Int := do
  let q := (← get).cache
  match q.getCidByRealAddr logAddr with
  | none => pure 0
  | some cid =>
    if (q.caches cid).isDirty then pure fsErrorFreeingDirtyCache
    else do
      modify fun s => { s with cache := (s.cache.removeFromLru cid).initByCid cid }
      pure 0

/-! ## Walking the pages -/

/-- What `readVOTsAndPrev` returns: its error code, the PREV address, whether the page is one of
VOTS, and the block it read then. -/
structure VOTsAndPrev where
  err : Nat
  prev : LogAddr
  isVOTs : Bool
  vots : Option Block

/-- `readVOTsAndPrev`; `samePtr` is whether the caller gave one variable for `b` and `prev`, which
`extract_prev_address` then overwrites before the block is read. -/
def readVOTsAndPrev (b : LogAddr) (samePtr : Bool) : SeqM VOTsAndPrev := do
  let phyAddr ← logicalAddressToPhysical b
  assert (decide (phyAddr ≠ phyAddressEmpty))
  let flags ← nandReadPageFlags phyAddr
  let b := if samePtr then flags.prev else b
  if flags.vots then do
    match ← readBlock b with
    | none => pure ⟨errorIo, flags.prev, true, none⟩
    | some block => pure ⟨0, flags.prev, true, some block⟩
  else pure ⟨0, flags.prev, false, none⟩

/-- `tr_mark_as_obsolete` -/
def trMarkAsObsolete (logAddr : LogAddr) (isFromReboot : Bool) : TrM Int := do
  if (← inWorld (markAsObsolete logAddr isFromReboot)) ≠ 0 then pure fsErrorIo
  else if (← cacheFreeByRealAddr logAddr) ≠ 0 then pure fsErrorCritical
  else pure 0

/-- The loop of `deleteTransactionPages`, for at most `n` turns: `none` is that it goes on. -/
def deletePages (isFromReboot : Bool) : Nat → LogAddr → TrM (Option Int)
  | 0, _ => pure none
  | n + 1, logAddr => do
    if isAddrEmpty logAddr then pure (some 0)
    else if (← trMarkAsObsolete logAddr isFromReboot) ≠ 0 then pure (some (-1))
    else do
      let read ← inWorld (readVOTsAndPrev logAddr true)
      if read.err ≠ 0 then pure (some (-1))
      else deletePages isFromReboot n read.prev

/-- `deleteTransactionPages`, for at most `turns` turns of its loop -/
def deleteTransactionPages (turns nBuffers : Nat) (logAddr : LogAddr) (tid : Int)
    (isFromReboot : Bool) : TrM (Option Int) := do
  modify fun s => { s with cache := s.cache.initTidRelated nBuffers tid }
  deletePages isFromReboot turns logAddr

/-! ## Chains -/

/-- The pages of a transaction from `logAddr` on, linked by the PREV addresses: their addresses and
where they are on the chip. -/
inductive PageChain (w : World) : LogAddr → List (LogAddr × Nat) → Prop
  | nil : PageChain w LogAddr.empty []
  | cons {logAddr : LogAddr} {phyAddr : Nat} {pages : List (LogAddr × Nat)}
      (nonempty : logAddr ≠ LogAddr.empty)
      (found : logicalAddressToPhysical logAddr w = .ok phyAddr w) (lt : phyAddr < pageCount)
      (rest : PageChain w (w.flash.page phyAddr).flags.prev pages) :
      PageChain w logAddr ((logAddr, phyAddr) :: pages)

/-- What aborting relies on: power stays, a page that is not marked can be marked, and no dirty
buffer of another transaction holds one of the pages. -/
structure Abortable (s : CachingWorld) (nBuffers : Nat) (tid : Int) (logAddr : LogAddr)
    (pages : List (LogAddr × Nat)) : Prop where
  chain : PageChain s.world logAddr pages
  powered : s.world.flash.power = none
  markable : ∀ p ∈ pages, (s.world.flash.page p.2).flags.obsolete = false →
    s.world.flash.spareWrites p.2 = false
  clean : ∀ cid ∈ s.cache.lru, (s.cache.caches cid).isDirty = true →
    cid < nBuffers ∧ (s.cache.caches cid).tid = tid ∨
      ∀ p ∈ pages, (s.cache.caches cid).logAddr ≠ p.1

/-- The page with its obsolete byte programmed. -/
def Page.marked (page : Page) : Page :=
  { page with flags := { page.flags with obsolete := true } }

/-- From `w` to `t` the pages `phyAddrs` have been marked, each of them once, and no other page: the
count of obsolete pages has grown by one for each of them that was not marked before or, after a
reboot, for each of them. -/
structure PagesReleased (isFromReboot : Bool) (phyAddrs : List Nat) (w t : World) : Prop where
  page : ∀ p, t.flash.page p = if p ∈ phyAddrs then (w.flash.page p).marked else w.flash.page p
  spare : ∀ p ∉ phyAddrs, t.flash.spareWrites p = w.flash.spareWrites p
  count : t.obsCountersMap.counter % 2 ^ 32 = (w.obsCountersMap.counter +
    phyAddrs.countP fun p => isFromReboot || !(w.flash.page p).flags.obsolete) % 2 ^ 32

/-- The page that was written first is no page of VOTS. -/
def StartsWithData (w : World) (pages : List (LogAddr × Nat)) : Prop :=
  ∀ p ∈ pages, (w.flash.page p.2).flags.prev = LogAddr.empty →
    (w.flash.page p.2).flags.vots = false

section Chains
variable {w t : World} {logAddr : LogAddr} {pages pages' : List (LogAddr × Nat)}

theorem PageChain.unique (h : PageChain w logAddr pages) (h' : PageChain w logAddr pages') :
    pages = pages' := by
  induction h generalizing pages' with
  | nil =>
    cases h' with
    | nil => rfl
    | cons nonempty => exact absurd rfl nonempty
  | cons nonempty found lt rest ih =>
    cases h' with
    | nil => exact absurd rfl nonempty
    | cons _ found' _ rest' =>
      rw [found] at found'
      cases found'
      rw [ih rest']

theorem PageChain.head (h : PageChain w logAddr pages) (hne : logAddr ≠ LogAddr.empty) :
    ∃ phyAddr rest, pages = (logAddr, phyAddr) :: rest ∧
      logicalAddressToPhysical logAddr w = .ok phyAddr w ∧ phyAddr < pageCount := by
  cases h with
  | nil => exact absurd rfl hne
  | cons _ found lt _ => exact ⟨_, _, rfl, found, lt⟩

theorem PageChain.found (h : PageChain w logAddr pages) (hne : logAddr ≠ LogAddr.empty) :
    ∃ phyAddr, logicalAddressToPhysical logAddr w = .ok phyAddr w ∧ phyAddr < pageCount := by
  obtain ⟨phyAddr, _, -, hfound⟩ := h.head hne
  exact ⟨phyAddr, hfound⟩

/-- What follows a page of the chain is a shorter chain. -/
theorem PageChain.after (h : PageChain w logAddr pages) {p : LogAddr × Nat} (hp : p ∈ pages) :
    ∃ pages', pages'.length < pages.length ∧
      PageChain w (w.flash.page p.2).flags.prev pages' := by
  induction h with
  | nil => exact absurd hp List.not_mem_nil
  | cons nonempty found lt rest ih =>
    rcases List.mem_cons.mp hp with rfl | hp
    · exact ⟨_, Nat.lt_succ_self _, rest⟩
    · obtain ⟨pages', hlt, hchain⟩ := ih hp
      exact ⟨pages', Nat.lt_succ_of_lt hlt, hchain⟩

/-- No page is twice on a chain, since a chain ends. -/
theorem PageChain.nodup (h : PageChain w logAddr pages) : (pages.map Prod.snd).Nodup := by
  induction h with
  | nil => exact List.nodup_nil
  | cons nonempty found lt rest ih =>
    refine List.nodup_cons.mpr ⟨fun hmem => ?_, ih⟩
    obtain ⟨p, hp, hsame⟩ := List.mem_map.mp hmem
    obtain ⟨pages', hlt, hchain⟩ := rest.after hp
    rw [hsame] at hchain
    rw [rest.unique hchain] at hlt
    exact absurd hlt (Nat.lt_irrefl _)

/-! ## Marking a page moves nothing -/

/-- The chips differ in their obsolete bytes only. -/
structure SamePlaces (w t : World) : Prop where
  segMap : t.segMap = w.segMap
  badEu : t.flash.badEu = w.flash.badEu
  copyBack : ∀ p, (t.flash.page p).flags.copyBack = (w.flash.page p).flags.copyBack
  slotEuOffset : ∀ p, (t.flash.page p).flags.slotEuOffset = (w.flash.page p).flags.slotEuOffset

theorem SamePlaces.nandCheckEuStatus (h : SamePlaces w t) {a : Nat} {status : Bool}
    (hrun : nandCheckEuStatus a w = .ok status w) : nandCheckEuStatus a t = .ok status t := by
  obtain ⟨hlt, rfl⟩ := nandCheckEuStatus_ok hrun
  rw [nandCheckEuStatus_run hlt, Flash.good_congr h.badEu]

theorem SamePlaces.findReserveEu (h : SamePlaces w t) {expected : Nat} {eus : List Nat}
    {found : Option Nat} (hrun : findReserveEu expected eus w = .ok found w) :
    findReserveEu expected eus t = .ok found t := by
  induction eus with
  | nil =>
    cases hrun
    rfl
  | cons eu eus ih =>
    unfold NandFs.findReserveEu at hrun ⊢
    rcases Frame.reads (frame_nandCheckEuStatus eu) w with ⟨status, hstatus⟩ | ⟨e, herr⟩
    swap
    · rw [bind_error herr] at hrun
      cases hrun
    rw [bind_ok hstatus] at hrun
    rw [bind_ok (h.nandCheckEuStatus hstatus)]
    have hlt := (nandCheckEuStatus_ok hstatus).1
    by_cases hgood : status = true
    · rw [if_pos hgood, bind_ok (nandReadPageFlags_run hlt)] at hrun ⊢
      rw [h.copyBack, h.slotEuOffset]
      by_cases hfits : (w.flash.page eu).flags.slotEuOffset = expected ∧
          (w.flash.page eu).flags.copyBack = false
      · rw [if_pos hfits] at hrun ⊢
        cases hrun
        rfl
      · rw [if_neg hfits] at hrun ⊢
        exact ih hrun
    · rw [if_neg hgood] at hrun ⊢
      exact ih hrun

theorem SamePlaces.logicalAddressToPhysical (h : SamePlaces w t) {a : LogAddr} {phyAddr : Nat}
    (hrun : logicalAddressToPhysical a w = .ok phyAddr w) :
    logicalAddressToPhysical a t = .ok phyAddr t := by
  have hmap : ∀ v : World, getSegMap v = .ok v.segMap v := fun _ => rfl
  have htest : ∀ {test : Bool} {next : SeqM Nat},
      (assert test >>= fun _ => next) w = .ok phyAddr w → test = true ∧ next w = .ok phyAddr w := by
    intro test next hrun
    cases test with
    | true => exact ⟨rfl, hrun⟩
    | false => cases hrun
  unfold NandFs.logicalAddressToPhysical at hrun ⊢
  rw [bind_ok (hmap w)] at hrun
  rw [bind_ok (hmap t), h.segMap]
  obtain ⟨hslot, hrun⟩ := htest hrun
  obtain ⟨hoff, hrun⟩ := htest hrun
  rw [bind_ok (assert_run hslot), bind_ok (assert_run hoff)]
  rcases Frame.reads (frame_nandCheckEuStatus (calcEuStart (w.segMap.expectedPage a))) w with
    ⟨status, hstatus⟩ | ⟨e, herr⟩
  swap
  · rw [bind_error herr] at hrun
    cases hrun
  rw [bind_ok hstatus] at hrun
  rw [bind_ok (h.nandCheckEuStatus hstatus)]
  by_cases hgood : status = true
  · rw [if_pos hgood] at hrun ⊢
    cases hrun
    rfl
  rw [if_neg hgood] at hrun ⊢
  unfold logicalAddressToReservePhysical at hrun ⊢
  rw [bind_ok (hmap w)] at hrun
  rw [bind_ok (hmap t), h.segMap]
  rcases Frame.reads (frame_findReserveEu _ _) w with ⟨found, hfound⟩ | ⟨e, herr⟩
  swap
  · rw [bind_error herr] at hrun
    cases hrun
  rw [bind_ok hfound] at hrun
  rw [bind_ok (h.findReserveEu hfound)]
  cases found <;> cases hrun <;> rfl

theorem PageChain.congr (h : SamePlaces w t)
    (hprev : ∀ p, (t.flash.page p).flags.prev = (w.flash.page p).flags.prev)
    (hchain : PageChain w logAddr pages) : PageChain t logAddr pages := by
  induction hchain with
  | nil => exact .nil
  | cons nonempty found lt rest ih =>
    refine .cons nonempty (h.logicalAddressToPhysical found) lt ?_
    rwa [hprev]

/-! ## Releasing page after page -/

theorem PagesReleased.nil (isFromReboot : Bool) (w : World) : PagesReleased isFromReboot [] w w :=
  ⟨fun _ => rfl, fun _ _ => rfl, rfl⟩

theorem PagesReleased.cons {isFromReboot : Bool} {u : World} {phyAddr : Nat} {phyAddrs : List Nat}
    (hnew : phyAddr ∉ phyAddrs) (h : PagesReleased isFromReboot [phyAddr] w u)
    (h' : PagesReleased isFromReboot phyAddrs u t) :
    PagesReleased isFromReboot (phyAddr :: phyAddrs) w t := by
  have hother : ∀ p, p ≠ phyAddr → u.flash.page p = w.flash.page p := fun p hp => by
    rw [h.page, if_neg (mt List.mem_singleton.mp hp)]
  refine ⟨fun p => ?_, fun p hp => ?_, ?_⟩
  · rw [h'.page]
    by_cases hp : p = phyAddr
    · rw [hp, if_neg hnew, h.page, if_pos (List.mem_singleton.mpr rfl), if_pos List.mem_cons_self]
    · rw [hother p hp]
      by_cases hmem : p ∈ phyAddrs
      · rw [if_pos hmem, if_pos (List.mem_cons_of_mem _ hmem)]
      · rw [if_neg hmem, if_neg fun hm => (List.mem_cons.mp hm).elim hp hmem]
  · rw [h'.spare p fun hm => hp (List.mem_cons_of_mem _ hm)]
    exact h.spare p (mt List.mem_singleton.mp fun heq => hp (heq ▸ List.mem_cons_self))
  · have hcount : phyAddrs.countP (fun p => isFromReboot || !(u.flash.page p).flags.obsolete) =
        phyAddrs.countP fun p => isFromReboot || !(w.flash.page p).flags.obsolete := by
      refine List.countP_congr fun p hp => ?_
      rw [hother p fun heq => hnew (heq ▸ hp)]
    have hone := h.count
    rw [h'.count, hcount, Nat.add_mod, hone, ← Nat.add_mod, List.countP_cons, List.countP_cons]
    congr 1
    rw [List.countP_nil]
    omega

theorem Page.marked_of_obsolete {page : Page} (h : page.flags.obsolete = true) :
    page.marked = page := by
  unfold Page.marked
  rw [← h]

/-- The levels of the counters are kept aside from the count of obsolete pages. -/
theorem wp_countLevel {Q : Nat → World → Prop} {E : Halt → World → Prop} (segId : Nat)
    (hq : ∀ t : World, t.flash = w.flash → t.segMap = w.segMap →
      t.obsCountersMap.counter = w.obsCountersMap.counter → Q 0 t) :
    wp (do
      if getCounterLevel (← get).obsCountersMap segId = obsCountNoObsoletes then do
        changeCounterLevel obsCountLevel0 segId
        pure 0
      else if ← genRandBit (powPagesPerSlot - 3) then do
        incrementCounter segId
        pure 0
      else pure 0 : SeqM Nat) Q E w := by
  rw [wp_bind, wp_get]
  refine wp_ite (fun _ => hq _ rfl rfl rfl) fun _ => ?_
  unfold genRandBit
  rw [wp_bind, wp_bind, wp_get, wp_bind, wp_modify, wp_pure]
  refine wp_ite (fun _ => ?_) fun _ => hq _ rfl rfl rfl
  unfold incrementCounter
  rw [wp_bind, wp_bind, wp_get]
  exact wp_ite (fun _ => hq _ rfl rfl rfl) fun _ => hq _ rfl rfl rfl

/-- One page is marked. -/
theorem markAsObsolete_released {logAddr : LogAddr} {phyAddr : Nat} (isFromReboot : Bool)
    (hfound : logicalAddressToPhysical logAddr w = .ok phyAddr w) (hlt : phyAddr < pageCount)
    (hpower : w.flash.power = none)
    (hspare : (w.flash.page phyAddr).flags.obsolete = false → w.flash.spareWrites phyAddr = false) :
    wp (markAsObsolete logAddr isFromReboot)
      (fun res t => res = 0 ∧ PagesReleased isFromReboot [phyAddr] w t ∧ t.segMap = w.segMap ∧
        t.flash.badEu = w.flash.badEu ∧ t.flash.power = none)
      (fun _ _ => False) w := by
  have hne := ne_empty_of_lt hlt
  unfold markAsObsolete isPageMarkedObsolete
  rw [wp_bind, wp_ok_iff hfound, if_neg hne, wp_bind, wp_bind,
    wp_ok_iff (nandReadPageFlags_run hlt), wp_pure]
  refine wp_ite (fun hobs => ?_) fun hobs => ?_
  · have hsame : ∀ p, w.flash.page p =
        if p ∈ [phyAddr] then (w.flash.page p).marked else w.flash.page p := by
      intro p
      by_cases hp : p ∈ [phyAddr]
      · rw [if_pos hp, List.mem_singleton.mp hp, Page.marked_of_obsolete hobs]
      · rw [if_neg hp]
    have hcount : [phyAddr].countP (fun p => isFromReboot || !(w.flash.page p).flags.obsolete) =
        if isFromReboot then 1 else 0 := by
      rw [List.countP_singleton, hobs, Bool.not_true, Bool.or_false]
    refine wp_ite (fun hreboot => ?_) fun hreboot => ?_
    · rw [if_pos hreboot] at hcount
      exact ⟨rfl, ⟨hsame, fun _ _ => rfl, by rw [hcount]; exact Nat.mod_mod _ _⟩, rfl, rfl, hpower⟩
    · rw [if_neg hreboot] at hcount
      exact ⟨rfl, ⟨hsame, fun _ _ => rfl, by rw [hcount]; rfl⟩, rfl, rfl, hpower⟩
  · have hobs := Bool.eq_false_of_not_eq_true hobs
    have hcount : [phyAddr].countP (fun p => isFromReboot || !(w.flash.page p).flags.obsolete) =
        1 := by
      rw [List.countP_singleton, hobs, Bool.not_false, Bool.or_true, if_pos rfl]
    refine wp_seqVerify ?_
    unfold nandProgramObsoleteByte
    rw [wp_bind, wp_ok_iff (getFp_run hlt), if_neg (by omega), wp_bind, wp_get, wp_bind,
      wp_ok_iff (assert_run (by rw [hspare hobs]; rfl)), wp_bind]
    refine wp_spendPower (fun _ => ?_) fun hp => ?_
    swap
    · rw [hpower] at hp
      cases hp
    unfold modifyFlash increaseObsCount addObsCount modifyObsCounters
    rw [wp_bind, wp_modify, wp_pure, if_neg (not_not_intro rfl), wp_bind, wp_modify]
    refine wp_countLevel logAddr.segment fun t hflash hmap hcounter => ?_
    refine ⟨rfl, ⟨fun p => ?_, fun p hp => ?_, ?_⟩, hmap, by rw [hflash]; rfl, ?_⟩
    · rw [hflash]
      unfold Flash.programObsolete
      dsimp only
      by_cases hp : p = phyAddr
      · rw [hp, if_pos (List.mem_singleton.mpr rfl), Function.update_self]
        rfl
      · rw [if_neg (mt List.mem_singleton.mp hp), Function.update_of_ne hp]
    · rw [hflash]
      exact Function.update_of_ne (mt List.mem_singleton.mpr hp) _ _
    · rw [hcounter, hcount]
      exact Nat.mod_mod _ _
    · rw [hflash]
      show w.flash.power.map (· - 1) = none
      rw [hpower]
      rfl

/-! ## Reading the PREV address -/

/-- At a page of VOTS the block of the page before it is read. -/
theorem readVOTsAndPrev_ofVots {phyAddr before : Nat}
    (hfound : logicalAddressToPhysical logAddr w = .ok phyAddr w) (hlt : phyAddr < pageCount)
    (hvots : (w.flash.page phyAddr).flags.vots = true)
    (hbefore : logicalAddressToPhysical (w.flash.page phyAddr).flags.prev w = .ok before w)
    (hlt' : before < pageCount) : readVOTsAndPrev logAddr true w =
      .ok ⟨0, (w.flash.page phyAddr).flags.prev, true, some (w.flash.page before).main⟩ w := by
  have hne : ∀ a, a < pageCount → decide (a ≠ phyAddressEmpty) = true :=
    fun a ha => decide_eq_true (ne_empty_of_lt ha)
  have hread : readBlock (w.flash.page phyAddr).flags.prev w =
      .ok (some (w.flash.page before).main) w := by
    unfold readBlock
    rw [bind_ok hbefore, bind_ok (assert_run (hne _ hlt')), bind_ok (nandReadPageTotal_run hlt')]
    rfl
  unfold readVOTsAndPrev
  rw [bind_ok hfound, bind_ok (assert_run (hne _ hlt)), bind_ok (nandReadPageFlags_run hlt),
    if_pos hvots, if_pos rfl, bind_ok hread]
  rfl

/-- At a page of data no block is read. -/
theorem readVOTsAndPrev_ofData {phyAddr : Nat}
    (hfound : logicalAddressToPhysical logAddr w = .ok phyAddr w) (hlt : phyAddr < pageCount)
    (hvots : (w.flash.page phyAddr).flags.vots = false) : readVOTsAndPrev logAddr true w =
      .ok ⟨0, (w.flash.page phyAddr).flags.prev, false, none⟩ w := by
  unfold readVOTsAndPrev
  rw [bind_ok hfound, bind_ok (assert_run (decide_eq_true (ne_empty_of_lt hlt))),
    bind_ok (nandReadPageFlags_run hlt), hvots]
  rfl

/-- Both the page and, for a page of VOTS, the one before it are found. -/
theorem readVOTsAndPrev_run {phyAddr : Nat}
    (hfound : logicalAddressToPhysical logAddr w = .ok phyAddr w) (hlt : phyAddr < pageCount)
    (hprev : (w.flash.page phyAddr).flags.vots = true → ∃ before,
      logicalAddressToPhysical (w.flash.page phyAddr).flags.prev w = .ok before w ∧
        before < pageCount) :
    ∃ read : VOTsAndPrev, readVOTsAndPrev logAddr true w = .ok read w ∧ read.err = 0 ∧
      read.prev = (w.flash.page phyAddr).flags.prev := by
  cases hvots : (w.flash.page phyAddr).flags.vots with
  | true =>
    obtain ⟨before, hbefore, hlt'⟩ := hprev hvots
    exact ⟨_, readVOTsAndPrev_ofVots hfound hlt hvots hbefore hlt', rfl, rfl⟩
  | false => exact ⟨_, readVOTsAndPrev_ofData hfound hlt hvots, rfl, rfl⟩

/-- Nothing is at the empty address. -/
theorem wp_logicalAddressToPhysical_empty {Q : Nat → World → Prop} :
    wp (logicalAddressToPhysical LogAddr.empty) Q (fun _ _ => True) w := by
  unfold logicalAddressToPhysical
  rw [wp_bind, wp_getSegMap, wp_bind]
  refine wp_assert (fun _ => ?_) trivial
  rw [wp_bind]
  refine wp_assert (fun hoff => ?_) trivial
  have hoff : LogAddr.empty.offset < pagesPerSlot := of_decide_eq_true hoff
  have hle := pagesPerSlot_le
  have hempty : LogAddr.empty.offset = 0xfff := rfl
  omega

/-- The block of the first page of a transaction, if it is of VOTS, is read from nowhere. -/
theorem readVOTsAndPrev_halts {phyAddr : Nat}
    (hfound : logicalAddressToPhysical logAddr w = .ok phyAddr w)
    (hvots : (w.flash.page phyAddr).flags.vots = true)
    (hprev : (w.flash.page phyAddr).flags.prev = LogAddr.empty) :
    wp (readVOTsAndPrev logAddr true) (fun _ _ => False) (fun _ _ => True) w := by
  unfold readVOTsAndPrev
  rw [wp_bind, wp_ok_iff hfound, wp_bind]
  refine wp_assert (fun _ => ?_) trivial
  rw [wp_bind]
  refine wp_nandReadPageFlags (fun _ => ?_) trivial
  dsimp only
  rw [if_pos hvots, if_pos rfl, hprev, wp_bind]
  unfold readBlock
  rw [wp_bind]
  exact wp_logicalAddressToPhysical_empty

end Chains

/-! ## The cache -/

section Cache
variable {q : CacheQueue} {tid : Int} {cid : Nat}

omit [Config] in
theorem CacheQueue.initTid_caches (cid' : Nat) : (q.initTid tid cid).caches cid' =
    if cid' = cid ∧ (q.caches cid).tid = tid then ⟨-1, false, LogAddr.empty⟩
    else q.caches cid' := by
  unfold CacheQueue.initTid
  by_cases htid : (q.caches cid).tid = tid
  · rw [if_pos htid]
    have hcaches : ((if (q.caches cid).isDirty then
        { q with dirtyCount := q.dirtyCount - 1 } else q).removeFromLru cid).caches =
          q.caches := by
      by_cases hd : (q.caches cid).isDirty = true
      · rw [if_pos hd]
        rfl
      · rw [if_neg hd]
        rfl
    unfold CacheQueue.initByCid
    dsimp only
    rw [hcaches]
    by_cases hc : cid' = cid
    · rw [hc, Function.update_self, if_pos ⟨rfl, htid⟩]
    · rw [Function.update_of_ne hc, if_neg fun h => hc h.1]
  · rw [if_neg htid, if_neg fun h => htid h.2]

omit [Config] in
theorem CacheQueue.mem_lru_initTid {cid' : Nat} (h : cid' ∈ (q.initTid tid cid).lru) :
    cid' ∈ q.lru := by
  unfold CacheQueue.initTid at h
  by_cases htid : (q.caches cid).tid = tid
  · rw [if_pos htid] at h
    have herase := List.mem_of_mem_erase h
    by_cases hd : (q.caches cid).isDirty = true
    · rwa [if_pos hd] at herase
    · rwa [if_neg hd] at herase
  · rwa [if_neg htid] at h

omit [Config] in
/-- After the buffers `cids` of a transaction are freed, the dirty ones left in use are those that
were in use before and are not of the transaction. -/
theorem CacheQueue.dirty_foldl {cids : List Nat} {cid' : Nat}
    (hmem : cid' ∈ (cids.foldl (CacheQueue.initTid tid) q).lru)
    (hdirty : ((cids.foldl (CacheQueue.initTid tid) q).caches cid').isDirty = true) :
    cid' ∈ q.lru ∧ (cids.foldl (CacheQueue.initTid tid) q).caches cid' = q.caches cid' ∧
      ¬(cid' ∈ cids ∧ (q.caches cid').tid = tid) := by
  induction cids generalizing q with
  | nil => exact ⟨hmem, rfl, fun h => absurd h.1 List.not_mem_nil⟩
  | cons cid cids ih =>
    obtain ⟨hin, hsame, hnot⟩ := ih hmem hdirty
    rw [List.foldl_cons] at hdirty ⊢
    rw [hsame] at hdirty ⊢
    rw [CacheQueue.initTid_caches] at hdirty hnot ⊢
    by_cases hfreed : cid' = cid ∧ (q.caches cid).tid = tid
    · rw [if_pos hfreed] at hdirty
      exact absurd hdirty Bool.false_ne_true
    · rw [if_neg hfreed] at hdirty hnot ⊢
      refine ⟨CacheQueue.mem_lru_initTid hin, rfl, fun h => ?_⟩
      rcases List.mem_cons.mp h.1 with rfl | hcids
      · exact hfreed ⟨rfl, h.2⟩
      · exact hnot ⟨hcids, h.2⟩

/-- No dirty buffer holds one of the pages. -/
def CacheQueue.NoneDirty (q : CacheQueue) (pages : List (LogAddr × Nat)) : Prop :=
  ∀ cid ∈ q.lru, (q.caches cid).isDirty = true → ∀ p ∈ pages, (q.caches cid).logAddr ≠ p.1

theorem wp_cacheFreeByRealAddr {s : CachingWorld} {pages : List (LogAddr × Nat)}
    {p : LogAddr × Nat} (hp : p ∈ pages) (h : s.cache.NoneDirty pages) :
    wp (cacheFreeByRealAddr p.1)
      (fun res t => res = 0 ∧ t.world = s.world ∧ t.cache.NoneDirty pages) (fun _ _ => False) s := by
  unfold cacheFreeByRealAddr
  rw [wp_bind, wp_get]
  dsimp only
  cases hcid : s.cache.getCidByRealAddr p.1 with
  | none => exact ⟨rfl, rfl, h⟩
  | some cid =>
    have hfind : s.cache.lru.find? (fun cid => (s.cache.caches cid).logAddr == p.1) = some cid := by
      unfold CacheQueue.getCidByRealAddr at hcid
      by_cases hempty : isAddressEmpty p.1 = true
      · rw [if_pos hempty] at hcid
        cases hcid
      · rwa [if_neg hempty] at hcid
    have hmem := List.mem_of_find?_eq_some hfind
    have hfits := List.find?_some hfind
    have haddr : (s.cache.caches cid).logAddr = p.1 := beq_iff_eq.mp hfits
    dsimp only
    refine wp_ite (fun hdirty => absurd haddr (h cid hmem hdirty p hp)) fun _ => ?_
    rw [wp_bind, wp_modify]
    refine ⟨rfl, rfl, fun cid' hin hdirty => ?_⟩
    have hin : cid' ∈ s.cache.lru := List.mem_of_mem_erase hin
    have hcaches : ((s.cache.removeFromLru cid).initByCid cid).caches cid' =
        if cid' = cid then ⟨-1, false, LogAddr.empty⟩ else s.cache.caches cid' := by
      by_cases hc : cid' = cid
      · rw [hc, if_pos rfl]
        exact Function.update_self _ _ _
      · rw [if_neg hc]
        exact Function.update_of_ne hc _ _
    dsimp only at hdirty ⊢
    rw [hcaches] at hdirty ⊢
    by_cases hc : cid' = cid
    · rw [if_pos hc] at hdirty
      exact absurd hdirty Bool.false_ne_true
    · rw [if_neg hc] at hdirty ⊢
      exact h cid' hin hdirty

end Cache

/-! ## The walk -/

section Walk
variable {s : CachingWorld} {logAddr : LogAddr} {pages : List (LogAddr × Nat)}

theorem PagesReleased.samePlaces {isFromReboot : Bool} {phyAddrs : List Nat} {w t : World}
    (h : PagesReleased isFromReboot phyAddrs w t) (hmap : t.segMap = w.segMap)
    (hbad : t.flash.badEu = w.flash.badEu) : SamePlaces w t := by
  have hpage : ∀ p, t.flash.page p = w.flash.page p ∨ t.flash.page p = (w.flash.page p).marked := by
    intro p
    rw [h.page]
    by_cases hp : p ∈ phyAddrs
    · exact .inr (if_pos hp)
    · exact .inl (if_neg hp)
  refine ⟨hmap, hbad, fun p => ?_, fun p => ?_⟩ <;> rcases hpage p with hp | hp <;> rw [hp] <;> rfl

theorem PagesReleased.prev {isFromReboot : Bool} {phyAddrs : List Nat} {w t : World}
    (h : PagesReleased isFromReboot phyAddrs w t) (p : Nat) :
    (t.flash.page p).flags.prev = (w.flash.page p).flags.prev ∧
      (t.flash.page p).flags.vots = (w.flash.page p).flags.vots := by
  rw [h.page]
  by_cases hp : p ∈ phyAddrs
  · rw [if_pos hp]
    exact ⟨rfl, rfl⟩
  · rw [if_neg hp]
    exact ⟨rfl, rfl⟩

theorem StartsWithData.rest {isFromReboot : Bool} {phyAddrs : List Nat} {w t : World}
    {p : LogAddr × Nat} (hstart : StartsWithData w (p :: pages))
    (h : PagesReleased isFromReboot phyAddrs w t) : StartsWithData t pages := by
  intro p hp hprev
  obtain ⟨hprev', hvots'⟩ := h.prev p.2
  rw [hprev'] at hprev
  rw [hvots']
  exact hstart p (List.mem_cons_of_mem _ hp) hprev

/-- What holds of the pages that are still to be released. -/
structure Releasable (s : CachingWorld) (logAddr : LogAddr) (pages : List (LogAddr × Nat)) :
    Prop where
  chain : PageChain s.world logAddr pages
  powered : s.world.flash.power = none
  markable : ∀ p ∈ pages, (s.world.flash.page p.2).flags.obsolete = false →
    s.world.flash.spareWrites p.2 = false
  noneDirty : s.cache.NoneDirty pages

/-- The first page is marked and what follows it can be released. -/
theorem Releasable.mark {phyAddr : Nat} (isFromReboot : Bool)
    (h : Releasable s logAddr ((logAddr, phyAddr) :: pages)) :
    ∃ t, trMarkAsObsolete logAddr isFromReboot s = .ok 0 t ∧
      PagesReleased isFromReboot [phyAddr] s.world t.world ∧
      SamePlaces s.world t.world ∧
      Releasable t (s.world.flash.page phyAddr).flags.prev pages := by
  obtain ⟨hnew, -⟩ := List.nodup_cons.mp h.chain.nodup
  have hchain := h.chain
  cases hchain with
  | cons nonempty found lt rest =>
    have hwp : wp (trMarkAsObsolete logAddr isFromReboot)
        (fun res t => res = 0 ∧ PagesReleased isFromReboot [phyAddr] s.world t.world ∧
          t.world.segMap = s.world.segMap ∧ t.world.flash.badEu = s.world.flash.badEu ∧
          t.world.flash.power = none ∧ t.cache.NoneDirty ((logAddr, phyAddr) :: pages))
        (fun _ _ => False) s := by
      unfold trMarkAsObsolete inWorld
      rw [wp_bind, wp_onPart]
      refine wp_mono (markAsObsolete_released isFromReboot found lt h.powered
        (h.markable _ List.mem_cons_self)) ?_ fun _ _ hfalse => hfalse
      rintro res w ⟨rfl, hreleased, hmap, hbad, hpower⟩
      rw [if_neg (not_not_intro rfl), wp_bind]
      refine wp_mono (wp_cacheFreeByRealAddr (p := (logAddr, phyAddr)) List.mem_cons_self
        h.noneDirty) ?_ fun _ _ hfalse => hfalse
      rintro res t ⟨rfl, hworld, hnone⟩
      rw [if_neg (not_not_intro rfl)]
      refine ⟨rfl, ?_⟩
      rw [hworld]
      exact ⟨hreleased, hmap, hbad, hpower, hnone⟩
    obtain ⟨res, t, hrun, rfl, hreleased, hmap, hbad, hpower, hnone⟩ := exists_of_wp hwp
    have hsame := hreleased.samePlaces hmap hbad
    have hother : ∀ p ∈ pages, p.2 ∉ [phyAddr] := fun p hp hin =>
      hnew (List.mem_map.mpr ⟨p, hp, List.mem_singleton.mp hin⟩)
    refine ⟨t, hrun, hreleased, hsame, ⟨rest.congr hsame fun p => (hreleased.prev p).1, hpower,
      fun p hp hobs => ?_, fun cid hcid hd p hp => hnone cid hcid hd p (List.mem_cons_of_mem _ hp)⟩⟩
    rw [hreleased.page, if_neg (hother p hp)] at hobs
    rw [hreleased.spare _ (hother p hp)]
    exact h.markable p (List.mem_cons_of_mem _ hp) hobs

theorem inWorld_run {α : Type} {m : SeqM α} {a : α} (h : m s.world = .ok a s.world) :
    inWorld m s = .ok a s := by
  unfold inWorld onPart
  rw [h]

/-- A turn of the loop that reads the PREV address of a page. -/
theorem deletePages_turn (isFromReboot : Bool) (n : Nat) {phyAddr : Nat}
    (h : Releasable s logAddr ((logAddr, phyAddr) :: pages))
    (hvots : (s.world.flash.page phyAddr).flags.prev = LogAddr.empty →
      (s.world.flash.page phyAddr).flags.vots = false) :
    ∃ t, deletePages isFromReboot (n + 1) logAddr s =
        deletePages isFromReboot n (s.world.flash.page phyAddr).flags.prev t ∧
      PagesReleased isFromReboot [phyAddr] s.world t.world ∧
      Releasable t (s.world.flash.page phyAddr).flags.prev pages := by
  obtain ⟨t, hrun, hreleased, hsame, hrest⟩ := h.mark isFromReboot
  obtain ⟨hprev, hvots'⟩ := hreleased.prev phyAddr
  have hchain := h.chain
  cases hchain with
  | cons nonempty found lt rest =>
    have hbefore : (t.world.flash.page phyAddr).flags.vots = true → ∃ before,
        logicalAddressToPhysical (t.world.flash.page phyAddr).flags.prev t.world =
          .ok before t.world ∧ before < pageCount := by
      intro hv
      rw [hvots'] at hv
      rw [hprev]
      exact hrest.chain.found fun hempty => Bool.false_ne_true ((hvots hempty).symm.trans hv)
    obtain ⟨read, hread, herr, hreadPrev⟩ :=
      readVOTsAndPrev_run (hsame.logicalAddressToPhysical found) lt hbefore
    refine ⟨t, ?_, hreleased, hrest⟩
    conv_lhs => rw [deletePages]
    rw [isAddrEmpty_eq_false.mpr nonempty, if_neg Bool.false_ne_true, bind_ok hrun,
      if_neg (not_not_intro rfl), bind_ok (inWorld_run hread), herr, if_neg (not_not_intro rfl),
      hreadPrev, hprev]

theorem deletePages_released {isFromReboot : Bool} {n : Nat} (h : Releasable s logAddr pages)
    (hstart : StartsWithData s.world pages) (hn : pages.length < n) :
    ∃ t, deletePages isFromReboot n logAddr s = .ok (some 0) t ∧
      PagesReleased isFromReboot (pages.map Prod.snd) s.world t.world := by
  induction pages generalizing logAddr s n with
  | nil =>
    obtain ⟨n, rfl⟩ : ∃ m, n = m + 1 := ⟨n - 1, by omega⟩
    have hchain := h.chain
    cases hchain
    exact ⟨s, rfl, .nil isFromReboot s.world⟩
  | cons p pages ih =>
    obtain ⟨n, rfl⟩ : ∃ m, n = m + 1 := ⟨n - 1, by omega⟩
    obtain ⟨hnew, -⟩ := List.nodup_cons.mp h.chain.nodup
    obtain ⟨addr, phyAddr⟩ := p
    obtain rfl : addr = logAddr := by
      have hchain := h.chain
      cases hchain
      rfl
    obtain ⟨u, hturn, hfirst, hrest⟩ :=
      deletePages_turn isFromReboot n h (hstart _ List.mem_cons_self)
    obtain ⟨t, hrun, hreleased⟩ := ih hrest (hstart.rest hfirst) (Nat.lt_of_succ_lt_succ hn)
    exact ⟨t, hturn.trans hrun, .cons hnew hfirst hreleased⟩

/-- A transaction whose first page is of VOTS is not released. -/
theorem deletePages_halts {isFromReboot : Bool} {n : Nat} (h : Releasable s logAddr pages)
    (hstart : ¬StartsWithData s.world pages) (hn : pages.length < n) :
    wp (deletePages isFromReboot n logAddr) (fun _ _ => False) (fun _ _ => True) s := by
  induction pages generalizing logAddr s n with
  | nil => exact absurd (fun p hp => absurd hp List.not_mem_nil) hstart
  | cons p pages ih =>
    obtain ⟨n, rfl⟩ : ∃ m, n = m + 1 := ⟨n - 1, by omega⟩
    obtain ⟨addr, phyAddr⟩ := p
    obtain rfl : addr = logAddr := by
      have hchain := h.chain
      cases hchain
      rfl
    by_cases hfirst : (s.world.flash.page phyAddr).flags.prev = LogAddr.empty →
        (s.world.flash.page phyAddr).flags.vots = false
    · -- this page does no harm, so a later one does
      obtain ⟨u, hturn, hreleased, hrest⟩ := deletePages_turn isFromReboot n h hfirst
      have hstart' : ¬StartsWithData u.world pages := by
        intro hall
        refine hstart fun p hp hprev => ?_
        rcases List.mem_cons.mp hp with rfl | hp
        · exact hfirst hprev
        · obtain ⟨hprev', hvots'⟩ := hreleased.prev p.2
          rw [← hvots']
          exact hall p hp (hprev'.trans hprev)
      have hhalts := ih hrest hstart' (Nat.lt_of_succ_lt_succ hn)
      unfold wp at hhalts ⊢
      rwa [hturn]
    · obtain ⟨hempty, hvots⟩ := Classical.not_imp.mp hfirst
      have hvots := Bool.eq_true_of_not_eq_false hvots
      obtain ⟨t, hrun, hreleased, hsame, -⟩ := h.mark isFromReboot
      obtain ⟨hprev', hvots'⟩ := hreleased.prev phyAddr
      have hchain := h.chain
      cases hchain with
      | cons nonempty found lt rest =>
        unfold deletePages
        rw [isAddrEmpty_eq_false.mpr nonempty, if_neg Bool.false_ne_true, wp_bind, wp_ok_iff hrun,
          if_neg (not_not_intro rfl), wp_bind]
        unfold inWorld
        rw [wp_onPart]
        refine wp_mono (readVOTsAndPrev_halts (hsame.logicalAddressToPhysical found)
          (hvots'.trans hvots) (hprev'.trans hempty)) (fun _ _ hfalse => hfalse.elim)
          fun _ _ _ => trivial

/-- Freeing the buffers of the transaction leaves no dirty buffer with one of its pages. -/
theorem Abortable.releasable {nBuffers : Nat} {tid : Int}
    (h : Abortable s nBuffers tid logAddr pages) :
    Releasable { s with cache := s.cache.initTidRelated nBuffers tid } logAddr pages := by
  refine ⟨h.chain, h.powered, h.markable, fun cid hcid hdirty p hp => ?_⟩
  obtain ⟨hin, hsame, hnot⟩ := CacheQueue.dirty_foldl hcid hdirty
  have hcaches : (s.cache.initTidRelated nBuffers tid).caches cid = s.cache.caches cid := hsame
  dsimp only at hdirty ⊢
  rw [hcaches] at hdirty ⊢
  rcases h.clean cid hin hdirty with ⟨hlt, htid⟩ | hclean
  · exact absurd ⟨List.mem_range.mpr hlt, htid⟩ hnot
  · exact hclean p hp

end Walk

/-- `deleteTransactionPages` returns 0, however long the chain, and has marked the pages of the
chain and no other. -/
def AbortReleases (s : CachingWorld) (nBuffers : Nat) (tid : Int) (logAddr : LogAddr)
    (isFromReboot : Bool) (pages : List (LogAddr × Nat)) : Prop :=
  ∀ turns, pages.length < turns →
    ∃ t, deleteTransactionPages turns nBuffers logAddr tid isFromReboot s = .ok (some 0) t ∧
      (pages.map Prod.snd).Nodup ∧
        PagesReleased isFromReboot (pages.map Prod.snd) s.world t.world

/-- A transaction is released if and only if its first page, the one with no PREV address, is no
page of VOTS. -/
theorem abortReleases_iff {s : CachingWorld} {nBuffers : Nat} {tid : Int} {logAddr : LogAddr}
    {pages : List (LogAddr × Nat)} (isFromReboot : Bool)
    (h : Abortable s nBuffers tid logAddr pages) :
    AbortReleases s nBuffers tid logAddr isFromReboot pages ↔ StartsWithData s.world pages := by
  constructor
  · intro hreleases
    by_contra hstart
    obtain ⟨t, hrun, -⟩ := hreleases _ (Nat.lt_succ_self _)
    have hhalts : wp (deleteTransactionPages (pages.length + 1) nBuffers logAddr tid isFromReboot)
        (fun _ _ => False) (fun _ _ => True) s := by
      unfold deleteTransactionPages
      rw [wp_bind, wp_modify]
      exact deletePages_halts h.releasable hstart (Nat.lt_succ_self _)
    exact of_wp_ok hhalts hrun
  · intro hstart turns hturns
    obtain ⟨t, hrun, hreleased⟩ := deletePages_released h.releasable hstart hturns
    exact ⟨t, hrun, h.chain.nodup, hreleased⟩

end Abort

section TinyPage
attribute [local instance] tinyPage

/-- A transaction has written a page of data at ⟨1, 1⟩ and a page of VOTS after it. -/
def twoPages : CachingWorld where
  world :=
    let erased := erasedWorld fun _ => false
    let first : Page := ⟨fun _ => 0, { initFlags with segType := .used }⟩
    let second : Page := ⟨fun _ => 0, { initFlags with
      segType := .used, vots := true, prev := ⟨1, 1⟩ }⟩
    { erased with
      flash := (erased.flash.program first 9 false).program second 10 false
      segMap := { erased.segMap with segToSlot := id } }
  cache := ⟨fun _ => ⟨-1, false, LogAddr.empty⟩, [], 0⟩

theorem abortReleases_tinyPage :
    AbortReleases twoPages 0 0 ⟨1, 2⟩ false [(⟨1, 2⟩, 10), (⟨1, 1⟩, 9)] := by
  have hchain : PageChain twoPages.world ⟨1, 2⟩ [(⟨1, 2⟩, 10), (⟨1, 1⟩, 9)] :=
    .cons (by decide) rfl (by decide) (.cons (by decide) rfl (by decide) .nil)
  refine (abortReleases_iff false ⟨hchain, rfl, by decide, fun cid hcid => ?_⟩).mpr ?_
  · exact absurd hcid List.not_mem_nil
  · unfold StartsWithData
    decide

/-- A transaction has written one page only, of VOTS. -/
def onePage : CachingWorld :=
  { twoPages with
    world := { twoPages.world with
      flash := (erasedWorld fun _ => false).flash.program
        ⟨fun _ => 0, { initFlags with segType := .used, vots := true }⟩ 9 false } }

theorem abortReleases_fails : ¬∀ (s : CachingWorld) (nBuffers : Nat) (tid : Int)
    (logAddr : LogAddr) (isFromReboot : Bool) (pages : List (LogAddr × Nat)),
    Abortable s nBuffers tid logAddr pages →
      AbortReleases s nBuffers tid logAddr isFromReboot pages := by
  intro h
  have hchain : PageChain onePage.world ⟨1, 1⟩ [(⟨1, 1⟩, 9)] :=
    .cons (by decide) rfl (by decide) .nil
  obtain ⟨t, hrun, -⟩ := h onePage 0 0 ⟨1, 1⟩ false _
    ⟨hchain, rfl, by decide, fun cid hcid => absurd hcid List.not_mem_nil⟩ 2 (by decide)
  have hhalts : (match deleteTransactionPages 2 0 ⟨1, 1⟩ 0 false onePage with
      | .ok _ _ => false
      | .error _ _ => true) = true := by decide +kernel
  rw [hrun] at hhalts
  exact Bool.false_ne_true hhalts

end TinyPage

end NandFs
