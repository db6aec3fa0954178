import NandFs.CopyBack
import NandFs.RedoLog
import NandFs.TransactionAbort

/-! # Replaying the votes of a transaction

When a transaction is closed, `handleTransactionVOTs` walks its pages from the last one written
and marks what its pages of VOTS vote for, and then these pages.  The checkpoint names the last
page of the transaction until this is done, so that a boot after a power loss walks the same pages
again from the start, where they are found then.  Marking is redone without harm: whatever was
interrupted, and how often, the pages end up as one walk would have left them.
-/
namespace NandFs

open Program Config RedoLog

/-! ## Pages that have moved -/

/-- Pages that were moved, each to its `place`. -/
def relocated (place : Nat → Nat) (pages : List (LogAddr × Nat)) : List (LogAddr × Nat) :=
  pages.map fun p => (p.1, place p.2)

section Relocated
variable {place next : Nat → Nat} {pages more : List (LogAddr × Nat)}

theorem map_fst_relocated : (relocated place pages).map Prod.fst = pages.map Prod.fst :=
  List.map_map

theorem map_snd_relocated :
    (relocated place pages).map Prod.snd = (pages.map Prod.snd).map place := by
  unfold relocated
  rw [List.map_map, List.map_map]
  rfl

theorem length_relocated : (relocated place pages).length = pages.length := List.length_map _

theorem relocated_append :
    relocated place (pages ++ more) = relocated place pages ++ relocated place more :=
  List.map_append

theorem relocated_relocated :
    relocated next (relocated place pages) = relocated (next ∘ place) pages :=
  List.map_map

theorem relocated_id : relocated id pages = pages := List.map_id _

end Relocated

section Replay
variable [Config]

/-! ## The calls -/

/-- The loop of `performVOTs` over the numbers of the addresses in the block. -/
def performVotsLoop (vots : Block) (isFromReboot : Bool) : List Nat → TrM Int
  | [] => pure 0
  | i :: is => do
    let logAddr := blockGetIndex vots i
    if isAddrEmpty logAddr then pure 0
    else if (← trMarkAsObsolete logAddr isFromReboot) ≠ 0 then pure (-1)
    else performVotsLoop vots isFromReboot is

/-- `performVOTs` -/
def performVOTs (vots : Block) (isFromReboot : Bool) : TrM Int :=
  performVotsLoop vots isFromReboot (List.range logAddressesPerBlock)

/-- The loop of `handleTransactionVOTs`, for at most `n` turns: `none` is that it goes on.  What
`readVOTsAndPrev` reads to `fs_buffer` is there if the page is one of VOTS. -/
def handlePages (isFromReboot : Bool) : Nat → LogAddr → TrM (Option Int)
  | 0, _ => pure none
  | n + 1, logAddr => do
    if isAddrEmpty logAddr then pure (some 0)
    else do
      let read ← inWorld (readVOTsAndPrev logAddr false)
      if read.err ≠ 0 then pure (some (-1))
      else match read.vots with
        | none => handlePages isFromReboot n read.prev
        | some vots => do
          let res ← performVOTs vots isFromReboot
          if res ≠ 0 then pure (some res)
          else if (← trMarkAsObsolete logAddr isFromReboot) ≠ 0 then pure (some (-1))
          else handlePages isFromReboot n read.prev

/-- `handleTransactionVOTs`, for at most `turns` turns of its loop -/
def handleTransactionVOTs (turns : Nat) (tidLastAddr : LogAddr) (isFromReboot : Bool) :
    TrM (Option Int) :=
  handlePages isFromReboot turns tidLastAddr

/-! ## What is marked -/

/-- The votes in a block: the addresses before the first empty one. -/
def Block.votes (b : Block) : List LogAddr :=
  ((List.range logAddressesPerBlock).map (blockGetIndex b)).takeWhile (!isAddrEmpty ·)

/-- What a page of a transaction has marked: nothing, or its votes and then the page. -/
def Page.voted (page : Page) (logAddr : LogAddr) : List LogAddr :=
  if page.flags.vots then page.main.votes ++ [logAddr] else []

/-- What the pages of a transaction have marked. -/
def votedBy (w : World) (pages : List (LogAddr × Nat)) : List LogAddr :=
  pages.flatMap fun p => (w.flash.page p.2).voted p.1

/-- The obsolete byte of a page is programmed, if it is not. -/
def markPage : Nat → (Nat → Page) → Nat → Page := touch Page.marked

/-- How much the count of obsolete pages grows while the pages `phyAddrs` are marked: by one for
each that was not marked before or, after a reboot, for each. -/
def marksCounted (isFromReboot : Bool) : List Nat → (Nat → Page) → Nat
  | [], _ => 0
  | p :: ps, pages => (if isFromReboot || !(pages p).flags.obsolete then 1 else 0) +
      marksCounted isFromReboot ps (markPage p pages)

/-- From `w` to `t` the pages `phyAddrs` were marked, one after the other. -/
structure PagesMarked (isFromReboot : Bool) (phyAddrs : List Nat) (w t : World) : Prop where
  page : t.flash.page = replay markPage phyAddrs w.flash.page
  spare : ∀ p ∉ phyAddrs, t.flash.spareWrites p = w.flash.spareWrites p
  count : t.obsCountersMap.counter % 2 ^ 32 =
    (w.obsCountersMap.counter + marksCounted isFromReboot phyAddrs w.flash.page) % 2 ^ 32
  segMap : t.segMap = w.segMap
  badEu : t.flash.badEu = w.flash.badEu
  powered : w.flash.power = none → t.flash.power = none

section Marked
variable {isFromReboot : Bool} {ps qs : List Nat} {w t u : World} {p : Nat}

theorem Page.marked_marked (page : Page) : page.marked.marked = page.marked := rfl

theorem redo_markPage : Redo markPage := redo_touch Page.marked_marked

theorem marksCounted_append {pages : Nat → Page} : marksCounted isFromReboot (ps ++ qs) pages =
    marksCounted isFromReboot ps pages +
      marksCounted isFromReboot qs (replay markPage ps pages) := by
  induction ps generalizing pages with
  | nil => exact (Nat.zero_add _).symm
  | cons p ps ih =>
    show _ + marksCounted isFromReboot (ps ++ qs) (markPage p pages) = _
    rw [ih, ← Nat.add_assoc]
    rfl

namespace PagesMarked

theorem nil (isFromReboot : Bool) (w : World) : PagesMarked isFromReboot [] w w :=
  ⟨rfl, fun _ _ => rfl, rfl, rfl, rfl, id⟩

theorem trans (h : PagesMarked isFromReboot ps w u) (h' : PagesMarked isFromReboot qs u t) :
    PagesMarked isFromReboot (ps ++ qs) w t := by
  refine ⟨?_, fun p hp => ?_, ?_, h'.segMap.trans h.segMap, h'.badEu.trans h.badEu,
    fun hpower => h'.powered (h.powered hpower)⟩
  · rw [h'.page, h.page, replay_append]
  · rw [h'.spare p fun hm => hp (List.mem_append_right _ hm)]
    exact h.spare p fun hm => hp (List.mem_append_left _ hm)
  · rw [h'.count, Nat.add_mod, h.count, ← Nat.add_mod, h.page, marksCounted_append, Nat.add_assoc]

/-- The pages of the list are marked, the others as they were. -/
theorem page_eq (h : PagesMarked isFromReboot ps w t) (p : Nat) :
    t.flash.page p = if p ∈ ps then (w.flash.page p).marked else w.flash.page p := by
  rw [h.page]
  exact replay_touch Page.marked_marked ps _ p

/-- Nothing but the obsolete bytes differs. -/
theorem same (h : PagesMarked isFromReboot ps w t) (p : Nat) :
    t.flash.page p = w.flash.page p ∨ t.flash.page p = (w.flash.page p).marked := by
  rw [h.page_eq]
  by_cases hp : p ∈ ps
  · exact .inr (if_pos hp)
  · exact .inl (if_neg hp)

theorem samePlaces (h : PagesMarked isFromReboot ps w t) : SamePlaces w t := by
  have hflags : ∀ p, (t.flash.page p).flags.copyBack = (w.flash.page p).flags.copyBack ∧
      (t.flash.page p).flags.slotEuOffset = (w.flash.page p).flags.slotEuOffset := by
    intro p
    rcases h.same p with hp | hp
    · rw [hp]
      exact ⟨rfl, rfl⟩
    · rw [hp]
      exact ⟨rfl, rfl⟩
  exact ⟨h.segMap, h.badEu, fun p => (hflags p).1, fun p => (hflags p).2⟩

theorem voted (h : PagesMarked isFromReboot ps w t) (p : Nat) (logAddr : LogAddr) :
    (t.flash.page p).voted logAddr = (w.flash.page p).voted logAddr := by
  rcases h.same p with hp | hp
  · rw [hp]
  · rw [hp]
    rfl

theorem votedBy (h : PagesMarked isFromReboot ps w t) (pages : List (LogAddr × Nat)) :
    NandFs.votedBy t pages = NandFs.votedBy w pages :=
  List.flatMap_congr fun p _ => h.voted p.2 p.1

theorem chain (h : PagesMarked isFromReboot ps w t) {logAddr : LogAddr}
    {pages : List (LogAddr × Nat)} (hchain : PageChain w logAddr pages) :
    PageChain t logAddr pages := by
  refine hchain.congr h.samePlaces fun p => ?_
  rcases h.same p with hp | hp
  · rw [hp]
  · rw [hp]
    rfl

end PagesMarked

end Marked

/-! ## Marking one page -/

/-- The address is found on the chip, and the page there can be marked, if it is not. -/
structure Markable (w : World) (v : LogAddr × Nat) : Prop where
  found : logicalAddressToPhysical v.1 w = .ok v.2 w
  lt : v.2 < pageCount
  spare : (w.flash.page v.2).flags.obsolete = false → w.flash.spareWrites v.2 = false

section Mark
variable {isFromReboot : Bool} {ps : List Nat} {w t : World} {v : LogAddr × Nat}

theorem Markable.after (hv : Markable w v) (h : PagesMarked isFromReboot ps w t) :
    Markable t v := by
  refine ⟨h.samePlaces.logicalAddressToPhysical hv.found, hv.lt, fun hobs => ?_⟩
  have hnot : v.2 ∉ ps := by
    intro hmem
    rw [h.page_eq, if_pos hmem] at hobs
    exact Bool.false_ne_true hobs.symm
  rw [h.page_eq, if_neg hnot] at hobs
  rw [h.spare v.2 hnot]
  exact hv.spare hobs

/-- The page is marked, or the power is lost before. -/
theorem wp_markAsObsolete_marks (isFromReboot : Bool) (hv : Markable w v) :
    wp (markAsObsolete v.1 isFromReboot)
      (fun res t => res = 0 ∧ PagesMarked isFromReboot [v.2] w t)
      (fun e t => e = .powerLoss ∧ t = w ∧ w.flash.power ≠ none) w := by
  have hne := ne_empty_of_lt hv.lt
  unfold markAsObsolete isPageMarkedObsolete
  rw [wp_bind, wp_ok_iff hv.found, if_neg hne, wp_bind, wp_bind,
    wp_ok_iff (nandReadPageFlags_run hv.lt), wp_pure]
  refine wp_ite (fun hobs => ?_) fun hobs => ?_
  · have hpage : markPage v.2 w.flash.page = w.flash.page := by
      show Function.update w.flash.page v.2 (w.flash.page v.2).marked = w.flash.page
      rw [Page.marked_of_obsolete hobs, Function.update_eq_self]
    have hcount : marksCounted isFromReboot [v.2] w.flash.page =
        if isFromReboot then 1 else 0 := by
      show (if isFromReboot || !(w.flash.page v.2).flags.obsolete then 1 else 0) + 0 = _
      rw [hobs, Bool.not_true, Bool.or_false, Nat.add_zero]
    refine wp_ite (fun hreboot => ?_) fun hreboot => ?_
    · rw [if_pos hreboot] at hcount
      exact ⟨rfl, hpage.symm, fun _ _ => rfl, by rw [hcount]; exact Nat.mod_mod _ _, rfl, rfl,
        id⟩
    · rw [if_neg hreboot] at hcount
      exact ⟨rfl, hpage.symm, fun _ _ => rfl, by rw [hcount]; rfl, rfl, rfl, id⟩
  · have hobs := Bool.eq_false_of_not_eq_true hobs
    have hcount : marksCounted isFromReboot [v.2] w.flash.page = 1 := by
      show (if isFromReboot || !(w.flash.page v.2).flags.obsolete then 1 else 0) + 0 = 1
      rw [hobs, Bool.not_false, Bool.or_true, if_pos rfl]
    refine wp_seqVerify ?_
    unfold nandProgramObsoleteByte
    rw [wp_bind, wp_ok_iff (getFp_run hv.lt), if_neg (by have := hv.lt; omega), wp_bind, wp_get,
      wp_bind, wp_ok_iff (assert_run (by rw [hv.spare hobs]; rfl)), wp_bind]
    refine wp_spendPower (fun _ => ?_) fun hpower => ⟨rfl, rfl, ?_⟩
    swap
    · rw [hpower]
      exact Option.some_ne_none 0
    unfold modifyFlash increaseObsCount addObsCount modifyObsCounters
    rw [wp_bind, wp_modify, wp_pure, if_neg (not_not_intro rfl), wp_bind, wp_modify]
    refine wp_countLevel v.1.segment fun t hflash hmap hcounter => ?_
    refine ⟨rfl, by rw [hflash]; rfl, fun p hp => ?_, ?_, hmap, by rw [hflash]; rfl, fun hp => ?_⟩
    · rw [hflash]
      exact Function.update_of_ne (mt List.mem_singleton.mpr hp) _ _
    · rw [hcounter, hcount]
      exact Nat.mod_mod _ _
    · rw [hflash]
      show w.flash.power.map (· - 1) = none
      rw [hp]
      rfl

end Mark

/-! ## Marking what was voted -/

/-- All votes can be marked, and no dirty buffer holds one of their pages. -/
structure Votable (s : CachingWorld) (votes : List (LogAddr × Nat)) : Prop where
  markable : ∀ v ∈ votes, Markable s.world v
  noneDirty : s.cache.NoneDirty votes

/-- From `s` on the votes `new` of `votes` are marked and the program returns `res`, or the power is
lost after some of them. -/
def MarksVotes {α : Type} (isFromReboot : Bool) (votes new : List (LogAddr × Nat)) (m : TrM α)
    (res : α) (s : CachingWorld) : Prop :=
  wp m (fun r t => r = res ∧ PagesMarked isFromReboot (new.map Prod.snd) s.world t.world ∧
      t.cache.NoneDirty votes)
    (fun e t => e = .powerLoss ∧ s.world.flash.power ≠ none ∧ ∃ pre, pre <+: new ∧
      PagesMarked isFromReboot (pre.map Prod.snd) s.world t.world) s

section Votes
variable {isFromReboot : Bool} {s t : CachingWorld} {votes new more : List (LogAddr × Nat)}
  {α β : Type}

theorem Votable.after {ps : List Nat} (h : Votable s votes)
    (hmarked : PagesMarked isFromReboot ps s.world t.world) (hclean : t.cache.NoneDirty votes) :
    Votable t votes :=
  ⟨fun v hv => (h.markable v hv).after hmarked, hclean⟩

theorem MarksVotes.pure (res : α) (h : s.cache.NoneDirty votes) :
    MarksVotes isFromReboot votes [] (pure res) res s :=
  ⟨rfl, .nil _ _, h⟩

/-- What goes on after some votes are marked marks those after them. -/
theorem MarksVotes.seq {m : TrM α} {f : α → TrM β} {a : α} {res : β} (h : Votable s votes)
    (hm : MarksVotes isFromReboot votes new m a s)
    (hf : ∀ t, PagesMarked isFromReboot (new.map Prod.snd) s.world t.world → Votable t votes →
      MarksVotes isFromReboot votes more (f a) res t) :
    MarksVotes isFromReboot votes (new ++ more) (m >>= f) res s := by
  refine (wp_bind _ _).mpr (wp_mono hm ?_ ?_)
  · rintro r t ⟨rfl, hmarked, hclean⟩
    refine wp_mono (hf t hmarked (h.after hmarked hclean)) ?_ ?_
    · rintro r u ⟨rfl, hmarked', hclean'⟩
      rw [List.map_append]
      exact ⟨rfl, hmarked.trans hmarked', hclean'⟩
    · rintro e u ⟨rfl, hpower, pre, hpre, hmarked'⟩
      refine ⟨rfl, mt hmarked.powered hpower, new ++ pre,
        (List.prefix_append_right_inj new).mpr hpre, ?_⟩
      rw [List.map_append]
      exact hmarked.trans hmarked'
  · rintro e u ⟨rfl, hpower, pre, hpre, hmarked⟩
    exact ⟨rfl, hpower, pre, hpre.trans (List.prefix_append new more), hmarked⟩

theorem trMarkAsObsolete_marks {v : LogAddr × Nat} (h : Votable s votes) (hv : v ∈ votes) :
    MarksVotes isFromReboot votes [v] (trMarkAsObsolete v.1 isFromReboot) 0 s := by
  unfold MarksVotes trMarkAsObsolete inWorld
  rw [wp_bind, wp_onPart]
  refine wp_mono (wp_markAsObsolete_marks isFromReboot (h.markable v hv)) ?_ ?_
  · rintro res w ⟨rfl, hmarked⟩
    rw [if_neg (not_not_intro rfl), wp_bind]
    refine wp_mono (wp_cacheFreeByRealAddr hv h.noneDirty) ?_ fun _ _ hfalse => hfalse.elim
    rintro res t ⟨rfl, hworld, hclean⟩
    rw [if_neg (not_not_intro rfl)]
    refine ⟨rfl, ?_, hclean⟩
    rw [hworld]
    exact hmarked
  · rintro e w ⟨rfl, rfl, hpower⟩
    exact ⟨rfl, hpower, [], List.nil_prefix, .nil _ _⟩

end Votes

/-! ## The walk -/

section Walk
variable {isFromReboot : Bool} {s : CachingWorld} {votes new : List (LogAddr × Nat)}
  {logAddr : LogAddr} {pages : List (LogAddr × Nat)} {vots : Block}

theorem performVotsLoop_marks (h : Votable s votes) (hsub : ∀ v ∈ new, v ∈ votes) {is : List Nat}
    (hnew : new.map Prod.fst = (is.map (blockGetIndex vots)).takeWhile (!isAddrEmpty ·)) :
    MarksVotes isFromReboot votes new (performVotsLoop vots isFromReboot is) 0 s := by
  induction is generalizing s new with
  | nil =>
    obtain rfl := List.map_eq_nil_iff.mp hnew
    exact .pure 0 h.noneDirty
  | cons i is ih =>
    unfold performVotsLoop
    dsimp only
    by_cases hempty : isAddrEmpty (blockGetIndex vots i) = true
    · rw [List.map_cons, List.takeWhile_cons_of_neg (by rw [hempty]; decide)] at hnew
      obtain rfl := List.map_eq_nil_iff.mp hnew
      rw [if_pos hempty]
      exact .pure 0 h.noneDirty
    · have hsome := Bool.eq_false_of_not_eq_true hempty
      rw [List.map_cons, List.takeWhile_cons_of_pos (by rw [hsome]; rfl)] at hnew
      obtain ⟨v, rest, rfl, hv, hrest⟩ := List.map_eq_cons_iff.mp hnew
      obtain ⟨hmem, hsub⟩ := List.forall_mem_cons.mp hsub
      rw [if_neg hempty, ← hv]
      exact .seq h (trMarkAsObsolete_marks h hmem) fun t _ ht => ih ht hsub hrest

/-- A page is read at its own address. -/
theorem readVOTsAndPrev_own {w : World} {phyAddr : Nat}
    (hfound : logicalAddressToPhysical logAddr w = .ok phyAddr w) (hlt : phyAddr < pageCount) :
    readVOTsAndPrev logAddr false w = .ok ⟨0, (w.flash.page phyAddr).flags.prev,
      (w.flash.page phyAddr).flags.vots,
      if (w.flash.page phyAddr).flags.vots then some (w.flash.page phyAddr).main else none⟩ w := by
  have hne := decide_eq_true (ne_empty_of_lt hlt)
  unfold readVOTsAndPrev
  rw [bind_ok hfound, bind_ok (assert_run hne), bind_ok (nandReadPageFlags_run hlt)]
  by_cases hvots : (w.flash.page phyAddr).flags.vots = true
  · have hread : readBlock logAddr w = .ok (some (w.flash.page phyAddr).main) w := by
      unfold readBlock
      rw [bind_ok hfound, bind_ok (assert_run hne), bind_ok (nandReadPageTotal_run hlt)]
      rfl
    rw [if_pos hvots, if_neg Bool.false_ne_true, bind_ok hread, hvots, if_pos rfl]
    rfl
  · rw [if_neg hvots, Bool.eq_false_of_not_eq_true hvots, if_neg Bool.false_ne_true]
    rfl

theorem MarksVotes.congr {α : Type} {m m' : TrM α} {res : α} (hrun : m s = m' s)
    (h : MarksVotes isFromReboot votes new m' res s) :
    MarksVotes isFromReboot votes new m res s :=
  wp_run_congr hrun h

/-- The pages of the transaction are walked from the last one written to the first. -/
theorem handlePages_marks (h : Votable s votes) (hsub : ∀ v ∈ new, v ∈ votes)
    (hchain : PageChain s.world logAddr pages)
    (hnew : new.map Prod.fst = votedBy s.world pages) {n : Nat} (hn : pages.length < n) :
    MarksVotes isFromReboot votes new (handlePages isFromReboot n logAddr) (some 0) s := by
  induction pages generalizing s new logAddr n with
  | nil =>
    obtain ⟨n, rfl⟩ : ∃ m, n = m + 1 := ⟨n - 1, by omega⟩
    cases hchain
    obtain rfl := List.map_eq_nil_iff.mp hnew
    exact .pure (some 0) h.noneDirty
  | cons p pages ih =>
    obtain ⟨n, rfl⟩ : ∃ m, n = m + 1 := ⟨n - 1, by omega⟩
    have hless : pages.length < n := Nat.lt_of_succ_lt_succ hn
    cases hchain with
    | cons nonempty found lt rest =>
      rename_i phyAddr
      have hread := inWorld_run (readVOTsAndPrev_own found lt)
      have hturn : handlePages isFromReboot (n + 1) logAddr s = (match
          if (s.world.flash.page phyAddr).flags.vots
            then some (s.world.flash.page phyAddr).main else none with
        | none => handlePages isFromReboot n (s.world.flash.page phyAddr).flags.prev
        | some vots => do
          let res ← performVOTs vots isFromReboot
          if res ≠ 0 then pure (some res)
          else if (← trMarkAsObsolete logAddr isFromReboot) ≠ 0 then pure (some (-1))
          else handlePages isFromReboot n (s.world.flash.page phyAddr).flags.prev) s := by
        conv_lhs => rw [handlePages]
        rw [isAddrEmpty_eq_false.mpr nonempty, if_neg Bool.false_ne_true, bind_ok hread,
          if_neg (not_not_intro rfl)]
      have hnew : new.map Prod.fst = (s.world.flash.page phyAddr).voted logAddr ++
        votedBy s.world pages := hnew
      refine .congr hturn ?_
      unfold Page.voted at hnew
      by_cases hvots : (s.world.flash.page phyAddr).flags.vots = true
      · rw [if_pos hvots, List.append_assoc] at hnew
        rw [if_pos hvots]
        obtain ⟨first, new', rfl, hfirst, hnew'⟩ := List.map_eq_append_iff.mp hnew
        obtain ⟨v, last, rfl, hv, hlast⟩ := List.map_eq_cons_iff.mp hnew'
        obtain ⟨hsubFirst, hsub'⟩ := List.forall_mem_append.mp hsub
        obtain ⟨hmem, hsubLast⟩ := List.forall_mem_cons.mp hsub'
        refine .seq h (performVotsLoop_marks h hsubFirst hfirst) fun t hmarked ht => ?_
        rw [if_neg (not_not_intro rfl), ← hv]
        refine .seq ht (trMarkAsObsolete_marks ht hmem) fun u hmarked' hu => ?_
        rw [if_neg (not_not_intro rfl)]
        have hboth := hmarked.trans hmarked'
        refine ih hu hsubLast (hboth.chain rest) ?_ hless
        rw [hboth.votedBy]
        exact hlast
      · rw [if_neg hvots, List.nil_append] at hnew
        rw [if_neg hvots]
        exact ih h hsub rest hnew hless

/-- An aborted transaction has its pages marked, from the last one written to the first. -/
theorem deletePages_marks (h : Votable s votes) (hsub : ∀ v ∈ pages, v ∈ votes)
    (hchain : PageChain s.world logAddr pages) (hstart : StartsWithData s.world pages) {n : Nat}
    (hn : pages.length < n) :
    MarksVotes isFromReboot votes pages (deletePages isFromReboot n logAddr) (some 0) s := by
  induction pages generalizing s logAddr n with
  | nil =>
    obtain ⟨n, rfl⟩ : ∃ m, n = m + 1 := ⟨n - 1, by omega⟩
    cases hchain
    exact .pure (some 0) h.noneDirty
  | cons p pages ih =>
    obtain ⟨n, rfl⟩ : ∃ m, n = m + 1 := ⟨n - 1, by omega⟩
    obtain ⟨hmem, hsubPages⟩ := List.forall_mem_cons.mp hsub
    cases hchain with
    | cons nonempty found lt rest =>
      rename_i phyAddr
      unfold deletePages
      rw [isAddrEmpty_eq_false.mpr nonempty, if_neg Bool.false_ne_true]
      refine .seq h (trMarkAsObsolete_marks h hmem) fun t hmarked ht => ?_
      rw [if_neg (not_not_intro rfl)]
      have hflags : ∀ p, (t.world.flash.page p).flags.prev = (s.world.flash.page p).flags.prev ∧
          (t.world.flash.page p).flags.vots = (s.world.flash.page p).flags.vots := by
        intro p
        rcases hmarked.same p with hp | hp
        · rw [hp]
          exact ⟨rfl, rfl⟩
        · rw [hp]
          exact ⟨rfl, rfl⟩
      have hrest := hmarked.chain rest
      have hfirst := (ht.markable _ hmem).found
      -- the block of a VOTS page is read from the page before it
      have hbefore : (t.world.flash.page phyAddr).flags.vots = true → ∃ before,
          logicalAddressToPhysical (t.world.flash.page phyAddr).flags.prev t.world =
            .ok before t.world ∧ before < pageCount := by
        intro hvots
        rw [(hflags _).1]
        refine hrest.found fun hempty => ?_
        rw [(hflags _).2, hstart _ List.mem_cons_self hempty] at hvots
        exact Bool.false_ne_true hvots
      obtain ⟨read, hread, herr, hprev⟩ := readVOTsAndPrev_run hfirst lt hbefore
      have hturn : (do
          let read ← inWorld (readVOTsAndPrev logAddr true)
          if read.err ≠ 0 then pure (some (-1))
          else deletePages isFromReboot n read.prev) t =
            deletePages isFromReboot n read.prev t := by
        rw [bind_ok (inWorld_run hread), if_neg (not_not_intro herr)]
      refine .congr hturn ?_
      rw [hprev, (hflags _).1]
      refine ih ht hsubPages hrest (fun q hq hempty => ?_) (Nat.lt_of_succ_lt_succ hn)
      rw [(hflags _).1] at hempty
      rw [(hflags _).2]
      exact hstart q (List.mem_cons_of_mem _ hq) hempty

end Walk

/-! ## Closing a transaction -/

/-- What the walk relies on: the pages of the transaction are found, and what they vote for can be
marked. -/
structure Replayable (s : CachingWorld) (logAddr : LogAddr) (pages votes : List (LogAddr × Nat)) :
    Prop extends Votable s votes where
  chain : PageChain s.world logAddr pages
  voted : votes.map Prod.fst = votedBy s.world pages

/-- The chip is booted after a power loss: the pages `held` are found and read as they did, each at
a place of its own, wherever the boot has copied them.  Nothing is said of any other page. -/
structure BootedAgain (place : Nat → Nat) (held votes : List (LogAddr × Nat))
    (t u : CachingWorld) : Prop where
  page : ∀ v ∈ held, u.world.flash.page (place v.2) = t.world.flash.page v.2
  found : ∀ v ∈ held,
    logicalAddressToPhysical v.1 u.world = .ok (place v.2) u.world ∧ place v.2 < pageCount
  injective : ∀ v ∈ held, ∀ v' ∈ held, place v.2 = place v'.2 → v.2 = v'.2
  spare : ∀ v ∈ held, u.world.flash.spareWrites (place v.2) = true →
    t.world.flash.spareWrites v.2 = true
  noneDirty : u.cache.NoneDirty (relocated place votes)

/-- The states in which the walk begins: `s` first, and then one for each time that it stopped, with
the places that the pages have come to. -/
inductive BegunAgain (logAddr : LogAddr) (pages votes : List (LogAddr × Nat)) (s : CachingWorld) :
    (Nat → Nat) → CachingWorld → Prop
  | first : BegunAgain logAddr pages votes s id s
  | again {place next : Nat → Nat} {t t' u : CachingWorld} {e : Halt} {turns : Nat}
      {isFromReboot : Bool} (h : BegunAgain logAddr pages votes s place t)
      (enough : pages.length < turns)
      (stop : handleTransactionVOTs turns logAddr isFromReboot t = .error e t')
      (boot : BootedAgain next (relocated place (pages ++ votes)) (relocated place votes) t' u) :
      BegunAgain logAddr pages votes s (next ∘ place) u

section Close
variable {s t t' u : CachingWorld} {logAddr : LogAddr} {pages votes : List (LogAddr × Nat)}
  {turns : Nat} {isFromReboot : Bool} {place next : Nat → Nat}

theorem Replayable.marks (h : Replayable s logAddr pages votes) (hturns : pages.length < turns) :
    MarksVotes isFromReboot votes votes (handleTransactionVOTs turns logAddr isFromReboot)
      (some 0) s :=
  handlePages_marks h.toVotable (fun _ hv => hv) h.chain h.voted hturns

section Moved
variable {w w' : World}

theorem PageChain.relocated (h : PageChain w logAddr pages)
    (hpage : ∀ p ∈ pages, w'.flash.page (place p.2) = w.flash.page p.2)
    (hfound : ∀ p ∈ pages,
      logicalAddressToPhysical p.1 w' = .ok (place p.2) w' ∧ place p.2 < pageCount) :
    PageChain w' logAddr (relocated place pages) := by
  induction h with
  | nil => exact .nil
  | cons nonempty found lt rest ih =>
    obtain ⟨hfirst, hpage⟩ := List.forall_mem_cons.mp hpage
    obtain ⟨⟨found', lt'⟩, hfound⟩ := List.forall_mem_cons.mp hfound
    refine .cons nonempty found' lt' ?_
    rw [hfirst]
    exact ih hpage hfound

theorem votedBy_relocated (hpage : ∀ p ∈ pages, w'.flash.page (place p.2) = w.flash.page p.2) :
    votedBy w' (relocated place pages) = votedBy w pages := by
  unfold votedBy NandFs.relocated
  rw [List.flatMap_map]
  refine List.flatMap_congr fun p hp => ?_
  rw [hpage p hp]

end Moved

/-- After the boot the walk can be made again. -/
theorem Replayable.booted {ps : List Nat} (h : Replayable t logAddr pages votes)
    (hmarked : PagesMarked isFromReboot ps t.world t'.world)
    (boot : BootedAgain place (pages ++ votes) votes t' u) :
    Replayable u logAddr (relocated place pages) (relocated place votes) := by
  obtain ⟨hpages, -⟩ := List.forall_mem_append.mp boot.page
  obtain ⟨hfound, -⟩ := List.forall_mem_append.mp boot.found
  refine ⟨⟨fun moved hmoved => ?_, boot.noneDirty⟩,
    (hmarked.chain h.chain).relocated hpages hfound, ?_⟩
  · obtain ⟨v, hv, rfl⟩ := List.mem_map.mp hmoved
    have hheld := List.mem_append_right pages hv
    refine ⟨(boot.found v hheld).1, (boot.found v hheld).2, fun hobs => ?_⟩
    rw [boot.page v hheld] at hobs
    have hclean := ((h.markable v hv).after hmarked).spare hobs
    exact Bool.eq_false_of_not_eq_true fun hspare =>
      Bool.false_ne_true (hclean.symm.trans (boot.spare v hheld hspare))
  · rw [map_fst_relocated, votedBy_relocated hpages, hmarked.votedBy]
    exact h.voted

/-- Some of the votes are marked where the pages have come to. -/
structure PartlyMarked (s : CachingWorld) (pages votes : List (LogAddr × Nat)) (place : Nat → Nat)
    (t : CachingWorld) : Prop where
  injective : ∀ p ∈ (pages ++ votes).map Prod.snd, ∀ q ∈ (pages ++ votes).map Prod.snd,
    place p = place q → p = q
  page : ∃ done : List Nat, (∀ p ∈ done, p ∈ votes.map Prod.snd) ∧
    ∀ p ∈ (pages ++ votes).map Prod.snd,
      t.world.flash.page (place p) = replay markPage done s.world.flash.page p

namespace PartlyMarked

theorem start : PartlyMarked s pages votes id s :=
  ⟨fun _ _ _ _ h => h, [], fun _ hp => absurd hp List.not_mem_nil, fun _ _ => rfl⟩

/-- Votes that are marked where they have come to are marked besides those that were. -/
theorem page_walk (h : PartlyMarked s pages votes place t) {more : List Nat}
    (hmore : ∀ p ∈ more, p ∈ votes.map Prod.snd)
    (hmarked : u.world.flash.page = replay markPage (more.map place) t.world.flash.page) :
    ∃ done : List Nat, (∀ p ∈ done, p ∈ votes.map Prod.snd) ∧
      ∀ p ∈ (pages ++ votes).map Prod.snd, u.world.flash.page (place p) =
        replay markPage more (replay markPage done s.world.flash.page) p := by
  obtain ⟨done, hdone, hpage⟩ := h.page
  have hheld : ∀ p ∈ more, p ∈ (pages ++ votes).map Prod.snd := by
    intro p hp
    rw [List.map_append]
    exact List.mem_append_right _ (hmore p hp)
  refine ⟨done, hdone, fun p hp => ?_⟩
  calc u.world.flash.page (place p)
      = replay markPage (more.map place) t.world.flash.page (place p) := by rw [hmarked]
    _ = replay markPage more (fun q => t.world.flash.page (place q)) p :=
        replay_touch_moved Page.marked_marked h.injective hheld _ hp
    _ = replay markPage more (replay markPage done s.world.flash.page) p :=
        replay_touch_congr Page.marked_marked more (hpage p hp)

theorem walk (h : PartlyMarked s pages votes place t) {pre : List (LogAddr × Nat)}
    (hpre : pre <+: relocated place votes)
    (hmarked : PagesMarked isFromReboot (pre.map Prod.snd) t.world u.world) :
    PartlyMarked s pages votes place u := by
  obtain ⟨first, hfirst, rfl⟩ := List.prefix_map_iff.mp hpre
  have hmore := (hfirst.map Prod.snd).subset
  obtain ⟨done, hdone, hpage⟩ := h.page_walk hmore
    (hmarked.page.trans (by rw [← map_snd_relocated]; rfl))
  refine ⟨h.injective, done ++ first.map Prod.snd,
    List.forall_mem_append.mpr ⟨hdone, hmore⟩, fun p hp => ?_⟩
  rw [hpage p hp, replay_append]

theorem booted (h : PartlyMarked s pages votes place t)
    (boot : BootedAgain next (relocated place (pages ++ votes)) (relocated place votes) t u) :
    PartlyMarked s pages votes (next ∘ place) u := by
  have hmoved : ∀ p ∈ (pages ++ votes).map Prod.snd,
      ∃ v ∈ relocated place (pages ++ votes), v.2 = place p := by
    intro p hp
    rw [← List.mem_map, map_snd_relocated]
    exact List.mem_map_of_mem hp
  refine ⟨fun p hp q hq hplace => ?_, ?_⟩
  · obtain ⟨v, hv, hp'⟩ := hmoved p hp
    obtain ⟨v', hv', hq'⟩ := hmoved q hq
    have hsame := boot.injective v hv v' hv'
    rw [hp', hq'] at hsame
    exact h.injective p hp q hq (hsame hplace)
  · obtain ⟨done, hdone, hpage⟩ := h.page
    refine ⟨done, hdone, fun p hp => ?_⟩
    obtain ⟨v, hv, hp'⟩ := hmoved p hp
    rw [← hpage p hp, ← hp']
    show u.world.flash.page (next (place p)) = _
    rw [← hp']
    exact boot.page v hv

end PartlyMarked

/-- Wherever the walk stopped, it can be made again where the pages have come to: some of the votes
are marked there. -/
theorem BegunAgain.replayable (h : Replayable s logAddr pages votes)
    (hagain : BegunAgain logAddr pages votes s place t) :
    Replayable t logAddr (relocated place pages) (relocated place votes) ∧
      PartlyMarked s pages votes place t := by
  induction hagain with
  | first =>
    rw [relocated_id, relocated_id]
    exact ⟨h, .start⟩
  | again _ enough stop boot ih =>
    obtain ⟨ht, hmarked⟩ := ih
    have hturns := enough
    rw [← length_relocated] at hturns
    obtain ⟨-, -, pre, hpre, hstopped⟩ := of_wp_error (ht.marks hturns) stop
    refine ⟨?_, (hmarked.walk hpre hstopped).booted boot⟩
    rw [relocated_append] at boot
    rw [← relocated_relocated, ← relocated_relocated]
    exact ht.booted hstopped boot

/-- Closing a transaction marks what its pages vote for in the order of `votes`, each page once,
and nothing else, and counts what it marks; only a loss of power stops it, after the first of
them. -/
theorem handleTransactionVOTs_marks (h : Replayable s logAddr pages votes)
    (hturns : pages.length < turns) :
    wp (handleTransactionVOTs turns logAddr isFromReboot)
      (fun res t => res = some 0 ∧ PagesMarked isFromReboot (votes.map Prod.snd) s.world t.world)
      (fun e t => e = .powerLoss ∧ s.world.flash.power ≠ none ∧ ∃ first, first <+: votes ∧
        PagesMarked isFromReboot (first.map Prod.snd) s.world t.world) s :=
  wp_mono (h.marks hturns) (fun _ _ ht => ⟨ht.1, ht.2.1⟩) fun _ _ he => he

end Close

end Replay

section TinyPage
attribute [local instance] tinyPage

/-- A transaction has written a page of data at ⟨1, 1⟩ and a page of VOTS after it, which votes for
that page; there is power for `power` more operations. -/
def votingPages (power : Option Nat) : CachingWorld where
  world :=
    let erased := erasedWorld fun _ => false
    let first : Page := ⟨fun _ => 0, { initFlags with segType := .used }⟩
    let second : Page := ⟨fun k => ([1, 16, 0, 0] : List UInt8).getD k 0xff, { initFlags with
      segType := .used, vots := true, prev := ⟨1, 1⟩ }⟩
    { erased with
      flash := { (erased.flash.program first 9 false).program second 10 false with power := power }
      segMap := { erased.segMap with segToSlot := id } }
  cache := ⟨fun _ => ⟨-1, false, LogAddr.empty⟩, [], 0⟩

theorem replayable_votingPages (power : Option Nat) : Replayable (votingPages power) ⟨1, 2⟩
    [(⟨1, 2⟩, 10), (⟨1, 1⟩, 9)] [(⟨1, 1⟩, 9), (⟨1, 2⟩, 10)] := by
  have hsame : SamePlaces (votingPages none).world (votingPages power).world :=
    ⟨rfl, rfl, fun _ => rfl, fun _ => rfl⟩
  have hchain : PageChain (votingPages none).world ⟨1, 2⟩ [(⟨1, 2⟩, 10), (⟨1, 1⟩, 9)] :=
    .cons (by decide) rfl (by decide) (.cons (by decide) rfl (by decide) .nil)
  have hfirst : Markable (votingPages power).world (⟨1, 1⟩, 9) :=
    ⟨hsame.logicalAddressToPhysical rfl, by decide, fun _ => rfl⟩
  have hsecond : Markable (votingPages power).world (⟨1, 2⟩, 10) :=
    ⟨hsame.logicalAddressToPhysical rfl, by decide, fun _ => rfl⟩
  refine ⟨⟨?_, fun cid hcid => absurd hcid List.not_mem_nil⟩, hchain.congr hsame fun _ => rfl, ?_⟩
  · rintro v hv
    rcases List.mem_cons.mp hv with rfl | hv
    · exact hfirst
    · rw [List.mem_singleton.mp hv]
      exact hsecond
  · show _ = votedBy (votingPages none).world _
    decide

/-- With power for one operation the vote is marked, and the page that holds it is not. -/
theorem handleTransactionVOTs_marks_tinyPage :
    wp (handleTransactionVOTs 3 ⟨1, 2⟩ false)
      (fun res t => res = some 0 ∧ PagesMarked false [9, 10] (votingPages (some 1)).world t.world)
      (fun e t => e = .powerLoss ∧ (votingPages (some 1)).world.flash.power ≠ none ∧
        ∃ first, first <+: [((⟨1, 1⟩ : LogAddr), 9), (⟨1, 2⟩, 10)] ∧
          PagesMarked false (first.map Prod.snd) (votingPages (some 1)).world t.world)
      (votingPages (some 1)) :=
  handleTransactionVOTs_marks (replayable_votingPages (some 1)) (by decide)

/-- The page is found on the chip of `u`, and as it was on the chip of `t`. -/
def kept (t u : World) (v : LogAddr × Nat) : Bool :=
  okAnd (logicalAddressToPhysical v.1) u (fun p _ => decide (p = v.2)) &&
    decide ((∀ j, (u.flash.page v.2).main j = (t.flash.page v.2).main j) ∧
      (u.flash.page v.2).flags = (t.flash.page v.2).flags ∧
      u.flash.spareWrites v.2 = t.flash.spareWrites v.2)

theorem kept_spec {t u : World} {v : LogAddr × Nat} (h : kept t u v = true) :
    logicalAddressToPhysical v.1 u = .ok v.2 u ∧ u.flash.page v.2 = t.flash.page v.2 ∧
      u.flash.spareWrites v.2 = t.flash.spareWrites v.2 := by
  obtain ⟨hfound, hpage⟩ := (Bool.and_eq_true _ _).mp h
  obtain ⟨hmain, hflags, hspare⟩ := of_decide_eq_true hpage
  obtain ⟨p, u', hrun, hp⟩ := exists_of_okAnd hfound
  obtain rfl := of_decide_eq_true hp
  have hreads : Frame id (logicalAddressToPhysical v.1) := frame_logicalAddressToPhysical v.1
  obtain rfl : u' = u := hreads.ok hrun
  refine ⟨hrun, ?_, hspare⟩
  calc u'.flash.page v.2
      = ⟨(u'.flash.page v.2).main, (u'.flash.page v.2).flags⟩ := rfl
    _ = ⟨(t.flash.page v.2).main, (t.flash.page v.2).flags⟩ := by rw [funext hmain, hflags]

end TinyPage

end NandFs
