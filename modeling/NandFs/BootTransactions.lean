import NandFs.LowSpace
import NandFs.TransactionRuns

/-! # The transactions that boot finds

A checkpoint holds, for each transaction, the address of the page it wrote last, and that of the
transaction that was closed last.  A loss of power may have cut off the marks of what the closed one
votes for, and the open ones will never be committed.  So boot marks again what the closed one votes
for, and marks all pages of the open ones: what is left is what was committed.
-/
namespace NandFs

open Program Config CacheConfig

section Boot
variable [CacheConfig]

/-- What `filesystem_t` holds of the transactions. -/
structure TrAddrs where
  lastClosedTidAddr : LogAddr
  tidLastWrittenAddr : Nat → LogAddr

namespace TrAddrs
variable (fs : TrAddrs)

/-- `init_logical_address` of the address of a transaction, or what a walk left there. -/
def setLast (i : Nat) (logAddr : LogAddr) : TrAddrs :=
  { fs with tidLastWrittenAddr := Function.update fs.tidLastWrittenAddr i logAddr }

/-- No transaction is left. -/
def NoneLeft : Prop :=
  fs.lastClosedTidAddr = LogAddr.empty ∧
    ∀ i < fsMaxNTransactions, fs.tidLastWrittenAddr i = LogAddr.empty

end TrAddrs

/-- The loop of `nandfs_fsBooting` over the transactions, and what it does after that -/
def abortOpenTransactions (turns : Nat) : List Nat → TrAddrs → CacheM (Option Int × TrAddrs)
  | [], fs => pure (some 0, { fs with lastClosedTidAddr := LogAddr.empty })
  | i :: is, fs =>
    -- the pages of the last closed transaction are not marked
    if fs.tidLastWrittenAddr i = fs.lastClosedTidAddr then
      abortOpenTransactions turns is (fs.setLast i LogAddr.empty)
    else do
      let walked ← Linked.deleteTransactionPages turns (fs.tidLastWrittenAddr i) i true
      if walked.1 ≠ some 0 then pure (walked.1.map fun _ => -1, fs.setLast i walked.2)
      else abortOpenTransactions turns is (fs.setLast i LogAddr.empty)

/-- The end of `nandfs_fsBooting`, where each walk has at most `turns` turns -/
def endTransactions (turns : Nat) (fs : TrAddrs) : CacheM (Option Int × TrAddrs) := do
  if isAddrEmpty fs.lastClosedTidAddr then
    abortOpenTransactions turns (List.range fsMaxNTransactions) fs
  else do
    let res ← Linked.handleTransactionVOTs true turns fs.lastClosedTidAddr
    if res ≠ some 0 then pure (res, fs)
    else abortOpenTransactions turns (List.range fsMaxNTransactions) fs

/-! ## No buffer is in use -/

section NoBuffers

/-- The cache is as boot has initialised it. -/
def NoBuffers (s : CachingWorld) : Prop := s.cache.lru = []

theorem noBuffers_inWorld {α : Type} (m : SeqM α) : Preserves NoBuffers (inWorld m) := by
  intro s hs
  unfold inWorld
  rw [wp_onPart]
  cases hrun : m s.world with
  | ok r w =>
    rw [wp_ok_iff hrun]
    exact hs
  | error e w =>
    rw [wp_error_iff hrun]
    exact hs

theorem noBuffers_trMarkAsObsolete (logAddr : LogAddr) (isFromReboot : Bool) :
    Preserves NoBuffers (trMarkAsObsolete logAddr isFromReboot) := by
  refine preserves_bind (noBuffers_inWorld _) fun _ => preserves_ite (fun _ => preserves_pure _)
    fun _ => preserves_bind ?_ fun _ => preserves_ite (fun _ => preserves_pure _)
      fun _ => preserves_pure _
  intro s hs
  have hnone : s.cache.getCidByRealAddr logAddr = none := by
    unfold CacheQueue.getCidByRealAddr
    rw [show s.cache.lru = [] from hs]
    simp
  unfold cacheFreeByRealAddr
  rw [wp_bind, wp_get]
  dsimp only
  rw [hnone]
  exact hs

theorem noBuffers_deletePages (isFromReboot : Bool) (n : Nat) (logAddr : LogAddr) :
    Preserves NoBuffers (deletePages isFromReboot n logAddr) := by
  induction n generalizing logAddr with
  | zero => exact preserves_pure _
  | succ n ih =>
    exact preserves_ite (fun _ => preserves_pure _) fun _ =>
      preserves_bind (noBuffers_trMarkAsObsolete _ _) fun _ =>
        preserves_ite (fun _ => preserves_pure _) fun _ =>
          preserves_bind (noBuffers_inWorld _) fun _ =>
            preserves_ite (fun _ => preserves_pure _) fun _ => ih _

theorem noBuffers_deleteTransactionPages (turns nBuffers : Nat) (logAddr : LogAddr) (tid : Int)
    (isFromReboot : Bool) :
    Preserves NoBuffers (deleteTransactionPages turns nBuffers logAddr tid isFromReboot) := by
  refine preserves_bind (preserves_modify fun s hs => ?_) fun _ => noBuffers_deletePages _ _ _
  have hturn : ∀ (q : CacheQueue) (cid : Nat), q.lru = [] →
      (CacheQueue.initTid tid q cid).lru = [] := by
    intro q cid hq
    unfold CacheQueue.initTid
    by_cases htid : (q.caches cid).tid = tid
    · rw [if_pos htid]
      show (if (q.caches cid).isDirty then _ else q : CacheQueue).lru.erase cid = []
      by_cases hdirty : (q.caches cid).isDirty = true
      · rw [if_pos hdirty]
        simp [hq]
      · rw [if_neg hdirty]
        simp [hq]
    · rw [if_neg htid]
      exact hq
  show ((List.range nBuffers).foldl (CacheQueue.initTid tid) s.cache).lru = []
  generalize List.range nBuffers = cids
  have hs : s.cache.lru = [] := hs
  generalize s.cache = q at hs
  induction cids generalizing q with
  | nil => exact hs
  | cons cid cids ih => exact ih _ (hturn q cid hs)

theorem noBuffers_handleTransactionVOTs (turns : Nat) (logAddr : LogAddr) (isFromReboot : Bool) :
    Preserves NoBuffers (handleTransactionVOTs turns logAddr isFromReboot) := by
  have hvots : ∀ vots is, Preserves NoBuffers (performVotsLoop vots isFromReboot is) := by
    intro vots is
    induction is with
    | nil => exact preserves_pure _
    | cons i is ih =>
      exact preserves_ite (fun _ => preserves_pure _) fun _ =>
        preserves_bind (noBuffers_trMarkAsObsolete _ _) fun _ =>
          preserves_ite (fun _ => preserves_pure _) fun _ => ih
  unfold handleTransactionVOTs
  induction turns generalizing logAddr with
  | zero => exact preserves_pure _
  | succ n ih =>
    refine preserves_ite (fun _ => preserves_pure _) fun _ =>
      preserves_bind (noBuffers_inWorld _) fun read =>
        preserves_ite (fun _ => preserves_pure _) fun _ => ?_
    cases read.vots with
    | none => exact ih _
    | some vots =>
      exact preserves_bind (hvots _ _) fun _ => preserves_ite (fun _ => preserves_pure _) fun _ =>
        preserves_bind (noBuffers_trMarkAsObsolete _ _) fun _ =>
          preserves_ite (fun _ => preserves_pure _) fun _ => ih _

end NoBuffers

/-! ## What is left of the transactions -/

/-- Some transactions are left.  Of `s` the pages at the addresses were marked, and nothing else was
changed. -/
structure EndedTo (nBytes : Nat) (s : TrState) (addrs : List LogAddr) (left : Nat → Prop)
    (t : TrState) : Prop where
  inv : TrInv nBytes t
  pages : ∀ i, left i → t.pages i = s.pages i
  live : ∀ a ∉ addrs, t.log.live a = s.log.live a
  marked : ∀ a ∈ addrs, ObsoleteAt a t.log.world
  powered : s.log.world.flash.power = none → t.log.world.flash.power = none

section Ended
variable {nBytes : Nat} {s t : TrState} {addrs more : List LogAddr} {left left' : Nat → Prop}

theorem TrInv.endedTo (h : TrInv nBytes s) (left : Nat → Prop) : EndedTo nBytes s [] left s :=
  ⟨h, fun _ _ => rfl, fun _ _ => rfl, fun _ ha => absurd ha List.not_mem_nil, id⟩

namespace EndedTo

theorem marksExactly (h : EndedTo nBytes s addrs left t) :
    MarksExactly s addrs t.log.world := by
  refine ⟨h.marked, fun a b hab hnot => ?_⟩
  rw [← h.live a hnot] at hab
  exact h.inv.keepsLive.readBlock_run hab

/-- A walk ends one more transaction. -/
theorem walked {tid : Int} {w : World} (h : EndedTo nBytes s addrs left t)
    (hwalked : WalkedTo nBytes t tid more w) (hsub : ∀ i, left' i → left i ∧ (i : Int) ≠ tid) :
    EndedTo nBytes s (addrs ++ more) left' (t.ended tid more w) := by
  refine ⟨hwalked.inv, fun i hi => ?_, fun a ha => ?_, fun a ha => ?_,
    fun hpower => hwalked.powered (h.powered hpower)⟩
  · show Function.update t.pages tid [] i = s.pages i
    rw [Function.update_of_ne (hsub i hi).2, h.pages i (hsub i hi).1]
  · obtain ⟨hold, hnew⟩ := not_or.mp (mt List.mem_append.mpr ha)
    show (if a ∈ more then none else t.log.live a) = s.log.live a
    rw [if_neg hnew, h.live a hold]
  · rcases List.mem_append.mp ha with hold | hnew
    · exact hwalked.before a (h.marked a hold)
    · exact hwalked.marked a hnew

theorem weaken (h : EndedTo nBytes s addrs left t) (hsub : ∀ i, left' i → left i) :
    EndedTo nBytes s addrs left' t :=
  { h with pages := fun i hi => h.pages i (hsub i hi) }

end EndedTo

/-- The address of a transaction that wrote nothing is empty. -/
theorem TrInv.prevAddr_eq (h : TrInv nBytes s) {tid tid' : Int}
    (hsame : s.prevAddr tid = s.prevAddr tid') :
    tid = tid' ∨ s.pages tid = [] ∧ s.pages tid' = [] := by
  obtain ⟨c, hlog, hlive, htrails⟩ := h.log
  exact htrails.last_eq_last
    (fun tid p hp => (hlive.writtenAt (h.live tid p hp)).ne_empty hlog) hsame

theorem TrInv.prevAddr_ne_empty (h : TrInv nBytes s) {tid : Int} (hne : s.pages tid ≠ []) :
    s.prevAddr tid ≠ LogAddr.empty := by
  obtain ⟨c, hlog, hlive, -⟩ := h.log
  obtain ⟨p, before, hpages⟩ := List.exists_cons_of_ne_nil hne
  have hp : p ∈ s.pages tid := by
    rw [hpages]
    exact List.mem_cons_self
  show BackLinked.last LogAddr.empty (s.pages tid) ≠ LogAddr.empty
  rw [hpages]
  exact (hlive.writtenAt (h.live tid p hp)).ne_empty hlog

end Ended

/-! ## Boot ends the transactions -/

/-- The pages of transaction `i`, unless it was the last one closed -/
def TrState.openPages (s : TrState) (closed : Option Nat) (i : Nat) : List LogAddr :=
  if closed = some i then [] else (s.pages i).map Prod.fst

/-- What boot marks: the votes of the last closed transaction and the pages of the others. -/
def TrState.bootMarks (s : TrState) (closed : Option Nat) : List LogAddr :=
  closed.elim [] (fun k => s.votes k) ++
    (List.range fsMaxNTransactions).flatMap (s.openPages closed)

/-- What boot finds: for the transactions of the list the addresses are theirs, and `closed` was the
last one closed, if any was. -/
structure BootFinds (turns : Nat) (s : TrState) (closed : Option Nat) (left : List Nat)
    (fs : TrAddrs) : Prop where
  lastClosed : fs.lastClosedTidAddr = closed.elim LogAddr.empty fun k => s.prevAddr k
  lastWritten : ∀ i ∈ left, fs.tidLastWrittenAddr i = s.prevAddr i
  wrote : ∀ k ∈ closed, s.pages k ≠ [] ∧ (s.pages k).length < turns
  voted : ∀ k ∈ closed, s.CanMarkAll k (s.votes k)
  start : ∀ i ∈ left, closed ≠ some i →
    ∀ p, (s.pages i).getLast? = some p → p.2.isVots = false
  enough : ∀ i ∈ left, (s.pages i).length < turns

/-- Boot is at the transactions of the list. -/
def BootedTo (nBytes : Nat) (start : CacheWorld) (s : TrState) (closed : Option Nat)
    (addrs : List LogAddr) (left : List Nat) (t : CacheWorld) : Prop :=
  ∃ a u, start.Lists t a ∧ NoBuffers a ∧ u.log.world = a.world ∧
    EndedTo nBytes s addrs (fun i => i ∈ left ∧ closed ≠ some i) u

/-- The transactions of the list are ended. -/
structure EndsAll (s : TrState) (addrs : List LogAddr) (left : List Nat) (fs : TrAddrs)
    (r : Option Int × TrAddrs) (t : CacheWorld) : Prop extends MarksExactly s addrs t.world where
  res : r.1 = some 0
  lastClosed : r.2.lastClosedTidAddr = LogAddr.empty
  ended : ∀ i ∈ left, r.2.tidLastWrittenAddr i = LogAddr.empty
  kept : ∀ i ∉ left, r.2.tidLastWrittenAddr i = fs.tidLastWrittenAddr i

section Ends
variable {nBytes turns : Nat} {s : TrState} {closed : Option Nat} {start t : CacheWorld}
  {left : List Nat} {i : Nat} {fs : TrAddrs} {addrs : List LogAddr} {cache : CacheQueue}

theorem BootFinds.next (h : BootFinds turns s closed (i :: left) fs) (hnot : i ∉ left)
    (logAddr : LogAddr) : BootFinds turns s closed left (fs.setLast i logAddr) := by
  refine ⟨h.lastClosed, fun j hj => ?_, h.wrote, h.voted,
    fun j hj => h.start j (List.mem_cons_of_mem _ hj),
    fun j hj => h.enough j (List.mem_cons_of_mem _ hj)⟩
  have hne : j ≠ i := fun hji => hnot (hji ▸ hj)
  exact (Function.update_of_ne hne _ _).trans (h.lastWritten j (List.mem_cons_of_mem _ hj))

/-- A transaction is passed over if it is the closed one, or has no pages. -/
theorem BootFinds.skips (h : BootFinds turns s closed (i :: left) fs) (hinv : TrInv nBytes s)
    (hsame : fs.tidLastWrittenAddr i = fs.lastClosedTidAddr) : s.openPages closed i = [] := by
  rw [h.lastWritten i List.mem_cons_self, h.lastClosed] at hsame
  unfold TrState.openPages
  cases hclosed : closed with
  | none =>
    rw [hclosed] at hsame
    have hempty : s.pages i = [] := not_not.mp fun hne => hinv.prevAddr_ne_empty hne hsame
    simp [hempty]
  | some k =>
    rw [hclosed] at hsame
    rcases hinv.prevAddr_eq hsame with hik | ⟨-, hempty⟩
    · obtain rfl : i = k := by exact_mod_cast hik
      simp
    · exact absurd hempty (h.wrote k (by simp [hclosed])).1

theorem BootFinds.not_closed (h : BootFinds turns s closed (i :: left) fs)
    (hother : fs.tidLastWrittenAddr i ≠ fs.lastClosedTidAddr) : closed ≠ some i := by
  rintro rfl
  rw [h.lastWritten i List.mem_cons_self, h.lastClosed] at hother
  exact hother rfl

theorem EndsAll.cons {r : Option Int × TrAddrs} (hnot : i ∉ left)
    (h : EndsAll s addrs left (fs.setLast i LogAddr.empty) r t) :
    EndsAll s addrs (i :: left) fs r t := by
  refine ⟨h.toMarksExactly, h.res, h.lastClosed, fun j hj => ?_, fun j hj => ?_⟩
  · rcases List.mem_cons.mp hj with rfl | hj
    · rw [h.kept j hnot]
      exact Function.update_self _ _ _
    · exact h.ended j hj
  · obtain ⟨hne, hj⟩ := not_or.mp (mt List.mem_cons.mpr hj)
    rw [h.kept j hj]
    exact Function.update_of_ne hne _ _

/-- The walk over the pages of an open transaction. -/
theorem wp_deletePages_boot {i : Nat} (hfinds : BootFinds turns s closed (i :: left) fs)
    (hclosed : closed ≠ some i) (hnot : i ∉ left)
    (ht : BootedTo nBytes start s closed addrs (i :: left) t) :
    wp (Linked.deleteTransactionPages turns (s.prevAddr i) i true)
      (fun r u => r.1 = some 0 ∧
        BootedTo nBytes start s closed (addrs ++ s.openPages closed i) left u)
      (fun e _ => e = .halt .powerLoss ∧ s.log.world.flash.power ≠ none) t := by
  obtain ⟨a, u, hlists, hno, hworld, hended⟩ := ht
  have hpages : u.pages i = s.pages i := hended.pages i ⟨List.mem_cons_self, hclosed⟩
  have hprev : u.prevAddr i = s.prevAddr i := by
    unfold TrState.prevAddr
    rw [hpages]
  have hopen : s.openPages closed i = (u.pages i).map Prod.fst := by
    unfold TrState.openPages
    rw [if_neg hclosed, hpages]
  have hstart : ∀ p, (u.pages i).getLast? = some p → p.2.isVots = false := by
    rw [hpages]
    exact hfinds.start i List.mem_cons_self hclosed
  have henough : (u.pages i).length < turns := by
    rw [hpages]
    exact hfinds.enough i List.mem_cons_self
  have hclean : a.cache.CleanBut fsCacheBuffers i ((u.pages i).map Prod.fst) := by
    intro cid hcid
    rw [show a.cache.lru = [] from hno] at hcid
    exact absurd hcid List.not_mem_nil
  have hwalk := @TrInv.abort _ nBytes u i a.cache true turns fsCacheBuffers hended.inv hstart hclean
    henough
  rw [hworld, hprev] at hwalk
  have hkeeps := noBuffers_deleteTransactionPages turns fsCacheBuffers (s.prevAddr i) i true a hno
  refine wp_mono ((Linked.refines_deleteTransactionPages _ _ _ _).wp hlists
    (wp_and hwalk hkeeps)) ?_ ?_
  · rintro r v ⟨a', hlists', ⟨hres, hwalked⟩, hno'⟩
    refine ⟨hres, a', u.ended i ((u.pages i).map Prod.fst) a'.world, hlists', hno', rfl, ?_⟩
    rw [hopen]
    refine hended.walked hwalked fun j hj => ⟨⟨List.mem_cons_of_mem _ hj.1, hj.2⟩, fun hji => ?_⟩
    obtain rfl : j = i := by exact_mod_cast hji
    exact hnot hj.1
  · rintro e v ⟨e', a', rfl, -, ⟨rfl, hpower⟩, -⟩
    exact ⟨rfl, fun hnone => hpower (by rw [← hworld]; exact hended.powered hnone)⟩

theorem wp_abortOpenTransactions (hinv : TrInv nBytes s)
    (hfinds : BootFinds turns s closed left fs) (hnodup : left.Nodup)
    (ht : BootedTo nBytes start s closed addrs left t) :
    wp (abortOpenTransactions turns left fs)
      (EndsAll s (addrs ++ left.flatMap (s.openPages closed)) left fs)
      (fun e _ => e = .halt .powerLoss ∧ s.log.world.flash.power ≠ none) t := by
  induction left generalizing fs addrs t with
  | nil =>
    obtain ⟨a, u, hlists, -, hworld, hended⟩ := ht
    refine ⟨?_, rfl, rfl, fun _ hi => absurd hi List.not_mem_nil, fun _ _ => rfl⟩
    rw [List.flatMap_nil, List.append_nil, ← hlists.world, ← hworld]
    exact hended.marksExactly
  | cons i left ih =>
    obtain ⟨hnot, hnodup⟩ := List.nodup_cons.mp hnodup
    unfold abortOpenTransactions
    rw [List.flatMap_cons, ← List.append_assoc]
    refine wp_ite (fun hsame => ?_) fun hother => ?_
    · rw [hfinds.skips hinv hsame, List.append_nil]
      obtain ⟨a, u, hlists, hno, hworld, hended⟩ := ht
      exact wp_mono (ih (hfinds.next hnot _) hnodup
        ⟨a, u, hlists, hno, hworld, hended.weaken fun _ hj => ⟨List.mem_cons_of_mem _ hj.1, hj.2⟩⟩)
        (fun _ _ h => h.cons hnot) fun _ _ he => he
    · rw [hfinds.lastWritten i List.mem_cons_self]
      refine wp_seq (wp_deletePages_boot hfinds (hfinds.not_closed hother) hnot ht) ?_
      rintro r u ⟨hres, hu⟩
      refine wp_ite (fun hbad => absurd hres hbad) fun _ => ?_
      exact wp_mono (ih (hfinds.next hnot _) hnodup hu) (fun _ _ h => h.cons hnot)
        fun _ _ he => he

/-- The walk over the votes of the transaction that was closed last. -/
theorem wp_handleVOTs_boot {k : Nat} (hinv : TrInv nBytes s)
    (hfinds : BootFinds turns s (some k) left fs) (hlists : start.Lists t ⟨s.log.world, cache⟩)
    (hno : cache.lru = []) :
    wp (Linked.handleTransactionVOTs true turns (s.prevAddr k))
      (fun r u => r = some 0 ∧ BootedTo nBytes start s (some k) (s.votes k) left u)
      (fun e _ => e = .halt .powerLoss ∧ s.log.world.flash.power ≠ none) t := by
  have hclean : cache.CleanAt (s.votes k) := by
    intro cid hcid
    rw [hno] at hcid
    exact absurd hcid List.not_mem_nil
  have hwalk := @TrInv.close _ nBytes s k cache true turns hinv (hfinds.voted k rfl) hclean
    (hfinds.wrote k rfl).2
  have hkeeps := noBuffers_handleTransactionVOTs turns (s.prevAddr k) true ⟨s.log.world, cache⟩ hno
  refine wp_mono ((Linked.refines_handleTransactionVOTs _ _ _).wp hlists (wp_and hwalk hkeeps)) ?_
    ?_
  · rintro r v ⟨a', hlists', ⟨hres, hwalked⟩, hno'⟩
    refine ⟨hres, a', s.ended k (s.votes k) a'.world, hlists', hno', rfl, ?_⟩
    refine (hinv.endedTo fun _ => True).walked hwalked fun j hj => ⟨trivial, fun hjk => hj.2 ?_⟩
    obtain rfl : j = k := by exact_mod_cast hjk
    rfl
  · rintro e v ⟨e', a', rfl, -, hstop, -⟩
    exact ⟨congrArg Stop.halt hstop.1, hstop.2⟩

/-- Wherever the log holds the pages of the transactions, each with the address of the one before
it, boot ends the transactions: what the last closed one votes for is marked, and so is every page
of those that are open, and nothing else that is live.  Only a loss of power stops it. -/
theorem endTransactions_marks (hinv : TrInv nBytes s)
    (hfinds : BootFinds turns s closed (List.range fsMaxNTransactions) fs)
    (hworld : t.world = s.log.world) (hcache : t.lruPtr = initLruQ) :
    wp (endTransactions turns fs)
      (fun r u => r.1 = some 0 ∧ r.2.NoneLeft ∧ MarksExactly s (s.bootMarks closed) u.world)
      (fun e _ => e = .halt .powerLoss ∧ s.log.world.flash.power ≠ none) t := by
  have hlists : t.Lists t ⟨s.log.world, ⟨fun cid => (t.lruPtr.caches cid).block, [],
      t.lruPtr.dirtyCount⟩⟩ :=
    ⟨hworld.symm, by rw [hcache]; exact .init _, fun _ => rfl, rfl, rfl, rfl, rfl⟩
  have hdone : ∀ r u, EndsAll s (s.bootMarks closed) (List.range fsMaxNTransactions) fs r u →
      r.1 = some 0 ∧ r.2.NoneLeft ∧ MarksExactly s (s.bootMarks closed) u.world :=
    fun r u h => ⟨h.res, ⟨h.lastClosed, fun i hi => h.ended i (List.mem_range.mpr hi)⟩,
      h.toMarksExactly⟩
  unfold endTransactions
  cases closed with
  | none =>
    rw [hfinds.lastClosed]
    exact wp_mono (wp_abortOpenTransactions hinv hfinds List.nodup_range
      ⟨_, s, hlists, rfl, rfl, hinv.endedTo _⟩) hdone fun _ _ he => he
  | some k =>
    rw [hfinds.lastClosed]
    have hne : isAddrEmpty (s.prevAddr k) = false :=
      Bool.eq_false_iff.mpr fun hempty =>
        hinv.prevAddr_ne_empty (hfinds.wrote k rfl).1 (isAddrEmpty_eq_true.mp hempty)
    show wp (if isAddrEmpty (s.prevAddr k) = true then _ else _) _ _ t
    rw [hne, if_neg Bool.false_ne_true]
    refine wp_seq (wp_handleVOTs_boot hinv hfinds hlists rfl) ?_
    rintro r u ⟨rfl, hu⟩
    refine wp_ite (fun hbad => absurd rfl hbad) fun _ => ?_
    exact wp_mono (wp_abortOpenTransactions hinv hfinds List.nodup_range hu) hdone fun _ _ he => he

end Ends

end Boot

section FewPages

attribute [local instance] fewPages

/-- A page that votes for ⟨0, 2⟩. -/
def fewVotes : Page := { initBuf with main := fun k => ([2, 0, 0, 0] : List UInt8).getD k 0xff }

/-- Two transactions have written two pages each, and the last page of the first one is of votes. -/
theorem exists_twoOpen : ∃ s, TrRun 48 s ∧ (s.pages 0).map Prod.fst = [⟨0, 4⟩, ⟨0, 2⟩] ∧
    (s.pages 1).map Prod.fst = [⟨0, 5⟩, ⟨0, 3⟩] ∧
    (s.pages 1).getLast?.all (!·.2.isVots) = true ∧ s.votes 0 = [⟨0, 2⟩, ⟨0, 4⟩] := by
  have hcheck : ((LogState.formatted 48 (fun _ => 0) fun _ => false).bind fun l =>
      TrState.afterWrites 48 (fun _ => 0) [(0, fewBlock 1, false), (1, fewBlock 2, false),
        (0, fewVotes, true), (1, fewBlock 3, false)] ⟨l, fun _ => []⟩).any (fun s =>
          decide ((s.pages 0).map Prod.fst = [⟨0, 4⟩, ⟨0, 2⟩] ∧
            (s.pages 1).map Prod.fst = [⟨0, 5⟩, ⟨0, 3⟩] ∧
            (s.pages 1).getLast?.all (!·.2.isVots) = true ∧
            s.votes 0 = [⟨0, 2⟩, ⟨0, 4⟩])) = true := by
    decide +kernel
  obtain ⟨s, hs, hcheck⟩ := (Option.any_eq_true _ _).mp hcheck
  obtain ⟨l, hl, hs⟩ := Option.bind_eq_some_iff.mp hs
  have hrun : TrRun 48 ⟨l, fun _ => []⟩ :=
    .formatted ⟨by decide, fun _ _ _ => ⟨rfl, rfl⟩⟩ hl
  exact ⟨s, hrun.afterWrites hs, of_decide_eq_true hcheck⟩

/-- The first transaction was closed, the second one was open. -/
theorem endTransactions_marks_fewPages : ∃ (s : TrState) (fs : TrAddrs) (t : CacheWorld),
    s.bootMarks (some 0) = [⟨0, 2⟩, ⟨0, 4⟩, ⟨0, 5⟩, ⟨0, 3⟩] ∧
    wp (endTransactions 3 fs)
      (fun r u => r.1 = some 0 ∧ r.2.NoneLeft ∧ MarksExactly s (s.bootMarks (some 0)) u.world)
      (fun e _ => e = .halt .powerLoss ∧ s.log.world.flash.power ≠ none) t := by
  obtain ⟨s, hrun, hfirst, hsecond, hstart, hvotes⟩ := exists_twoOpen
  have hlength : ∀ i ∈ List.range fsMaxNTransactions, (s.pages i).length < 3 := by
    intro i hi
    have hi : i < 2 := List.mem_range.mp hi
    rw [← List.length_map Prod.fst]
    obtain rfl | rfl : i = 0 ∨ i = 1 := by omega
    · rw [show (s.pages (0 : Nat)).map Prod.fst = _ from hfirst]
      decide
    · rw [show (s.pages (1 : Nat)).map Prod.fst = _ from hsecond]
      decide
  have hown : ∀ a ∈ s.votes 0, a ∈ (s.pages 0).map Prod.fst := by
    rw [hvotes, hfirst]
    decide
  have hcan := hrun.inv.canAbort 0
  have hfinds : BootFinds 3 s (some 0) (List.range fsMaxNTransactions)
      ⟨s.prevAddr 0, fun i => s.prevAddr i⟩ := by
    refine ⟨rfl, fun _ _ => rfl, ?_, ?_, fun i hi hne p hp => ?_, hlength⟩
    · rintro k ⟨⟩
      refine ⟨fun hnil => ?_, hlength 0 (by decide)⟩
      rw [show s.pages 0 = [] from hnil] at hfirst
      cases hfirst
    · rintro k ⟨⟩
      exact ⟨fun a ha => hcan.live a (hown a ha),
        fun tid hne p hp ha => hcan.others tid hne p hp (hown _ ha)⟩
    · have hi : i < 2 := List.mem_range.mp hi
      obtain rfl : i = 1 := by
        have : i ≠ 0 := fun hi => hne (by rw [hi])
        omega
      have hp : (s.pages 1).getLast? = some p := hp
      rw [hp] at hstart
      exact (Bool.not_eq_true' _).mp hstart
  refine ⟨s, _, ⟨s.log.world, initLruQ, fun _ => ⟨.empty, -1, LogAddr.empty, LogAddr.empty, -1,
    initBuf.main, false⟩, [], []⟩, ?_, endTransactions_marks hrun.inv hfinds rfl rfl⟩
  show s.votes 0 ++ ([] ++ ((s.pages 1).map Prod.fst ++ [])) = _
  rw [hvotes, hsecond]
  rfl

end FewPages

end NandFs
