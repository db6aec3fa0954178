import NandFs.CacheRefinement
import NandFs.CacheRuns

/-! # When space is low

A transaction that writes first makes room: as long as there are too few pages that are free or
obsolete, the first transaction that is open beside it is aborted.  Where that does not suffice the
write fails.  A transaction that unlinks is let through, since it frees more pages than it writes.
-/
namespace NandFs

open Program Config CacheConfig

section LowSpace
variable [CacheConfig]

/-! ## The table of transactions -/

/-- `FS_MAX_N_TRANSACTIONS` -/
def fsMaxNTransactions : Nat := 2

/-- `IS_TRANSACTION_EMPTY` of a transaction in the table; `INO_NUM_EMPTY` is -1. -/
def Transaction.isEmpty (t : Transaction) : Bool := t.inoNum == -1

/-- `IS_WRITE_PEMITTED` -/
def Transaction.isWritePermitted (t : Transaction) : Bool :=
  t.tType == .unlink || t.tType == .temp

/-- `init_transaction` -/
def Transaction.init (t : Transaction) : Transaction :=
  { t with
    tType := .empty
    inoNum := -1
    prevLogAddr := LogAddr.empty
    inoLogAddr := LogAddr.empty
    fileOffset := -1
    indirectBuf := initBuf.main }

/-! ## Free pages -/

/-- A counter that is an `int32_t` -/
def asInt32 (counter : Nat) : Int := (BitVec.ofNat 32 counter).toInt

namespace CacheWorld
variable (s : CacheWorld)

/-- `FS_TOTAL_FREE_PAGES` -/
def fsTotalFreePages : Int :=
  asInt32 s.world.obsCountersMap.counter + asInt32 s.world.obsCountersMap.freeCounter -
    s.lruPtr.dirtyCount

/-- `IS_MIN_FREE_PAGES_REACHED`, where `FS_DELETE_DIRENT_WRITES` is 12 -/
def isMinFreePagesReached : Bool :=
  decide (s.fsTotalFreePages ≤ ((pageCount >>> (powPageSize - 2) + 12 : Nat) : Int))

/-- The transactions that are open beside `tid`. -/
def openOthers (tid : Int) : List Nat :=
  (List.range fsMaxNTransactions).filter fun i => decide ((i : Int) ≠ tid) &&
    !(s.transactions i).isEmpty

end CacheWorld

/-! ## Aborting -/

/-- `abortTransaction`, where the walk over the pages has at most `turns` turns -/
def abortTransaction (turns : Nat) (tid : Int) : CacheM (Option Int) := do
  let prevLogAddr := ((← get).transactions tid).prevLogAddr
  let walked ← Linked.deleteTransactionPages turns prevLogAddr tid false
  modifyTransaction tid fun t => { t with prevLogAddr := walked.2 }
  if walked.1 ≠ some 0 then pure (walked.1.map fun _ => -1)
  else do
    modifyTransaction tid Transaction.init
    let cpWriter := fsCheckpointWriter (← get).transactions
    if (← onLog (cpWriter false)) ≠ 0 then pure (some (-1))
    else do
      let found ← onLog (findNextFreePage cpWriter 0)
      pure (some found.1)

/-- `FS_ERROR_WRT_THRSHLD` -/
def fsErrorWrtThrshld : Int := -5

/-- The loop of `handleMinPages`, for at most `n` rounds: `none` is that it goes on.  The loop in it
looks for the first transaction that can be aborted. -/
def handleMinPagesLoop (turns : Nat) (tid : Int) : Nat → CacheM (Option Int)
  | 0 => pure none
  | n + 1 => do
    let s ← get
    if s.isMinFreePagesReached then
      match (s.openOthers tid).head? with
      | none => pure (some fsErrorWrtThrshld)
      | some i => do
        let res ← abortTransaction turns i
        if res ≠ some 0 then pure (res.map fun _ => -1)
        else handleMinPagesLoop turns tid n
    else pure (some 0)

/-- `handleMinPages` -/
def handleMinPages (turns rounds : Nat) (tid : Int) : CacheM (Option Int) := do
  let s ← get
  if (s.transactions tid).isWritePermitted then pure (some 0)
  else handleMinPagesLoop turns tid rounds

/-! ## What is left of the transactions -/

section Frames

theorem frame_onLog {α : Type} (m : SeqM α) : Frame CacheWorld.transactions (onLog m) := by
  intro c s hs
  exact wp_onLog_of_run (fun _ _ _ => hs) fun _ _ => hs

theorem frame_getLruQ : Frame CacheWorld.transactions getLruQ :=
  frame_bind frame_get fun _ => frame_pure _

theorem frame_modifyLruQ (f : CacheLruQ → CacheLruQ) :
    Frame CacheWorld.transactions (modifyLruQ f) := frame_modify fun _ => rfl

theorem frame_orEndless {α : Type} (o : Option α) :
    Frame CacheWorld.transactions (orEndless o) := by
  cases o with
  | none => exact frame_throw _
  | some a => exact frame_pure _

theorem frame_cacheFreeByAddr (logAddr : LogAddr) :
    Frame CacheWorld.transactions (cacheFreeByAddr logAddr) := by
  refine frame_bind (frame_bind frame_getLruQ fun _ => frame_ite (frame_pure _)
    (frame_orEndless _)) fun found => ?_
  cases found with
  | none => exact frame_pure _
  | some cid =>
    exact frame_bind frame_getLruQ fun _ => frame_ite (frame_pure _)
      (frame_bind (frame_modifyLruQ _) fun _ => frame_pure _)

namespace Linked

theorem frame_trMarkAsObsolete (logAddr : LogAddr) (isFromReboot : Bool) :
    Frame CacheWorld.transactions (trMarkAsObsolete logAddr isFromReboot) :=
  frame_bind (frame_onLog _) fun _ => frame_ite (frame_pure _)
    (frame_bind (frame_cacheFreeByAddr _) fun _ => frame_ite (frame_pure _) (frame_pure _))

theorem frame_deletePages (isFromReboot : Bool) (n : Nat) (logAddr : LogAddr) :
    Frame CacheWorld.transactions (deletePages isFromReboot n logAddr) := by
  induction n generalizing logAddr with
  | zero => exact frame_pure _
  | succ n ih =>
    exact frame_ite (frame_pure _) (frame_bind (frame_trMarkAsObsolete _ _) fun _ =>
      frame_ite (frame_pure _) (frame_bind (frame_onLog _) fun _ =>
        frame_ite (frame_pure _) (ih _)))

theorem frame_deleteTransactionPages (turns : Nat) (logAddr : LogAddr) (tid : Int)
    (isFromReboot : Bool) :
    Frame CacheWorld.transactions (deleteTransactionPages turns logAddr tid isFromReboot) :=
  frame_bind (frame_modifyLruQ _) fun _ => frame_deletePages _ _ _

end Linked

end Frames

section Abort
variable {s t : CacheWorld} {turns : Nat} {tid : Int}

/-- The other transactions are as they were. -/
def CacheWorld.KeepsOthers (s : CacheWorld) (tid : Int) (t : CacheWorld) : Prop :=
  ∀ j ≠ tid, t.transactions j = s.transactions j

/-- A transaction that is aborted is initialised, and the others are left alone. -/
theorem wp_abortTransaction : wp (abortTransaction turns tid)
    (fun res t => s.KeepsOthers tid t ∧
      (res = some 0 → t.transactions tid = (s.transactions tid).init))
    (fun _ t => s.KeepsOthers tid t) s := by
  have hsame : ∀ t : CacheWorld, t.transactions = s.transactions → s.KeepsOthers tid t :=
    fun t ht j _ => by rw [ht]
  unfold abortTransaction
  rw [wp_bind, wp_get]
  refine (Linked.frame_deleteTransactionPages _ _ _ _).wp_bind (fun walked t ht => ?_)
    fun _ t ht => hsame t ht
  have hupdate : ∀ (u : CacheWorld) (tr : Transaction),
      u.transactions = Function.update t.transactions tid tr → s.KeepsOthers tid u := by
    intro u tr hu j hj
    rw [hu, Function.update_of_ne hj, ht]
  rw [wp_bind, wp_modifyTransaction]
  refine wp_ite (fun hfail => ?_) fun _ => ?_
  · refine ⟨hupdate _ _ rfl, fun h0 => ?_⟩
    obtain ⟨r, -, hr⟩ := Option.map_eq_some_iff.mp h0
    exact absurd hr (by decide)
  rw [wp_bind, wp_modifyTransaction, wp_bind, wp_get]
  dsimp only
  rw [Function.update_self, Function.update_idem, ht]
  -- the log does not see the transactions
  refine (frame_onLog _).wp_bind (fun r u hu => ?_) fun _ u hu => hupdate u _ (by rw [hu, ht])
  refine wp_ite (fun _ => ⟨hupdate u _ (by rw [hu, ht]), fun h0 => ?_⟩) fun _ => ?_
  · exact absurd (Option.some.inj h0) (by decide)
  refine (frame_onLog _).wp_bind (fun r v hv => ?_) fun _ v hv => hupdate v _ (by rw [hv, hu, ht])
  refine ⟨hupdate v _ (by rw [hv, hu, ht]), fun _ => ?_⟩
  rw [hv, hu]
  exact Function.update_self _ _ _

end Abort

/-! ## The rounds -/

/-- From `s` on the transactions of the list were aborted one after the other, each of them where
too few pages were left, and that left `t`. -/
inductive AbortRounds (turns : Nat) (tid : Int) : CacheWorld → List Nat → CacheWorld → Prop
  | nil {s : CacheWorld} : AbortRounds turns tid s [] s
  | cons {s u t : CacheWorld} {i : Nat} {is : List Nat} (low : s.isMinFreePagesReached = true)
      (first : (s.openOthers tid).head? = some i)
      (run : abortTransaction turns i s = .ok (some 0) u) (rest : AbortRounds turns tid u is t) :
      AbortRounds turns tid s (i :: is) t

section Rounds
variable {s t u : CacheWorld} {turns : Nat} {tid : Int} {i : Nat} {is : List Nat}

theorem abortTransaction_ok (run : abortTransaction turns i s = .ok (some 0) u) :
    s.KeepsOthers i u ∧ u.transactions i = (s.transactions i).init := by
  obtain ⟨hothers, hinit⟩ := of_wp_ok wp_abortTransaction run
  exact ⟨hothers, hinit rfl⟩

/-- A transaction that was aborted is open no more. -/
theorem openOthers_abort (first : (s.openOthers tid).head? = some i)
    (run : abortTransaction turns i s = .ok (some 0) u) :
    s.openOthers tid = i :: u.openOthers tid := by
  obtain ⟨hothers, hinit⟩ := abortTransaction_ok run
  obtain ⟨rest, hrest⟩ := List.head?_eq_some_iff.mp first
  have hnodup : (i :: rest).Nodup := by
    rw [← hrest]
    exact List.nodup_range.filter _
  have hopen : u.openOthers tid = (s.openOthers tid).filter (· ≠ i) := by
    unfold CacheWorld.openOthers
    rw [List.filter_filter]
    refine List.filter_congr fun j _ => ?_
    by_cases hj : j = i
    · subst hj
      rw [hinit]
      simp [Transaction.init, Transaction.isEmpty]
    · rw [hothers j (by exact_mod_cast hj), decide_eq_true hj, Bool.true_and]
  rw [hopen, hrest, List.filter_cons_of_neg (by simp)]
  refine congrArg (i :: ·) (List.filter_eq_self.mpr fun j hj => decide_eq_true ?_).symm
  rintro rfl
  exact (List.nodup_cons.mp hnodup).1 hj

namespace AbortRounds

theorem openOthers (h : AbortRounds turns tid s is t) :
    s.openOthers tid = is ++ t.openOthers tid := by
  induction h with
  | nil => rfl
  | cons low first run rest ih =>
    rw [openOthers_abort first run, ih]
    rfl

/-- What was aborted is initialised, and nothing else was changed. -/
theorem transactions (h : AbortRounds turns tid s is t) (j : Int) : t.transactions j =
    if j ∈ is.map Nat.cast then (s.transactions j).init else s.transactions j := by
  induction h with
  | nil => rfl
  | @cons s u t i is low first run rest ih =>
    obtain ⟨hothers, hinit⟩ := abortTransaction_ok run
    have hopen := rest.openOthers
    have hnot : i ∉ u.openOthers tid := by
      intro hmem
      have hempty := (List.mem_filter.mp hmem).2
      rw [hinit] at hempty
      simp [Transaction.init, Transaction.isEmpty] at hempty
    rw [ih, List.map_cons]
    by_cases hj : j = i
    · subst hj
      rw [if_pos List.mem_cons_self, if_neg, hinit]
      intro hmem
      obtain ⟨k, hk, hki⟩ := List.mem_map.mp hmem
      obtain rfl : k = i := by exact_mod_cast hki
      exact hnot (by rw [hopen]; exact List.mem_append_left _ hk)
    · rw [hothers j hj]
      by_cases hmem : j ∈ is.map Nat.cast
      · rw [if_pos hmem, if_pos (List.mem_cons_of_mem _ hmem)]
      · rw [if_neg hmem, if_neg fun h => (List.mem_cons.mp h).elim hj hmem]

end AbortRounds

/-- How `handleMinPages` ends, from `s` on: with room, with nothing left to abort, or with an abort
that failed or goes on. -/
inductive RoomMade (turns : Nat) (tid : Int) (s : CacheWorld) : Option Int → CacheWorld → Prop
  | permitted (h : (s.transactions tid).isWritePermitted = true) : RoomMade turns tid s (some 0) s
  | room {is : List Nat} {t : CacheWorld} (rounds : AbortRounds turns tid s is t)
      (enough : t.isMinFreePagesReached = false) : RoomMade turns tid s (some 0) t
  | full {is : List Nat} {t : CacheWorld} (rounds : AbortRounds turns tid s is t)
      (low : t.isMinFreePagesReached = true) (none : t.openOthers tid = []) :
      RoomMade turns tid s (some fsErrorWrtThrshld) t
  | failed {is : List Nat} {u t : CacheWorld} {i : Nat} {res : Option Int}
      (rounds : AbortRounds turns tid s is u) (low : u.isMinFreePagesReached = true)
      (first : (u.openOthers tid).head? = some i) (bad : res ≠ some 0)
      (run : abortTransaction turns i u = .ok res t) :
      RoomMade turns tid s (res.map fun _ => -1) t

theorem RoomMade.round {res : Option Int} (low : s.isMinFreePagesReached = true)
    (first : (s.openOthers tid).head? = some i)
    (run : abortTransaction turns i s = .ok (some 0) u)
    (h : RoomMade turns tid u res t) (hno : (u.transactions tid).isWritePermitted = false) :
    RoomMade turns tid s res t := by
  cases h with
  | permitted h => exact absurd (h.symm.trans hno) Bool.true_eq_false.mp
  | room rounds enough => exact .room (.cons low first run rounds) enough
  | full rounds low' none => exact .full (.cons low first run rounds) low' none
  | failed rounds low' first' bad run' =>
    exact .failed (.cons low first run rounds) low' first' bad run'

/-- An abort halts. -/
def RoomStops (turns : Nat) (tid : Int) (s : CacheWorld) (e : Stop) (t : CacheWorld) : Prop :=
  ∃ is u i, AbortRounds turns tid s is u ∧ u.isMinFreePagesReached = true ∧
    (u.openOthers tid).head? = some i ∧ abortTransaction turns i u = .error e t

theorem wp_handleMinPagesLoop {n : Nat} (hn : (s.openOthers tid).length < n)
    (hno : (s.transactions tid).isWritePermitted = false) :
    wp (handleMinPagesLoop turns tid n) (RoomMade turns tid s) (RoomStops turns tid s) s := by
  induction n generalizing s with
  | zero => exact absurd hn (Nat.not_lt_zero _)
  | succ n ih =>
    unfold handleMinPagesLoop
    rw [wp_bind, wp_get]
    refine wp_ite (fun hlow => ?_) fun hlow => .room .nil (Bool.eq_false_of_not_eq_true hlow)
    cases hfirst : (s.openOthers tid).head? with
    | none => exact .full .nil hlow (List.head?_eq_none_iff.mp hfirst)
    | some i =>
      cases hrun : abortTransaction turns i s with
      | error e t =>
        rw [wp_bind, wp_error_iff hrun]
        exact ⟨[], s, i, .nil, hlow, hfirst, hrun⟩
      | ok res u =>
        rw [wp_bind, wp_ok_iff hrun]
        refine wp_ite (fun hbad => .failed .nil hlow hfirst hbad hrun) fun hok => ?_
        obtain rfl := not_not.mp hok
        have hshort := openOthers_abort hfirst hrun
        rw [hshort, List.length_cons] at hn
        have hne : tid ≠ i := by
          have hmem : i ∈ s.openOthers tid := by
            rw [hshort]
            exact List.mem_cons_self
          have hdiff := (List.mem_filter.mp hmem).2
          simp at hdiff
          exact Ne.symm hdiff.1
        have hno' : (u.transactions tid).isWritePermitted = false := by
          rw [(abortTransaction_ok hrun).1 tid hne]
          exact hno
        refine wp_mono (ih (Nat.lt_of_succ_lt_succ hn) hno') (fun r t ht => ?_) ?_
        · exact ht.round hlow hfirst hrun hno'
        · rintro e t ⟨is, v, j, hrounds, hlast, hhead, hstop⟩
          exact ⟨i :: is, v, j, .cons hlow hfirst hrun hrounds, hlast, hhead, hstop⟩

/-- Room is made in at most as many rounds as transactions are open beside. -/
theorem wp_handleMinPages {rounds : Nat} (hn : (s.openOthers tid).length < rounds) :
    wp (handleMinPages turns rounds tid) (RoomMade turns tid s) (RoomStops turns tid s) s := by
  unfold handleMinPages
  rw [wp_bind, wp_get]
  exact wp_ite (fun hpermitted => .permitted hpermitted) fun hno =>
    wp_handleMinPagesLoop hn (Bool.eq_false_of_not_eq_true hno)

/-! ## The caller is spared -/

theorem mem_openOthers_iff : i ∈ s.openOthers tid ↔
    i < fsMaxNTransactions ∧ (i : Int) ≠ tid ∧ (s.transactions i).isEmpty = false := by
  simp [CacheWorld.openOthers]

/-- The transactions of the list were aborted, each where too few pages were left.  They are the
first that are open beside `tid`, and no other was changed. -/
structure MadeRoom (turns : Nat) (tid : Int) (s : CacheWorld) (is : List Nat) (t : CacheWorld) :
    Prop where
  rounds : AbortRounds turns tid s is t
  openOthers : s.openOthers tid = is ++ t.openOthers tid
  aborted : ∀ i ∈ is, t.transactions i = (s.transactions i).init
  others : ∀ j, j ∉ is.map Nat.cast → t.transactions j = s.transactions j

/-- Room was made, too few pages are left, and it is `i` that is aborted next. -/
structure MakesRoom (turns : Nat) (tid : Int) (s : CacheWorld) (i : Nat) (u : CacheWorld) :
    Prop where
  made : ∃ is, MadeRoom turns tid s is u
  low : u.isMinFreePagesReached = true
  next : (u.openOthers tid).head? = some i

theorem AbortRounds.madeRoom (h : AbortRounds turns tid s is t) : MadeRoom turns tid s is t := by
  refine ⟨h, h.openOthers, fun i hi => ?_, fun j hj => ?_⟩
  · rw [h.transactions, if_pos (List.mem_map_of_mem hi)]
  · rw [h.transactions, if_neg hj]

theorem MadeRoom.caller (h : MadeRoom turns tid s is t) :
    t.transactions tid = s.transactions tid := by
  refine h.others tid fun hmem => ?_
  obtain ⟨i, hi, htid⟩ := List.mem_map.mp hmem
  have hopen : i ∈ s.openOthers tid := by
    rw [h.openOthers]
    exact List.mem_append_left _ hi
  exact (mem_openOthers_iff.mp hopen).2.1 htid

/-- The abort of another transaction spares the caller as well, however it ends. -/
theorem MakesRoom.caller (h : MakesRoom turns tid s i u) :
    wp (abortTransaction turns i) (fun _ t => t.transactions tid = s.transactions tid)
      (fun _ t => t.transactions tid = s.transactions tid) u := by
  obtain ⟨⟨is, hmade⟩, -, hnext⟩ := h
  have hne := (mem_openOthers_iff.mp (List.mem_of_mem_head? hnext)).2.1
  refine wp_mono wp_abortTransaction (fun _ t ht => ?_) fun _ t ht => ?_
  · rw [ht.1 tid hne.symm, hmade.caller]
  · rw [ht tid hne.symm, hmade.caller]

/-- A write that is not permitted at once aborts other transactions, in their order, as long as
too few pages are left.  It goes on with 0 only where that made room, and fails with the threshold
only where no other transaction is open any more.  Each transaction is aborted once, and the
caller's record is left alone, also where an abort fails or halts. -/
theorem handleMinPages_sparesCaller {rounds : Nat} (hn : (s.openOthers tid).length < rounds) :
    wp (handleMinPages turns rounds tid)
      (fun res t => t.transactions tid = s.transactions tid ∧
        ((s.transactions tid).isWritePermitted = true ∧ res = some 0 ∧ t = s ∨
          (∃ is, MadeRoom turns tid s is t ∧ res = some 0 ∧ t.isMinFreePagesReached = false) ∨
          (MadeRoom turns tid s (s.openOthers tid) t ∧ res = some fsErrorWrtThrshld ∧
            t.isMinFreePagesReached = true) ∨
          ∃ i u failed, MakesRoom turns tid s i u ∧ abortTransaction turns i u = .ok failed t ∧
            failed ≠ some 0 ∧ res = failed.map fun _ => -1))
      (fun e t => t.transactions tid = s.transactions tid ∧
        ∃ i u, MakesRoom turns tid s i u ∧ abortTransaction turns i u = .error e t) s := by
  refine wp_mono (wp_handleMinPages hn) (fun res t hroom => ?_) ?_
  · cases hroom with
    | permitted h => exact ⟨rfl, .inl ⟨h, rfl, rfl⟩⟩
    | room rounds enough =>
      exact ⟨rounds.madeRoom.caller, .inr (.inl ⟨_, rounds.madeRoom, rfl, enough⟩)⟩
    | @full is _ rounds low none =>
      have hall : s.openOthers tid = is := by
        rw [rounds.openOthers, none, List.append_nil]
      rw [hall]
      exact ⟨rounds.madeRoom.caller, .inr (.inr (.inl ⟨rounds.madeRoom, rfl, low⟩))⟩
    | failed rounds low first bad run =>
      have hmakes : MakesRoom turns tid s _ _ := ⟨⟨_, rounds.madeRoom⟩, low, first⟩
      exact ⟨(wp_ok_iff run).mp hmakes.caller, .inr (.inr (.inr ⟨_, _, _, hmakes, run, bad, rfl⟩))⟩
  · rintro e t ⟨is, u, i, rounds, low, first, stop⟩
    have hmakes : MakesRoom turns tid s i u := ⟨⟨is, rounds.madeRoom⟩, low, first⟩
    exact ⟨(wp_error_iff stop).mp hmakes.caller, i, u, hmakes, stop⟩

end Rounds

end LowSpace

section FewPages

/-- A chip of sixty-four pages of 512 bytes -/
@[reducible] def fewPages : CacheConfig where
  toConfig := { tinyPage with powPageSize := 9, powPageSize_ge := smallPage.powPageSize_ge }
  powPageSize_ge_nine := smallPageFs.powPageSize_ge_nine
  powPageSize_le := smallPageFs.powPageSize_le
  fsCacheBuffers := 4
  cpData _ _ := 0
  cpBytes := 48

attribute [local instance] fewPages

def fewBlock (n : Nat) : Page := { initBuf with main := fun _ => UInt8.ofNat n }

/-- One transaction writes `n` pages.  What it wrote last is returned. -/
def writeChain : Nat → LogAddr → SeqM LogAddr
  | 0, prev => pure prev
  | n + 1, prev => do
    let r ← allocAndWriteBlock LogAddr.empty (fewBlock n) false prev (checkpointWriter (fun _ => 0) 48)
      .not
    writeChain n r.logAddr

/-- The chip is formatted and transaction 1, which is open, writes eighteen pages. -/
def writtenChain : SeqM LogAddr := do
  let _ ← sequencingBooting (fun _ => 0) 48 (checkpointWriter (fun _ => 0) 48)
  writeChain 18 LogAddr.empty

def openOne (w : World) (prev : LogAddr) : CacheWorld where
  world := w
  lruPtr := initLruQ
  transactions tid :=
    { tType := if tid = 1 then .write else .empty
      inoNum := if tid = 1 then 2 else -1
      prevLogAddr := if tid = 1 then prev else LogAddr.empty
      inoLogAddr := LogAddr.empty
      fileOffset := -1
      indirectBuf := initBuf.main
      isVoted := false }
  flushed := []
  used := []

/-- The other transaction is aborted, and its pages make room. -/
theorem handleMinPages_sparesCaller_fewPages : ∃ s t : CacheWorld,
    (s.openOthers 0 = [1] ∧ s.isMinFreePagesReached = true) ∧
      handleMinPages 20 2 0 s = .ok (some 0) t ∧ t.transactions 0 = s.transactions 0 ∧
        t.openOthers 0 = [] ∧ (∃ is, MadeRoom 20 0 s is t) ∧ t.isMinFreePagesReached = false := by
  have hcheck : okAnd writtenChain (erasedWorld fun _ => false) (fun prev w =>
      decide ((openOne w prev).openOthers 0 = [1] ∧ (openOne w prev).isMinFreePagesReached = true) &&
        okAnd (handleMinPages 20 2 0) (openOne w prev) fun res t =>
          decide (res = some 0 ∧ t.openOthers 0 = [] ∧ t.isMinFreePagesReached = false)) = true := by
    decide +kernel
  obtain ⟨prev, w, -, hcheck⟩ := exists_of_okAnd hcheck
  obtain ⟨hstart, hcheck⟩ := (Bool.and_eq_true _ _).mp hcheck
  obtain ⟨hopen, hlow⟩ := of_decide_eq_true hstart
  obtain ⟨res, t, hrun, hcheck⟩ := exists_of_okAnd hcheck
  obtain ⟨rfl, hnone, hroom⟩ := of_decide_eq_true hcheck
  have hlength : ((openOne w prev).openOthers 0).length < 2 := by
    rw [hopen]
    decide
  obtain ⟨hcaller, hcases⟩ := of_wp_ok (handleMinPages_sparesCaller hlength) hrun
  refine ⟨_, t, ⟨hopen, hlow⟩, hrun, hcaller, hnone, ?_, hroom⟩
  rcases hcases with ⟨-, -, rfl⟩ | ⟨is, hmade, -, -⟩ | ⟨-, hfull, -⟩ | ⟨i, u, failed, -, -, -, hres⟩
  · rw [hlow] at hroom
    exact absurd hroom.symm Bool.false_ne_true
  · exact ⟨is, hmade⟩
  · exact absurd hfull (by decide)
  · cases failed with
    | none => cases hres
    | some failed =>
      have hzero : (0 : Int) = -1 := Option.some.inj hres
      exact absurd hzero (by decide)

end FewPages

end NandFs
