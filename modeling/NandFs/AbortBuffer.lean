import NandFs.TransactionAbort

/-! # What an abort leaves in the buffer

`deleteTransactionPages` reads to `fs_buffer`, and `handleMinPages` aborts other transactions when
`allocAndWriteBlockTid` may already have been given `fs_buffer` to write.  What is left there
depends on the pages of the aborted transactions: at a page of VOTS the block of the page before it
is read, and pages of data are not read.
-/
namespace NandFs

open Program Config

section Buffer
variable {α : Type}

/-- A page of an open transaction: is it one of VOTS, and what its block is to the one who finds it
in `fs_buffer`. -/
structure OpenPage (α : Type) where
  isVots : Bool
  block : α

/-- The pages of transactions that `handleMinPages` aborts one after the other, each from its last
page on. -/
abbrev Aborts (α : Type) := List (List (OpenPage α))

/-- No page of VOTS is among them. -/
def Aborts.NoVots (aborts : Aborts α) : Prop := ∀ pages ∈ aborts, ∀ p ∈ pages, p.isVots = false

/-- What `deleteTransactionPages` leaves in `fs_buffer`. -/
def OpenPage.leaves (fsBuffer : α) : List (OpenPage α) → α
  | page :: before :: pages =>
    leaves (if page.isVots then before.block else fsBuffer) (before :: pages)
  | _ => fsBuffer

/-- What `handleMinPages` leaves in `fs_buffer`. -/
def Aborts.leaves (aborts : Aborts α) (fsBuffer : α) : α := aborts.foldl OpenPage.leaves fsBuffer

theorem Aborts.noVots_nil : Aborts.NoVots ([] : Aborts α) := fun _ h => absurd h List.not_mem_nil

theorem OpenPage.leaves_of_noVots {fsBuffer : α} {pages : List (OpenPage α)}
    (h : ∀ p ∈ pages, p.isVots = false) : leaves fsBuffer pages = fsBuffer := by
  induction pages with
  | nil => rfl
  | cons page pages ih =>
    cases pages with
    | nil => rfl
    | cons before pages =>
      rw [leaves, h page List.mem_cons_self, if_neg Bool.false_ne_true]
      exact ih fun p hp => h p (List.mem_cons_of_mem _ hp)

/-- The buffer stays unless a transaction with a page of VOTS is aborted. -/
theorem Aborts.leaves_of_noVots {aborts : Aborts α} (h : aborts.NoVots) (fsBuffer : α) :
    aborts.leaves fsBuffer = fsBuffer := by
  induction aborts with
  | nil => rfl
  | cons pages aborts ih =>
    obtain ⟨hpages, haborts⟩ := List.forall_mem_cons.mp h
    rw [leaves, List.foldl_cons, OpenPage.leaves_of_noVots hpages]
    exact ih haborts

end Buffer

/-! ## The walk with the buffer -/

section Walk
variable [Config]

/-- The loop of `deleteTransactionPages` with what is in `fs_buffer`. -/
def deletePagesBuffer (isFromReboot : Bool) :
    Nat → LogAddr → Block → TrM (Option Int × Block)
  | 0, _, fsBuffer => pure (none, fsBuffer)
  | n + 1, logAddr, fsBuffer => do
    if isAddrEmpty logAddr then pure (some 0, fsBuffer)
    else if (← trMarkAsObsolete logAddr isFromReboot) ≠ 0 then pure (some (-1), fsBuffer)
    else do
      let read ← inWorld (readVOTsAndPrev logAddr true)
      if read.err ≠ 0 then pure (some (-1), fsBuffer)
      else deletePagesBuffer isFromReboot n read.prev (read.vots.getD fsBuffer)

/-- `deleteTransactionPages` with what is in `fs_buffer` -/
def deleteTransactionPagesBuffer (turns nBuffers : Nat) (logAddr : LogAddr) (tid : Int)
    (isFromReboot : Bool) (fsBuffer : Block) : TrM (Option Int × Block) := do
  modify fun s => { s with cache := s.cache.initTidRelated nBuffers tid }
  deletePagesBuffer isFromReboot turns logAddr fsBuffer

theorem fst_deletePagesBuffer (isFromReboot : Bool) (n : Nat) (logAddr : LogAddr)
    (fsBuffer : Block) : Prod.fst <$> deletePagesBuffer isFromReboot n logAddr fsBuffer =
      deletePages isFromReboot n logAddr := by
  induction n generalizing logAddr fsBuffer with
  | zero => rfl
  | succ n ih =>
    rw [deletePagesBuffer, deletePages]
    split_ifs with hempty
    · rfl
    rw [map_bind]
    congr 1
    funext res
    split_ifs with hres
    · rfl
    rw [map_bind]
    congr 1
    funext read
    split_ifs with herr
    · rfl
    exact ih read.prev (read.vots.getD fsBuffer)

/-- The buffer changes nothing of the abort. -/
theorem fst_deleteTransactionPagesBuffer (turns nBuffers : Nat) (logAddr : LogAddr) (tid : Int)
    (isFromReboot : Bool) (fsBuffer : Block) :
    Prod.fst <$> deleteTransactionPagesBuffer turns nBuffers logAddr tid isFromReboot fsBuffer =
      deleteTransactionPages turns nBuffers logAddr tid isFromReboot := by
  unfold deleteTransactionPagesBuffer deleteTransactionPages
  rw [map_bind]
  congr 1
  funext _
  exact fst_deletePagesBuffer isFromReboot turns logAddr fsBuffer

/-- The pages of a chain as the aborts are told. -/
def openPages {α : Type} (read : Block → α) (w : World) (pages : List (LogAddr × Nat)) :
    List (OpenPage α) :=
  pages.map fun p => ⟨(w.flash.page p.2).flags.vots, read (w.flash.page p.2).main⟩

section Leaves
variable {s : CachingWorld} {logAddr : LogAddr} {pages : List (LogAddr × Nat)} {α : Type}
  {read : Block → α}

theorem openPages_released {isFromReboot : Bool} {phyAddrs : List Nat} {w t : World}
    (h : PagesReleased isFromReboot phyAddrs w t) (read : Block → α)
    (pages : List (LogAddr × Nat)) : openPages read t pages = openPages read w pages := by
  refine List.map_congr_left fun p _ => ?_
  have hmain : (t.flash.page p.2).main = (w.flash.page p.2).main := by
    rw [h.page]
    split_ifs
    · rfl
    · rfl
  rw [hmain, (h.prev p.2).2]

/-- A turn of the loop leaves the block of the page before, if the page is of VOTS. -/
theorem deletePagesBuffer_turn (read : Block → α) (isFromReboot : Bool) (n : Nat) {phyAddr : Nat}
    (fsBuffer : Block) (h : Releasable s logAddr ((logAddr, phyAddr) :: pages))
    (hvots : (s.world.flash.page phyAddr).flags.prev = LogAddr.empty →
      (s.world.flash.page phyAddr).flags.vots = false) :
    ∃ t fsBuffer', deletePagesBuffer isFromReboot (n + 1) logAddr fsBuffer s =
        deletePagesBuffer isFromReboot n (s.world.flash.page phyAddr).flags.prev fsBuffer' t ∧
      PagesReleased isFromReboot [phyAddr] s.world t.world ∧
      Releasable t (s.world.flash.page phyAddr).flags.prev pages ∧
      OpenPage.leaves (read fsBuffer) (openPages read s.world ((logAddr, phyAddr) :: pages)) =
        OpenPage.leaves (read fsBuffer') (openPages read s.world pages) := by
  obtain ⟨t, hrun, hreleased, hsame, hrest⟩ := h.mark isFromReboot
  obtain ⟨hprev, hvots'⟩ := hreleased.prev phyAddr
  have hchain := h.chain
  cases hchain with
  | cons nonempty found lt rest =>
    have hfound := hsame.logicalAddressToPhysical found
    have hturn : ∀ {vots : Option Block} {isVots : Bool}, readVOTsAndPrev logAddr true t.world =
        .ok ⟨0, (t.world.flash.page phyAddr).flags.prev, isVots, vots⟩ t.world →
        deletePagesBuffer isFromReboot (n + 1) logAddr fsBuffer s =
          deletePagesBuffer isFromReboot n (s.world.flash.page phyAddr).flags.prev
            (vots.getD fsBuffer) t := by
      intro vots isVots hread
      conv_lhs => rw [deletePagesBuffer]
      rw [isAddrEmpty_eq_false.mpr nonempty, if_neg Bool.false_ne_true, bind_ok hrun,
        if_neg (not_not_intro rfl), bind_ok (inWorld_run hread), if_neg (not_not_intro rfl), hprev]
    cases hpage : (s.world.flash.page phyAddr).flags.vots with
    | false =>
      refine ⟨t, _, hturn (readVOTsAndPrev_ofData hfound lt (hvots'.trans hpage)), hreleased, hrest,
        ?_⟩
      cases pages with
      | nil => rfl
      | cons p pages =>
        unfold openPages
        rw [List.map_cons, List.map_cons, OpenPage.leaves, hpage, if_neg Bool.false_ne_true]
        rfl
    | true =>
      have hne : (s.world.flash.page phyAddr).flags.prev ≠ LogAddr.empty := fun hempty =>
        Bool.false_ne_true ((hvots hempty).symm.trans hpage)
      obtain ⟨before, rest', rfl, hbefore, hlt⟩ := hrest.chain.head hne
      refine ⟨t, _, hturn (readVOTsAndPrev_ofVots hfound lt (hvots'.trans hpage)
        (hprev ▸ hbefore) hlt), hreleased, hrest, ?_⟩
      have hsamePages := openPages_released hreleased read
        [((s.world.flash.page phyAddr).flags.prev, before)]
      have hmain : read (t.world.flash.page before).main = read (s.world.flash.page before).main :=
        congrArg OpenPage.block (List.head_eq_of_cons_eq hsamePages)
      unfold openPages
      rw [List.map_cons, List.map_cons, OpenPage.leaves, hpage, if_pos rfl, Option.getD_some, hmain]

/-- What the loop leaves in the buffer is told by the pages of the chain. -/
theorem deletePagesBuffer_leaves {isFromReboot : Bool} {n : Nat} (h : Releasable s logAddr pages)
    (hstart : StartsWithData s.world pages) (hn : pages.length < n) (fsBuffer : Block) :
    ∃ t fsBuffer', deletePagesBuffer isFromReboot n logAddr fsBuffer s =
        .ok (some 0, fsBuffer') t ∧
      read fsBuffer' = OpenPage.leaves (read fsBuffer) (openPages read s.world pages) := by
  induction pages generalizing logAddr s n fsBuffer with
  | nil =>
    obtain ⟨n, rfl⟩ : ∃ m, n = m + 1 := ⟨n - 1, by omega⟩
    have hchain := h.chain
    cases hchain
    exact ⟨s, fsBuffer, rfl, rfl⟩
  | cons p pages ih =>
    obtain ⟨n, rfl⟩ : ∃ m, n = m + 1 := ⟨n - 1, by omega⟩
    obtain ⟨addr, phyAddr⟩ := p
    obtain rfl : addr = logAddr := by
      have hchain := h.chain
      cases hchain
      rfl
    obtain ⟨u, fsBuffer', hturn, hfirst, hrest, hleaves⟩ :=
      deletePagesBuffer_turn read isFromReboot n fsBuffer h (hstart _ List.mem_cons_self)
    obtain ⟨t, last, hrun, hlast⟩ :=
      ih hrest (hstart.rest hfirst) (Nat.lt_of_succ_lt_succ hn) fsBuffer'
    refine ⟨t, last, hturn.trans hrun, ?_⟩
    rw [hlast, hleaves, openPages_released hfirst]

/-- A transaction that is released leaves in `fs_buffer` what its pages say. -/
theorem deleteTransactionPagesBuffer_leaves {turns nBuffers : Nat} {tid : Int}
    {isFromReboot : Bool} (h : Abortable s nBuffers tid logAddr pages)
    (hstart : StartsWithData s.world pages) (hturns : pages.length < turns) (fsBuffer : Block) :
    ∃ t fsBuffer', deleteTransactionPagesBuffer turns nBuffers logAddr tid isFromReboot fsBuffer s =
        .ok (some 0, fsBuffer') t ∧
      read fsBuffer' = OpenPage.leaves (read fsBuffer) (openPages read s.world pages) :=
  deletePagesBuffer_leaves h.releasable hstart hturns fsBuffer

end Leaves

end Walk

end NandFs
