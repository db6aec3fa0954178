import NandFs.BackLinked
import NandFs.LogMarks
import NandFs.WriteOnce

/-! # Transactions side by side

Several transactions write to the log at a time.  Each page that is written holds the address of
the page its transaction wrote before, and from the last one, which the layer above keeps, the
pages of a transaction are walked: to mark what they vote for when it is closed, and to mark all of
them when it is aborted.  Whatever the other transactions write, mark, close and abort meanwhile,
and however often segments are reclaimed and moved, the walk finds what the transaction wrote.
-/
namespace NandFs

open Program

section Runs
variable [Config]

/-- A page that a transaction wrote: a block, and whether it is one of votes. -/
structure TrPage where
  block : Block
  isVots : Bool

/-- The log holds the page at the address, with the PREV address `prev`. -/
def HoldsTrPage (m : SegMap) (c : Contents) (a : LogAddr) (p : TrPage) (prev : LogAddr) : Prop :=
  ∃ st, m.stored c a = some st ∧ st.Valid p.block ∧ st.vots = p.isVots ∧ st.prev = prev

/-- What the pages of a transaction vote for, and the pages of votes themselves. -/
def trailVotes (trail : List (LogAddr × TrPage)) : List LogAddr :=
  trail.flatMap fun p => if p.2.isVots then p.2.block.votes ++ [p.1] else []

/-- The log, and the pages of each transaction, the last one written first. -/
structure TrState where
  log : LogState
  pages : Int → List (LogAddr × TrPage)

namespace TrState
variable (s : TrState)

/-- `TRANSACTION_GET_PREV_ADDR` -/
def prevAddr (tid : Int) : LogAddr := BackLinked.last LogAddr.empty (s.pages tid)

def votes (tid : Int) : List LogAddr := trailVotes (s.pages tid)

/-- The pages at the addresses have been marked and the transaction is over. -/
def ended (tid : Int) (addrs : List LogAddr) (t : World) : TrState where
  log := ⟨t, fun a => if a ∈ addrs then none else s.log.live a⟩
  pages := Function.update s.pages tid []

/-- The addresses are of live pages, none of them a page of another transaction. -/
structure CanMarkAll (tid : Int) (addrs : List LogAddr) : Prop where
  live : ∀ a ∈ addrs, (s.log.live a).isSome = true
  others : ∀ tid' ≠ tid, ∀ p ∈ s.pages tid', p.1 ∉ addrs

end TrState

/-- No dirty buffer holds one of the pages. -/
def CacheQueue.CleanAt (q : CacheQueue) (addrs : List LogAddr) : Prop :=
  ∀ cid ∈ q.lru, (q.caches cid).isDirty = true → (q.caches cid).logAddr ∉ addrs

/-- No dirty buffer holds one of the pages, once those of the transaction are freed. -/
def CacheQueue.CleanBut (q : CacheQueue) (nBuffers : Nat) (tid : Int) (addrs : List LogAddr) :
    Prop :=
  ∀ cid ∈ q.lru, (q.caches cid).isDirty = true →
    cid < nBuffers ∧ (q.caches cid).tid = tid ∨ (q.caches cid).logAddr ∉ addrs

/-- The call marks no page of an open transaction. -/
def LogCall.SparesOpen (pages : Int → List (LogAddr × TrPage)) : LogCall → Prop
  | .markAsObsolete b _ => ∀ tid, ∀ p ∈ pages tid, p.1 ≠ b
  | _ => True

/-- The runs of transactions: a transaction writes a page with the address of its last one as PREV
address, is closed or is aborted, or the layer above makes another call. -/
inductive TrRun (nBytes : Nat) : TrState → Prop
  | format {w t : World} {data data' : Nat → UInt8} {pending : Bool}
      (erased : ∀ a, w.flash.page a = initBuf ∧ w.flash.mainAreaWrites a = false ∧
        w.flash.spareWrites a = false) (ok : StartFits nBytes w.flash)
      (run : sequencingBooting data nBytes (checkpointWriter data nBytes) w
        = .ok (0, data', pending) t) : TrRun nBytes ⟨⟨t, fun _ => none⟩, fun _ => []⟩
  | call {s : TrState} {t : World} {data : Nat → UInt8} {call : LogCall} {change : Change}
      (h : TrRun nBytes s) (safe : call.Safe nBytes data s.log) (spares : call.SparesOpen s.pages)
      (run : call.exec nBytes data s.log.world = .ok change t) :
      TrRun nBytes { s with log := ⟨t, change.apply s.log.live⟩ }
  | write {s : TrState} {t : World} {data : Nat → UInt8} {tid : Int} {logAddr a : LogAddr}
      {page : Page} {isVots : Bool} {block : Block} (h : TrRun nBytes s)
      (safe : (LogCall.allocAndWriteBlock logAddr page isVots (s.prevAddr tid)).Safe nBytes data
        s.log)
      (run : (LogCall.allocAndWriteBlock logAddr page isVots (s.prevAddr tid)).exec nBytes data
        s.log.world = .ok (.written a block) t) :
      TrRun nBytes ⟨⟨t, Function.update s.log.live a (some block)⟩,
        Function.update s.pages tid ((a, ⟨block, isVots⟩) :: s.pages tid)⟩
  | close {s : TrState} {tid : Int} {cache : CacheQueue} {turns : Nat} {isFromReboot : Bool}
      {t : CachingWorld} (h : TrRun nBytes s) (can : s.CanMarkAll tid (s.votes tid))
      (clean : cache.CleanAt (s.votes tid)) (enough : (s.pages tid).length < turns)
      (run : handleTransactionVOTs turns (s.prevAddr tid) isFromReboot ⟨s.log.world, cache⟩
        = .ok (some 0) t) : TrRun nBytes (s.ended tid (s.votes tid) t.world)
  | abort {s : TrState} {tid : Int} {cache : CacheQueue} {turns nBuffers : Nat}
      {isFromReboot : Bool} {t : CachingWorld} (h : TrRun nBytes s)
      (start : ∀ p, (s.pages tid).getLast? = some p → p.2.isVots = false)
      (clean : cache.CleanBut nBuffers tid ((s.pages tid).map Prod.fst))
      (enough : (s.pages tid).length < turns)
      (run : deleteTransactionPages turns nBuffers (s.prevAddr tid) tid isFromReboot
        ⟨s.log.world, cache⟩ = .ok (some 0) t) :
      TrRun nBytes (s.ended tid ((s.pages tid).map Prod.fst) t.world)

/-- What holds in every run: the pages of each transaction are live, and linked in the log. -/
structure TrInv (nBytes : Nat) (s : TrState) : Prop where
  log : ∃ c, Log nBytes s.log.world.flash s.log.world.segMap c ∧
    Live nBytes s.log.world.segMap c s.log.live ∧
    BackLinked.Trails LogAddr.empty (HoldsTrPage s.log.world.segMap c) s.pages
  live : ∀ tid, ∀ p ∈ s.pages tid, s.log.live p.1 = some p.2.block
  spare : s.log.world.flash.SpareMarked

/-! ## The walks mark and nothing else -/

section Frames
variable {τ : Type} {view : World → τ}

theorem frame_inWorld {α : Type} {m : SeqM α} (h : Frame view m) :
    Frame (fun s : CachingWorld => view s.world) (inWorld m) := by
  intro c s hs
  unfold inWorld
  rw [wp_onPart]
  exact h c s.world hs

theorem frame_cacheFreeByRealAddr (a : LogAddr) :
    Frame (fun s : CachingWorld => view s.world) (cacheFreeByRealAddr a) := by
  refine frame_bind frame_get fun s => ?_
  dsimp only
  cases s.cache.getCidByRealAddr a with
  | none => exact frame_pure _
  | some cid =>
    exact frame_ite (frame_pure _) (frame_bind (frame_modify fun _ => rfl) fun _ => frame_pure _)

theorem frame_readVOTsAndPrev (b : LogAddr) (samePtr : Bool) :
    Frame view (readVOTsAndPrev b samePtr) := by
  refine frame_bind (frame_logicalAddressToPhysical b) fun _ => frame_bind (frame_assert _) fun _ =>
    frame_bind (frame_nandReadPageFlags _) fun _ => frame_ite ?_ (frame_pure _)
  refine frame_bind (frame_readBlock _) fun block => ?_
  cases block <;> exact frame_pure _

section Walks
variable (h : ∀ b isFromReboot, Frame view (markAsObsolete b isFromReboot))
include h

theorem frame_trMarkAsObsolete (b : LogAddr) (isFromReboot : Bool) :
    Frame (fun s : CachingWorld => view s.world) (trMarkAsObsolete b isFromReboot) :=
  frame_bind (frame_inWorld (h b isFromReboot)) fun _ => frame_ite (frame_pure _)
    (frame_bind (frame_cacheFreeByRealAddr b) fun _ => frame_ite (frame_pure _) (frame_pure _))

theorem frame_handleTransactionVOTs (turns : Nat) (logAddr : LogAddr) (isFromReboot : Bool) :
    Frame (fun s : CachingWorld => view s.world)
      (handleTransactionVOTs turns logAddr isFromReboot) := by
  have hvots : ∀ vots is, Frame (fun s : CachingWorld => view s.world)
      (performVotsLoop vots isFromReboot is) := by
    intro vots is
    induction is with
    | nil => exact frame_pure _
    | cons i is ih =>
      exact frame_ite (frame_pure _) (frame_bind (frame_trMarkAsObsolete h _ _) fun _ =>
        frame_ite (frame_pure _) ih)
  unfold handleTransactionVOTs
  induction turns generalizing logAddr with
  | zero => exact frame_pure _
  | succ n ih =>
    refine frame_ite (frame_pure _) (frame_bind (frame_inWorld (frame_readVOTsAndPrev _ _))
      fun read => frame_ite (frame_pure _) ?_)
    cases read.vots with
    | none => exact ih _
    | some vots =>
      exact frame_bind (hvots _ _) fun _ => frame_ite (frame_pure _)
        (frame_bind (frame_trMarkAsObsolete h _ _) fun _ => frame_ite (frame_pure _) (ih _))

theorem frame_deletePages (isFromReboot : Bool) (n : Nat) (logAddr : LogAddr) :
    Frame (fun s : CachingWorld => view s.world) (deletePages isFromReboot n logAddr) := by
  induction n generalizing logAddr with
  | zero => exact frame_pure _
  | succ n ih =>
    exact frame_ite (frame_pure _) (frame_bind (frame_trMarkAsObsolete h _ _) fun _ =>
      frame_ite (frame_pure _) (frame_bind (frame_inWorld (frame_readVOTsAndPrev _ _)) fun _ =>
        frame_ite (frame_pure _) (ih _)))

end Walks

end Frames

/-! ## What a step keeps -/

section Step
variable {nBytes : Nat} {s : TrState} {t : World}

theorem LogCall.keeps_spareMarked (data : Nat → UInt8) (call : LogCall) :
    KeepsChip Flash.SpareMarked (call.exec nBytes data) := by
  have hI := spareMarked_invariant
  cases call with
  | allocAndWriteBlock logAddr page onlyVOTs prev =>
    exact preserves_bind
      (keeps_allocAndWriteBlock hI (keeps_checkpointWriter hI _ _) _ _ _ _ _) fun _ =>
      preserves_pure _
  | commit upper =>
    exact preserves_bind (keeps_commit hI (keeps_checkpointWriter hI _ _) _ _ _) fun _ =>
      preserves_pure _
  | findNextFreePage =>
    exact preserves_bind (keeps_findNextFreePage hI (keeps_checkpointWriter hI _ _) _) fun _ =>
      preserves_pure _
  | markAsObsolete b isAfterReboot =>
    exact preserves_bind (keeps_markAsObsolete hI _ _) fun _ => preserves_pure _
  | readBlock b => exact preserves_bind (keeps_reads (frame_readBlock b)) fun _ => preserves_pure _

/-- Only a mark takes a page out of the live ones. -/
theorem LogCall.exec_marked {data : Nat → UInt8} {call : LogCall} {w : World} {b : LogAddr}
    (run : call.exec nBytes data w = .ok (.marked b) t) :
    ∃ isAfterReboot, call = .markAsObsolete b isAfterReboot := by
  have hother : ∀ {α : Type} {m : SeqM α} {f : α → Change}, (∀ r, f r ≠ .marked b) →
      (m >>= fun r => pure (f r)) w ≠ .ok (.marked b) t := by
    intro α m f hf hrun
    cases hm : m w with
    | ok r u =>
      rw [bind_ok hm] at hrun
      exact hf r (EStateM.Result.ok.inj hrun).1
    | error e u =>
      rw [bind_error hm] at hrun
      cases hrun
  cases call with
  | allocAndWriteBlock logAddr page onlyVOTs prev =>
    refine absurd run (hother fun r => ?_)
    by_cases herr : r.err = 0
    · rw [if_pos herr]
      exact fun h => by cases h
    · rw [if_neg herr]
      exact fun h => by cases h
  | commit upper => exact absurd run (hother fun _ h => by cases h)
  | findNextFreePage => exact absurd run (hother fun _ h => by cases h)
  | markAsObsolete c isAfterReboot =>
    by_cases hbc : b = c
    · exact ⟨isAfterReboot, by rw [hbc]⟩
    · exact absurd run (hother fun _ h => hbc (Change.marked.inj h).symm)
  | readBlock c => exact absurd run (hother fun _ h => by cases h)

/-- A page is written where no page is live. -/
theorem LogCall.written_free {data : Nat → UInt8} {logAddr prev a : LogAddr} {page : Page}
    {onlyVOTs : Bool} {block : Block} {c : Contents} {l : LogState}
    (hlog : Log nBytes l.world.flash l.world.segMap c)
    (hlive : Live nBytes l.world.segMap c l.live)
    (safe : (LogCall.allocAndWriteBlock logAddr page onlyVOTs prev).Safe nBytes data l)
    (run : (LogCall.allocAndWriteBlock logAddr page onlyVOTs prev).exec nBytes data l.world =
      .ok (.written a block) t) : l.live a = none := by
  obtain ⟨hcan, hmove⟩ := safe
  have halloc : wp (CopyMedia.reliable.allocAndWriteBlock logAddr page onlyVOTs prev
      (checkpointWriter data nBytes) .not) (Allocated data nBytes l.live l.live l.world c
        ((allocatedPage page .not).linked onlyVOTs prev).stored) (fun _ _ => True) l.world :=
    wp_mono (CopyMedia.wp_alloc (fun _ => trivial) l.live Media.sound_reliable (by decide) hlog hlive
      hcan rfl rfl (fun _ _ hab => hab) (fun _ _ hab => .inl hab)
      fun v hv => hmove v (hv.of_sound CopyMedia.sound_reliable)) (fun _ _ ht => ht.1)
      fun _ _ he => he
  rw [CopyMedia.sound_reliable.allocAndWriteBlock_eq] at halloc
  have hwritten : wp ((LogCall.allocAndWriteBlock logAddr page onlyVOTs prev).exec nBytes data)
      (fun change _ => ∀ a block, change = .written a block → l.live a = none)
      (fun _ _ => True) l.world := by
    refine wp_seq halloc fun r u ⟨_, _, _, _, hok⟩ => ?_
    rw [wp_pure]
    intro a block hw
    by_cases herr : r.err = 0
    · obtain ⟨hcan, haddr, -⟩ := hok herr
      rw [if_pos herr] at hw
      obtain ⟨rfl, -⟩ := Change.written.inj hw
      rw [haddr]
      exact hcan.free
    · rw [if_neg herr] at hw
      cases hw
  exact of_wp_ok hwritten run a block rfl

theorem HoldsTrPage.congr {m m' : SegMap} {c c' : Contents} {a prev : LogAddr} {p : TrPage}
    (h : HoldsTrPage m c a p prev) (hstored : m'.stored c' a = m.stored c a) :
    HoldsTrPage m' c' a p prev := by
  unfold HoldsTrPage
  rw [hstored]
  exact h

/-- A live page was written. -/
theorem InView.writtenAt {w : World} {c : Contents} {live : LogAddr → Option Block}
    (h : Live nBytes w.segMap c live) {a : LogAddr} {b : Block} (hab : live a = some b) :
    WrittenAt w.segMap c a := by
  obtain ⟨hseg, -, hoff, st, hst, -⟩ := h a b hab
  exact ⟨hseg, hoff, by rw [hst]; exact Option.some_ne_none st⟩

/-- Any other call of the layer above. -/
theorem TrInv.call (h : TrInv nBytes s) {data : Nat → UInt8} {call : LogCall} {change : Change}
    (safe : call.Safe nBytes data s.log) (spares : call.SparesOpen s.pages)
    (run : call.exec nBytes data s.log.world = .ok change t) :
    TrInv nBytes { s with log := ⟨t, change.apply s.log.live⟩ } := by
  obtain ⟨c, hlog, hlive, htrails⟩ := h.log
  have hspec := call.execOn_kept Media.sound_reliable hlog hlive
    (safe.on CopyMedia.sound_reliable)
  rw [LogCall.execOn_eq CopyMedia.sound_reliable] at hspec
  obtain ⟨hkeep, c', hlog', hlive', hkept⟩ := of_wp_ok hspec run
  -- an open page is not the one that is marked
  have hopen : ∀ tid, ∀ p ∈ s.pages tid,
      t.segMap.stored c' p.1 = s.log.world.segMap.stored c p.1 := by
    intro tid p hp
    have hb := h.live tid p hp
    cases call with
    | allocAndWriteBlock logAddr page onlyVOTs prev => exact hkept.1.pages _ _ hb
    | commit upper => exact LogKept.pages hkept _ _ hb
    | findNextFreePage => exact LogKept.pages hkept _ _ hb
    | markAsObsolete b isAfterReboot =>
      exact LogMarked.others hkept _ (hlive _ _ hb).1 (spares tid p hp)
    | readBlock b => exact LogKept.pages hkept _ _ hb
  refine ⟨⟨c', hlog', hlive', htrails.mono fun tid p hp prev hold => hold.congr (hopen tid p hp)⟩,
    fun tid p hp => ?_, (call.keeps_spareMarked data).ok h.spare run⟩
  have hb := h.live tid p hp
  show change.apply s.log.live p.1 = some p.2.block
  cases change with
  | nothing => exact hb
  | written a block =>
    rw [← hkeep]
    show (if (s.log.live a).isSome then s.log.live
      else Function.update s.log.live a (some block)) p.1 = _
    by_cases ha : (s.log.live a).isSome = true
    · rw [if_pos ha]
      exact hb
    · rw [if_neg ha, Function.update_of_ne fun hpa => ha (by rw [← hpa, hb]; rfl)]
      exact hb
  | marked b =>
    obtain ⟨isAfterReboot, rfl⟩ := LogCall.exec_marked run
    show Function.update s.log.live b none p.1 = _
    rw [Function.update_of_ne (spares tid p hp)]
    exact hb

/-- A transaction writes a page: at an address where no page is live. -/
theorem TrInv.write (h : TrInv nBytes s) {data : Nat → UInt8} {tid : Int} {logAddr a : LogAddr}
    {page : Page} {isVots : Bool} {block : Block}
    (safe : (LogCall.allocAndWriteBlock logAddr page isVots (s.prevAddr tid)).Safe nBytes data
      s.log)
    (run : (LogCall.allocAndWriteBlock logAddr page isVots (s.prevAddr tid)).exec nBytes data
      s.log.world = .ok (.written a block) t) :
    TrInv nBytes ⟨⟨t, Function.update s.log.live a (some block)⟩,
      Function.update s.pages tid ((a, ⟨block, isVots⟩) :: s.pages tid)⟩ := by
  obtain ⟨c, hlog, hlive, htrails⟩ := h.log
  have hspec := LogCall.execOn_kept (d := CopyMedia.reliable) Media.sound_reliable _ hlog hlive
    (safe.on CopyMedia.sound_reliable)
  rw [LogCall.execOn_eq CopyMedia.sound_reliable] at hspec
  obtain ⟨-, c', hlog', hlive', hkept, hwritten⟩ := of_wp_ok hspec run
  have hfree : s.log.live a = none := LogCall.written_free hlog hlive safe run
  have hfresh : ∀ tid', ∀ p ∈ s.pages tid', p.1 ≠ a := by
    rintro tid' p hp rfl
    have hb := h.live tid' p hp
    rw [hfree] at hb
    cases hb
  have hstored := hwritten a block rfl
  refine ⟨⟨c', hlog', hlive', ?_⟩, fun tid' p hp => ?_,
    (LogCall.keeps_spareMarked data _).ok h.spare run⟩
  · refine (htrails.mono fun tid' p hp prev hold => hold.congr ?_).push hfresh
      ⟨_, hstored, ?_, ?_, rfl⟩
    · exact hkept.pages _ _ (h.live tid' p hp)
    · obtain ⟨-, -, -, st, hst, hvalid⟩ := hlive' a block (Function.update_self _ _ _)
      rw [hstored] at hst
      cases hst
      exact hvalid
    · rfl
  · show Function.update s.log.live a (some block) p.1 = _
    have hold : ∀ q ∈ s.pages tid', Function.update s.log.live a (some block) q.1 =
        some q.2.block := fun q hq => by
      rw [Function.update_of_ne (hfresh tid' q hq)]
      exact h.live tid' q hq
    have hp : p ∈ Function.update s.pages tid ((a, ⟨block, isVots⟩) :: s.pages tid) tid' := hp
    by_cases htid : tid' = tid
    · subst htid
      rw [Function.update_self] at hp
      rcases List.mem_cons.mp hp with rfl | hp
      · exact Function.update_self _ _ _
      · exact hold p hp
    · rw [Function.update_of_ne htid] at hp
      exact hold p hp

/-- Pages that are live are marked, those of one transaction and of no other. -/
theorem TrInv.ended (h : TrInv nBytes s) {tid : Int} {votes : List (LogAddr × Nat)}
    (can : s.CanMarkAll tid (votes.map Prod.fst))
    (hfound : ∀ v ∈ votes, logicalAddressToPhysical v.1 s.log.world = .ok v.2 s.log.world)
    (hmarked : MarkedPages (votes.map Prod.snd) s.log.world t) :
    TrInv nBytes (s.ended tid (votes.map Prod.fst) t) := by
  obtain ⟨c, hlog, hlive, htrails⟩ := h.log
  have hwritten : ∀ v ∈ votes, WrittenAt s.log.world.segMap c v.1 := by
    intro v hv
    obtain ⟨b, hb⟩ := Option.isSome_iff_exists.mp (can.live _ (List.mem_map_of_mem hv))
    exact hlive.writtenAt hb
  obtain ⟨c', hlog', hothers⟩ :=
    hlog.marked (fun v hv => ⟨hwritten v hv, hfound v hv⟩) hmarked
  have hrest : ∀ tid', ∀ p ∈ (s.ended tid (votes.map Prod.fst) t).pages tid',
      p ∈ s.pages tid' ∧ p.1 ∉ votes.map Prod.fst := by
    intro tid' p hp
    have hp : p ∈ Function.update s.pages tid [] tid' := hp
    by_cases htid : tid' = tid
    · rw [htid, Function.update_self] at hp
      exact absurd hp List.not_mem_nil
    · rw [Function.update_of_ne htid] at hp
      exact ⟨hp, can.others tid' htid p hp⟩
  refine ⟨⟨c', hlog', fun a b hab => ?_, ?_⟩, fun tid' p hp => ?_, hmarked.spareMarked h.spare⟩
  · have hab : (if a ∈ votes.map Prod.fst then none else s.log.live a) = some b := hab
    by_cases ha : a ∈ votes.map Prod.fst
    · rw [if_pos ha] at hab
      cases hab
    · rw [if_neg ha] at hab
      obtain ⟨hseg, hge, hoff, st, hst, hvalid⟩ := hlive a b hab
      refine ⟨?_, hge, hoff, st, ?_, hvalid⟩
      · show a.segment < t.segMap.nSegments
        rw [hmarked.segMap]
        exact hseg
      · exact (hothers a hseg ha).trans hst
  · refine (htrails.forget tid).mono fun tid' p hp prev hold => hold.congr ?_
    obtain ⟨hp, hnot⟩ := hrest tid' p hp
    exact hothers p.1 (hlive _ _ (h.live tid' p hp)).1 hnot
  · obtain ⟨hp, hnot⟩ := hrest tid' p hp
    show (if p.1 ∈ votes.map Prod.fst then none else s.log.live p.1) = _
    rw [if_neg hnot]
    exact h.live tid' p hp

end Step

/-! ## Where the pages of a transaction are -/

section Places
variable {nBytes : Nat} {w : World} {c : Contents} {phys : LogAddr → Nat}
  {trail : List (LogAddr × TrPage)}

/-- `phys` gives the place of each page that was written. -/
def PlacedAt (w : World) (c : Contents) (phys : LogAddr → Nat) : Prop :=
  ∀ a, WrittenAt w.segMap c a → logicalAddressToPhysical a w = .ok (phys a) w ∧
    phys a < pageCount ∧ w.segMap.stored c a = some (w.flash.page (phys a)).stored

theorem Log.exists_places (h : Log nBytes w.flash w.segMap c) : ∃ phys, PlacedAt w c phys := by
  have hplace : ∀ a, ∃ phy, WrittenAt w.segMap c a → logicalAddressToPhysical a w = .ok phy w ∧
      phy < pageCount ∧ w.segMap.stored c a = some (w.flash.page phy).stored := by
    intro a
    by_cases ha : WrittenAt w.segMap c a
    · obtain ⟨st, hst⟩ := Option.ne_none_iff_exists'.mp ha.written
      obtain ⟨phy, hrun, hlt, hpage⟩ := h.holds ha.segment ha.offset hst
      exact ⟨phy, fun _ => ⟨hrun, hlt, by rw [hpage, hst]⟩⟩
    · exact ⟨0, fun hw => absurd hw ha⟩
  choose phys hphys using hplace
  exact ⟨phys, hphys⟩

theorem WrittenAt.ne_empty (h : Log nBytes w.flash w.segMap c) {a : LogAddr}
    (ha : WrittenAt w.segMap c a) : a ≠ LogAddr.empty := by
  rintro rfl
  have hlt : noSegmentNum < w.segMap.nSegments := ha.segment
  have := h.segments.phase.le
  have := segmentsCount_add
  have := nSlots_le
  unfold noSegmentNum at hlt
  omega

section Trail
variable (hplaced : PlacedAt w c phys) (hwritten : ∀ p ∈ trail, WrittenAt w.segMap c p.1)
  (hlinked : BackLinked.Linked LogAddr.empty (HoldsTrPage w.segMap c) trail)
include hplaced hwritten hlinked

/-- The pages are where the places say. -/
theorem PlacedAt.flags {p : LogAddr × TrPage} (hp : p ∈ trail) :
    (w.flash.page (phys p.1)).flags.vots = p.2.isVots ∧
      (w.flash.page (phys p.1)).main = p.2.block := by
  obtain ⟨before, after, rfl⟩ := List.append_of_mem hp
  obtain ⟨⟨st, hst, hvalid, hvots, -⟩, -⟩ := hlinked.suffix (List.suffix_append before (p :: after))
  obtain ⟨-, -, hstored⟩ := hplaced p.1 (hwritten p hp)
  rw [hst] at hstored
  obtain rfl := Option.some.inj hstored
  exact ⟨hvots, hvalid.main⟩

/-- They are a chain on the chip. -/
theorem PlacedAt.chain (hlog : Log nBytes w.flash w.segMap c) :
    PageChain w (BackLinked.last LogAddr.empty trail) (trail.map fun p => (p.1, phys p.1)) := by
  induction trail with
  | nil => exact .nil
  | cons p trail ih =>
    obtain ⟨⟨st, hst, -, -, hprev⟩, hrest⟩ := hlinked
    have hp := hwritten p List.mem_cons_self
    obtain ⟨hfound, hlt, hstored⟩ := hplaced p.1 hp
    rw [hst] at hstored
    obtain rfl := Option.some.inj hstored
    have hprev : (w.flash.page (phys p.1)).flags.prev = BackLinked.last LogAddr.empty trail := hprev
    refine .cons (hp.ne_empty hlog) hfound hlt ?_
    rw [hprev]
    exact ih (fun q hq => hwritten q (List.mem_cons_of_mem _ hq)) hrest

theorem PlacedAt.votedBy :
    votedBy w (trail.map fun p => (p.1, phys p.1)) = trailVotes trail := by
  unfold NandFs.votedBy trailVotes
  rw [List.flatMap_map]
  refine List.flatMap_congr fun p hp => ?_
  obtain ⟨hvots, hmain⟩ := hplaced.flags hwritten hlinked hp
  show (if (w.flash.page (phys p.1)).flags.vots then
    (w.flash.page (phys p.1)).main.votes ++ [p.1] else []) = _
  rw [hvots, hmain]

/-- The first page is the one with no PREV address. -/
theorem PlacedAt.startsWithData (hlog : Log nBytes w.flash w.segMap c)
    (hstart : ∀ p, trail.getLast? = some p → p.2.isVots = false) :
    StartsWithData w (trail.map fun p => (p.1, phys p.1)) := by
  intro q hq hempty
  obtain ⟨p, hp, rfl⟩ := List.mem_map.mp hq
  rw [(hplaced.flags hwritten hlinked hp).1]
  obtain ⟨before, after, rfl⟩ := List.append_of_mem hp
  obtain ⟨⟨st, hst, -, -, hprev⟩, -⟩ := hlinked.suffix (List.suffix_append before (p :: after))
  obtain ⟨-, -, hstored⟩ := hplaced p.1 (hwritten p hp)
  rw [hst] at hstored
  obtain rfl := Option.some.inj hstored
  have hprev : (w.flash.page (phys p.1)).flags.prev = BackLinked.last LogAddr.empty after := hprev
  rw [hempty] at hprev
  cases after with
  | nil => exact hstart p (by rw [List.getLast?_append, List.getLast?_singleton]; rfl)
  | cons r after =>
    have hr := hwritten r (List.mem_append_right _ (List.mem_cons_of_mem _ List.mem_cons_self))
    exact absurd hprev.symm (hr.ne_empty hlog)

end Trail

end Places

/-! ## The walks in a run -/

section Walks
variable {nBytes : Nat} {s : TrState} {tid : Int} {cache : CacheQueue} {isFromReboot : Bool}
  {turns nBuffers : Nat}

/-- The page is found, and is marked. -/
def ObsoleteAt (a : LogAddr) (w : World) : Prop :=
  ∃ phy, logicalAddressToPhysical a w = .ok phy w ∧ phy < pageCount ∧
    (w.flash.page phy).flags.obsolete = true

/-- From the run state `s` on, a walk that returns 0 has marked the pages at the addresses, and
every other page that was live is read as before. -/
structure MarksExactly (s : TrState) (addrs : List LogAddr) (t : World) : Prop where
  marked : ∀ a ∈ addrs, ObsoleteAt a t
  others : ∀ a b, s.log.live a = some b → a ∉ addrs → readBlock a t = .ok (some b) t

/-- What was walked and marked. -/
structure WalkedTo (nBytes : Nat) (s : TrState) (tid : Int) (addrs : List LogAddr) (t : World) :
    Prop extends MarksExactly s addrs t where
  inv : TrInv nBytes (s.ended tid addrs t)
  before : ∀ a, ObsoleteAt a s.log.world → ObsoleteAt a t
  powered : s.log.world.flash.power = none → t.flash.power = none

theorem TrInv.keepsLive (h : TrInv nBytes s) : KeepsLive nBytes s.log.live s.log.world := by
  obtain ⟨c, hlog, hlive, -⟩ := h.log
  exact ⟨c, hlog, hlive⟩

theorem PagesMarked.markedPages {ps : List Nat} {w t : World}
    (h : PagesMarked isFromReboot ps w t)
    (hwrites : t.flash.mainAreaWrites = w.flash.mainAreaWrites) : MarkedPages ps w t :=
  ⟨h.page_eq, h.spare, hwrites, h.badEu, h.segMap⟩

/-- The pages of `votes` are marked: the transaction is over. -/
theorem TrInv.walked (h : TrInv nBytes s) {votes : List (LogAddr × Nat)} {t : World}
    (can : s.CanMarkAll tid (votes.map Prod.fst))
    (hfound : ∀ v ∈ votes, Markable s.log.world v)
    (hmarked : PagesMarked isFromReboot (votes.map Prod.snd) s.log.world t)
    (hwrites : t.flash.mainAreaWrites = s.log.world.flash.mainAreaWrites) :
    WalkedTo nBytes s tid (votes.map Prod.fst) t := by
  have hinv := h.ended can (fun v hv => (hfound v hv).found) (hmarked.markedPages hwrites)
  refine ⟨⟨fun a ha => ?_, fun a b hab hnot => ?_⟩, hinv, fun a ha => ?_, hmarked.powered⟩
  · obtain ⟨v, hv, rfl⟩ := List.mem_map.mp ha
    refine ⟨v.2, hmarked.samePlaces.logicalAddressToPhysical (hfound v hv).found,
      (hfound v hv).lt, ?_⟩
    rw [hmarked.page_eq, if_pos (List.mem_map_of_mem hv)]
    rfl
  · have hlive : (s.ended tid (votes.map Prod.fst) t).log.live a = some b := by
      show (if a ∈ votes.map Prod.fst then none else s.log.live a) = some b
      rw [if_neg hnot]
      exact hab
    exact hinv.keepsLive.readBlock_run hlive
  · obtain ⟨phy, hphy, hlt, hobs⟩ := ha
    refine ⟨phy, hmarked.samePlaces.logicalAddressToPhysical hphy, hlt, ?_⟩
    rw [hmarked.page_eq]
    by_cases hp : phy ∈ votes.map Prod.snd
    · rw [if_pos hp]
      rfl
    · rw [if_neg hp]
      exact hobs

/-- A page that is live can be marked. -/
theorem TrInv.markable (h : TrInv nBytes s) {c : Contents} {phys : LogAddr → Nat}
    (hplaced : PlacedAt s.log.world c phys) {a : LogAddr}
    (ha : WrittenAt s.log.world.segMap c a) : Markable s.log.world (a, phys a) := by
  obtain ⟨hfound, hlt, -⟩ := hplaced a ha
  have hgood := (logicalAddressToPhysical_good hfound (ne_empty_of_lt hlt)).2
  refine ⟨hfound, hlt, fun hobs => Bool.eq_false_of_not_eq_true fun hspare => ?_⟩
  rcases h.spare _ hspare with hmarked | hbad
  · rw [hobs] at hmarked
    exact Bool.false_ne_true hmarked
  · rw [hgood] at hbad
    exact Bool.false_ne_true hbad.symm

theorem TrInv.close (h : TrInv nBytes s) (can : s.CanMarkAll tid (s.votes tid))
    (clean : cache.CleanAt (s.votes tid)) (enough : (s.pages tid).length < turns) :
    wp (handleTransactionVOTs turns (s.prevAddr tid) isFromReboot)
      (fun res t => res = some 0 ∧ WalkedTo nBytes s tid (s.votes tid) t.world)
      (fun e _ => e = .powerLoss ∧ s.log.world.flash.power ≠ none) ⟨s.log.world, cache⟩ := by
  obtain ⟨c, hlog, hlive, htrails⟩ := h.log
  obtain ⟨phys, hplaced⟩ := hlog.exists_places
  have hwritten : ∀ p ∈ s.pages tid, WrittenAt s.log.world.segMap c p.1 :=
    fun p hp => hlive.writtenAt (h.live tid p hp)
  have hvotes : ((s.votes tid).map fun a => (a, phys a)).map Prod.fst = s.votes tid := by
    rw [List.map_map]
    exact List.map_id _
  have hmarkable : ∀ v ∈ (s.votes tid).map fun a => (a, phys a), Markable s.log.world v := by
    intro v hv
    obtain ⟨a, ha, rfl⟩ := List.mem_map.mp hv
    obtain ⟨b, hb⟩ := Option.isSome_iff_exists.mp (can.live a ha)
    exact h.markable hplaced (hlive.writtenAt hb)
  have hready : Replayable ⟨s.log.world, cache⟩ (s.prevAddr tid)
      ((s.pages tid).map fun p => (p.1, phys p.1)) ((s.votes tid).map fun a => (a, phys a)) := by
    refine ⟨⟨hmarkable, fun cid hcid hdirty v hv hsame => ?_⟩,
      hplaced.chain hwritten (htrails.linked tid) hlog, ?_⟩
    · obtain ⟨a, ha, rfl⟩ := List.mem_map.mp hv
      exact clean cid hcid hdirty (by rw [hsame]; exact ha)
    · rw [hvotes]
      exact (hplaced.votedBy hwritten (htrails.linked tid)).symm
  have hkept := frame_handleTransactionVOTs frame_writes_markAsObsolete turns (s.prevAddr tid)
    isFromReboot s.log.world.flash.mainAreaWrites ⟨s.log.world, cache⟩ rfl
  refine wp_mono (wp_and hkept (hready.marks (by rw [List.length_map]; exact enough))) ?_
    fun _ _ he => ⟨he.2.1, he.2.2.1⟩
  rintro res t ⟨hwrites, rfl, hmarked, -⟩
  have hend := h.walked (by rw [hvotes]; exact can) hmarkable hmarked hwrites
  rw [hvotes] at hend
  exact ⟨rfl, hend⟩

theorem TrInv.canAbort (h : TrInv nBytes s) (tid : Int) :
    s.CanMarkAll tid ((s.pages tid).map Prod.fst) := by
  obtain ⟨c, -, -, htrails⟩ := h.log
  constructor
  · intro a ha
    obtain ⟨p, hp, rfl⟩ := List.mem_map.mp ha
    rw [h.live tid p hp]
    rfl
  · intro tid' hne p hp hmem
    obtain ⟨q, hq, hqp⟩ := List.mem_map.mp hmem
    exact hne (htrails.apart tid' tid p hp q hq hqp.symm)

theorem TrInv.abort (h : TrInv nBytes s)
    (start : ∀ p, (s.pages tid).getLast? = some p → p.2.isVots = false)
    (clean : cache.CleanBut nBuffers tid ((s.pages tid).map Prod.fst))
    (enough : (s.pages tid).length < turns) :
    wp (deleteTransactionPages turns nBuffers (s.prevAddr tid) tid isFromReboot)
      (fun res t => res = some 0 ∧ WalkedTo nBytes s tid ((s.pages tid).map Prod.fst) t.world)
      (fun e _ => e = .powerLoss ∧ s.log.world.flash.power ≠ none) ⟨s.log.world, cache⟩ := by
  obtain ⟨c, hlog, hlive, htrails⟩ := h.log
  obtain ⟨phys, hplaced⟩ := hlog.exists_places
  have hwritten : ∀ p ∈ s.pages tid, WrittenAt s.log.world.segMap c p.1 :=
    fun p hp => hlive.writtenAt (h.live tid p hp)
  have hpages : ((s.pages tid).map fun p => (p.1, phys p.1)).map Prod.fst =
      (s.pages tid).map Prod.fst := by
    rw [List.map_map]
    rfl
  have hmarkable : ∀ v ∈ (s.pages tid).map fun p => (p.1, phys p.1), Markable s.log.world v := by
    intro v hv
    obtain ⟨p, hp, rfl⟩ := List.mem_map.mp hv
    exact h.markable hplaced (hwritten p hp)
  -- the buffers of the transaction are freed first
  have hvotable : Votable ⟨s.log.world, cache.initTidRelated nBuffers tid⟩
      ((s.pages tid).map fun p => (p.1, phys p.1)) := by
    refine ⟨hmarkable, fun cid hcid hdirty v hv hsame => ?_⟩
    obtain ⟨p, hp, rfl⟩ := List.mem_map.mp hv
    obtain ⟨hin, hcaches, hnot⟩ := CacheQueue.dirty_foldl hcid hdirty
    have hcaches : (cache.initTidRelated nBuffers tid).caches cid = cache.caches cid := hcaches
    have hdirty : ((cache.initTidRelated nBuffers tid).caches cid).isDirty = true := hdirty
    have hsame : ((cache.initTidRelated nBuffers tid).caches cid).logAddr = p.1 := hsame
    rw [hcaches] at hdirty hsame
    rcases clean cid hin hdirty with ⟨hlt, htid⟩ | hclean
    · exact hnot ⟨List.mem_range.mpr hlt, htid⟩
    · exact hclean (by rw [hsame]; exact List.mem_map_of_mem hp)
  have hmarks : MarksVotes isFromReboot ((s.pages tid).map fun p => (p.1, phys p.1))
      ((s.pages tid).map fun p => (p.1, phys p.1))
      (deletePages isFromReboot turns (s.prevAddr tid)) (some 0)
      ⟨s.log.world, cache.initTidRelated nBuffers tid⟩ :=
    deletePages_marks hvotable (fun _ hv => hv)
      (hplaced.chain hwritten (htrails.linked tid) hlog)
      (hplaced.startsWithData hwritten (htrails.linked tid) hlog start)
      (by rw [List.length_map]; exact enough)
  have hkept := frame_deletePages frame_writes_markAsObsolete isFromReboot turns (s.prevAddr tid)
    s.log.world.flash.mainAreaWrites ⟨s.log.world, cache.initTidRelated nBuffers tid⟩ rfl
  unfold deleteTransactionPages
  rw [wp_bind, wp_modify]
  refine wp_mono (wp_and hkept hmarks) ?_ fun _ _ he => ⟨he.2.1, he.2.2.1⟩
  rintro res t ⟨hwrites, rfl, hmarked, -⟩
  have hend := h.walked (by rw [hpages]; exact h.canAbort tid) hmarkable hmarked hwrites
  rw [hpages] at hend
  exact ⟨rfl, hend⟩

/-- In every run. -/
theorem TrRun.inv (h : TrRun nBytes s) : TrInv nBytes s := by
  induction h with
  | format erased ok run =>
    obtain ⟨c, hlog, hlive⟩ := of_wp_ok (sequencingBooting_log (fun a => (erased a).1)
      (fun a => (erased a).2.1) ok.le ok.first) run rfl
    refine ⟨⟨c, hlog, hlive, .none _ _⟩, fun tid p hp => absurd hp List.not_mem_nil, ?_⟩
    have hI := spareMarked_invariant
    refine (keeps_sequencingBooting hI (keeps_checkpointWriter hI _ _) _ _).ok (fun a ha => ?_) run
    rw [(erased a).2.2] at ha
    exact absurd ha Bool.false_ne_true
  | call _ safe spares run ih => exact ih.call safe spares run
  | write _ safe run ih => exact ih.write safe run
  | close _ can clean enough run ih => exact (of_wp_ok (ih.close can clean enough) run).2.inv
  | abort _ start clean enough run ih =>
    exact (of_wp_ok (ih.abort start clean enough) run).2.inv

/-- In every run the pages of a transaction that is open are read as they were written, each with
the address of the page that the transaction wrote before. -/
theorem readVOTsAndPrev_of_run (h : TrRun nBytes s) {p : LogAddr × TrPage}
    {before : List (LogAddr × TrPage)} (hp : p :: before <:+ s.pages tid) :
    readVOTsAndPrev p.1 false s.log.world = .ok ⟨0, BackLinked.last LogAddr.empty before,
      p.2.isVots, if p.2.isVots then some p.2.block else none⟩ s.log.world := by
  obtain ⟨c, hlog, hlive, htrails⟩ := h.inv.log
  obtain ⟨phys, hplaced⟩ := hlog.exists_places
  obtain ⟨⟨st, hst, hvalid, hvots, hprev⟩, -⟩ := (htrails.linked tid).suffix hp
  obtain ⟨hfound, hlt, hstored⟩ :=
    hplaced p.1 (hlive.writtenAt (h.inv.live tid p (hp.subset List.mem_cons_self)))
  rw [hst] at hstored
  obtain rfl := Option.some.inj hstored
  have hvots : (s.log.world.flash.page (phys p.1)).flags.vots = p.2.isVots := hvots
  have hprev : (s.log.world.flash.page (phys p.1)).flags.prev =
    BackLinked.last LogAddr.empty before := hprev
  have hmain : (s.log.world.flash.page (phys p.1)).main = p.2.block := hvalid.main
  rw [readVOTsAndPrev_own hfound hlt, hvots, hprev, hmain]

/-- In every run a transaction can be closed: its votes and its pages of votes are marked, all
other pages are read as before, and only a loss of power stops it. -/
theorem handleTransactionVOTs_of_run (h : TrRun nBytes s) (can : s.CanMarkAll tid (s.votes tid))
    (clean : cache.CleanAt (s.votes tid)) (enough : (s.pages tid).length < turns) :
    wp (handleTransactionVOTs turns (s.prevAddr tid) isFromReboot)
      (fun res t => res = some 0 ∧ MarksExactly s (s.votes tid) t.world)
      (fun e _ => e = .powerLoss ∧ s.log.world.flash.power ≠ none) ⟨s.log.world, cache⟩ :=
  wp_mono (h.inv.close can clean enough) (fun _ _ ht => ⟨ht.1, ht.2.toMarksExactly⟩)
    fun _ _ he => he

/-- In every run a transaction that began with a page of data can be aborted: its pages are marked,
all other pages are read as before, and only a loss of power stops it. -/
theorem deleteTransactionPages_of_run (h : TrRun nBytes s)
    (start : ∀ p, (s.pages tid).getLast? = some p → p.2.isVots = false)
    (clean : cache.CleanBut nBuffers tid ((s.pages tid).map Prod.fst))
    (enough : (s.pages tid).length < turns) :
    wp (deleteTransactionPages turns nBuffers (s.prevAddr tid) tid isFromReboot)
      (fun res t => res = some 0 ∧ MarksExactly s ((s.pages tid).map Prod.fst) t.world)
      (fun e _ => e = .powerLoss ∧ s.log.world.flash.power ≠ none) ⟨s.log.world, cache⟩ :=
  wp_mono (h.inv.abort start clean enough) (fun _ _ ht => ⟨ht.1, ht.2.toMarksExactly⟩)
    fun _ _ he => he

end Walks

/-- What a list of writes leaves, if each of them is safe and succeeds: the transaction, the page
and whether it is one of votes. -/
def TrState.afterWrites (nBytes : Nat) (data : Nat → UInt8) :
    List (Int × Page × Bool) → TrState → Option TrState
  | [], s => some s
  | w :: ws, s =>
    let call := LogCall.allocAndWriteBlock LogAddr.empty w.2.1 w.2.2 (s.prevAddr w.1)
    if call.safeTest nBytes data s.log then
      match call.exec nBytes data s.log.world with
      | .ok (.written a block) t => afterWrites nBytes data ws
          ⟨⟨t, Function.update s.log.live a (some block)⟩,
            Function.update s.pages w.1 ((a, ⟨block, w.2.2⟩) :: s.pages w.1)⟩
      | _ => none
    else none

theorem TrRun.afterWrites {nBytes : Nat} {data : Nat → UInt8} {ws : List (Int × Page × Bool)}
    {s t : TrState} (h : TrRun nBytes s) (ht : s.afterWrites nBytes data ws = some t) :
    TrRun nBytes t := by
  induction ws generalizing s with
  | nil =>
    cases ht
    exact h
  | cons w ws ih =>
    unfold TrState.afterWrites at ht
    dsimp only at ht
    split at ht
    · rename_i hsafe
      split at ht
      · rename_i a block u run
        exact ih (.write h (LogCall.safe_of_test hsafe) run) ht
      · cases ht
    · cases ht

theorem TrRun.formatted {nBytes : Nat} {data : Nat → UInt8} {badEu : Nat → Bool} {l : LogState}
    (hstart : StartFits nBytes (erasedWorld badEu).flash)
    (hl : LogState.formatted nBytes data badEu = some l) : TrRun nBytes ⟨l, fun _ => []⟩ := by
  unfold LogState.formatted at hl
  split at hl
  · rename_i res data' pending u run
    split at hl
    · rename_i hres
      subst hres
      cases hl
      exact .format (fun _ => ⟨rfl, rfl, rfl⟩) hstart run
    · cases hl
  · cases hl

end Runs

section TinyPage
attribute [local instance] tinyPage

/-- A page that votes for ⟨0, 6⟩. -/
def tinyVotes : Page :=
  { initBuf with main := fun k => ([6, 0, 0, 0] : List UInt8).getD k 0xff }

/-- Two transactions have written a page of data each, and the first one a page of votes. -/
theorem exists_votingRun : ∃ s, TrRun 48 s ∧ (s.pages 0).map Prod.fst = [⟨1, 6⟩, ⟨0, 6⟩] ∧
    (s.pages 0).getLast?.all (!·.2.isVots) = true ∧ s.votes 0 = [⟨0, 6⟩, ⟨1, 6⟩] := by
  have hcheck : ((LogState.formatted 48 (fun _ => 0) fun _ => false).bind fun l =>
      TrState.afterWrites 48 (fun _ => 0) [(0, tinyBlock 1, false), (1, tinyBlock 2, false),
        (0, tinyVotes, true)] ⟨l, fun _ => []⟩).any (fun s =>
          decide ((s.pages 0).map Prod.fst = [⟨1, 6⟩, ⟨0, 6⟩]) &&
            (s.pages 0).getLast?.all (!·.2.isVots) &&
              decide (s.votes 0 = [⟨0, 6⟩, ⟨1, 6⟩])) = true := by
    decide +kernel
  obtain ⟨s, hs, hcheck⟩ := (Option.any_eq_true _ _).mp hcheck
  obtain ⟨l, hl, hs⟩ := Option.bind_eq_some_iff.mp hs
  obtain ⟨hboth, hvotes⟩ := (Bool.and_eq_true _ _).mp hcheck
  obtain ⟨hpages, hstart⟩ := (Bool.and_eq_true _ _).mp hboth
  have hrun : TrRun 48 ⟨l, fun _ => []⟩ :=
    .formatted ⟨by decide, fun _ _ _ => ⟨rfl, rfl⟩⟩ hl
  exact ⟨s, hrun.afterWrites hs, of_decide_eq_true hpages, hstart, of_decide_eq_true hvotes⟩

theorem readVOTsAndPrev_of_run_tinyPage : ∃ (s : TrState) (p : LogAddr × TrPage)
    (before : List (LogAddr × TrPage)), before ≠ [] ∧ readVOTsAndPrev p.1 false s.log.world =
      .ok ⟨0, BackLinked.last LogAddr.empty before, p.2.isVots,
        if p.2.isVots then some p.2.block else none⟩ s.log.world := by
  obtain ⟨s, hrun, hpages, -⟩ := exists_votingRun
  obtain ⟨p, before, hcons, -, hbefore⟩ := List.map_eq_cons_iff.mp hpages
  have hsuffix : p :: before <:+ s.pages 0 := by rw [hcons]
  refine ⟨s, p, before, ?_, readVOTsAndPrev_of_run hrun hsuffix⟩
  rintro rfl
  cases hbefore

/-- The first transaction is closed. -/
theorem handleTransactionVOTs_of_run_tinyPage : ∃ s : TrState, s.votes 0 = [⟨0, 6⟩, ⟨1, 6⟩] ∧
    wp (handleTransactionVOTs 3 (s.prevAddr 0) false)
      (fun res t => res = some 0 ∧ MarksExactly s (s.votes 0) t.world)
      (fun e _ => e = .powerLoss ∧ s.log.world.flash.power ≠ none)
      ⟨s.log.world, ⟨fun _ => ⟨-1, false, LogAddr.empty⟩, [], 0⟩⟩ := by
  obtain ⟨s, hrun, hpages, -, hvotes⟩ := exists_votingRun
  have hown : ∀ a ∈ s.votes 0, a ∈ (s.pages 0).map Prod.fst := by
    rw [hvotes, hpages]
    decide
  have hlength : (s.pages 0).length < 3 := by
    rw [← List.length_map Prod.fst, hpages]
    decide
  have hcan := hrun.inv.canAbort 0
  exact ⟨s, hvotes, handleTransactionVOTs_of_run hrun
    ⟨fun a ha => hcan.live a (hown a ha),
      fun tid hne p hp ha => hcan.others tid hne p hp (hown _ ha)⟩
    (fun cid hcid => absurd hcid List.not_mem_nil) hlength⟩

/-- It is aborted instead. -/
theorem deleteTransactionPages_of_run_tinyPage : ∃ s : TrState,
    (s.pages 0).map Prod.fst = [⟨1, 6⟩, ⟨0, 6⟩] ∧
    wp (deleteTransactionPages 3 0 (s.prevAddr 0) 0 false)
      (fun res t => res = some 0 ∧ MarksExactly s ((s.pages 0).map Prod.fst) t.world)
      (fun e _ => e = .powerLoss ∧ s.log.world.flash.power ≠ none)
      ⟨s.log.world, ⟨fun _ => ⟨-1, false, LogAddr.empty⟩, [], 0⟩⟩ := by
  obtain ⟨s, hrun, hpages, hstart, -⟩ := exists_votingRun
  have hlength : (s.pages 0).length < 3 := by
    rw [← List.length_map Prod.fst, hpages]
    decide
  refine ⟨s, hpages, deleteTransactionPages_of_run hrun (fun p hp => ?_)
    (fun cid hcid => absurd hcid List.not_mem_nil) hlength⟩
  rw [hp] at hstart
  exact (Bool.not_eq_true' _).mp hstart

end TinyPage

end NandFs
