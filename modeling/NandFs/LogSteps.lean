import NandFs.LogCheckpoint

/-! # The operations keep the live pages

`allocAndWriteBlock` writes at the head and goes on to the next free page, `commit` does so
page by page, and `markAsObsolete` takes a page out of the live ones.  Each is right wherever
the head can be written (`CanWrite`) and every segment change on the way can be made
(`CanMove`).  This is so even where copies of reclamation fail, as a copy that fails changes
nothing and ends the search.
-/
namespace NandFs

open Program

variable [Config]

/-- A page can be written at the head: no live page is looked up there. -/
structure CanWrite (live : LogAddr → Option Block) (w : World) : Prop where
  opened : w.segMap.headOffset ≠ 0
  lt : w.segMap.headOffset < pagesPerSlot
  placed : HeadPlaced w.flash w.segMap
  free : live w.segMap.reclaimed = none

theorem HeadReady.canWrite {nBytes : Nat} {w : World} {c : Contents}
    {live : LogAddr → Option Block} (h : HeadReady w.flash w.segMap c)
    (hlog : Log nBytes w.flash w.segMap c) (hlive : Live nBytes w.segMap c live) :
    CanWrite live w :=
  ⟨h.opened, h.lt, h.placed, hlive.head_free hlog h⟩

/-! ## The next free page -/

/-- `MovesAt cpWriter code n moved w v`: the search for the next free page, from `w` on, moves
to another segment in the state `v`. -/
inductive MovesAt (cpWriter : CheckpointWriter) (okErrorCode : Nat) :
    Nat → Bool → World → World → Prop
  | now {n : Nat} {moved : Bool} {w : World} (h : w.segMap.isPageOffsetOverflowing = true) :
      MovesAt cpWriter okErrorCode (n + 1) moved w w
  | later {n : Nat} {moved isNew : Bool} {w t u u' v : World}
      (move : moveAtSegmentEnd cpWriter w = .ok (0, isNew) t)
      (search : nextFreeInSegment okErrorCode pagesPerSlot t = .ok none u)
      (full : (if moved || isNew then changeCounterLevel obsCountFull u.segMap.reclaimed.segment
        else pure ()) u = .ok () u')
      (h : MovesAt cpWriter okErrorCode n (moved || isNew) u' v) :
      MovesAt cpWriter okErrorCode (n + 1) moved w v

/-- As `MovesAt`, on media that may fail. -/
inductive CopyMedia.MovesAt (d : CopyMedia) (cpWriter : CheckpointWriter) (okErrorCode : Nat) :
    Nat → Bool → World → World → Prop
  | now {n : Nat} {moved : Bool} {w : World} (h : w.segMap.isPageOffsetOverflowing = true) :
      CopyMedia.MovesAt d cpWriter okErrorCode (n + 1) moved w w
  | later {n : Nat} {moved isNew : Bool} {w t u u' v : World}
      (move : d.wear.moveAtSegmentEnd cpWriter w = .ok (0, isNew) t)
      (search : d.valid.nextFreeInSegment okErrorCode pagesPerSlot t = .ok none u)
      (full : (if moved || isNew then changeCounterLevel obsCountFull u.segMap.reclaimed.segment
        else pure ()) u = .ok () u')
      (h : CopyMedia.MovesAt d cpWriter okErrorCode n (moved || isNew) u' v) :
      CopyMedia.MovesAt d cpWriter okErrorCode (n + 1) moved w v

/-- On media that do not fail the two are one. -/
theorem CopyMedia.MovesAt.of_sound {d : CopyMedia} (hd : d.Sound) {cpWriter : CheckpointWriter}
    {okErrorCode n : Nat} {moved : Bool} {w v : World}
    (h : d.MovesAt cpWriter okErrorCode n moved w v) :
    NandFs.MovesAt cpWriter okErrorCode n moved w v := by
  induction h with
  | now hover => exact .now hover
  | later move search full _ ih =>
    rw [hd.wear.moveAtSegmentEnd_eq] at move
    rw [hd.valid.nextFreeInSegment_eq] at search
    exact .later move search full ih

/-- While the log grows, the search moves on at the end of a segment only. -/
theorem MovesAt.overflowing {cpWriter : CheckpointWriter} {okErrorCode n : Nat} {moved : Bool}
    {w v : World} (h : MovesAt cpWriter okErrorCode n moved w v)
    (hgrow : w.segMap.isStateReclamation = false) : w.segMap.isPageOffsetOverflowing = true := by
  cases h with
  | now hover => exact hover
  | @later _ _ _ _ t _ _ _ move search _ _ =>
    by_contra hover
    unfold moveAtSegmentEnd at move
    rw [bind_ok (show getSegMap w = .ok w.segMap w from rfl), if_neg hover] at move
    have hwt : w = t := (EStateM.Result.ok.inj move).2
    subst hwt
    -- a growing log has a free page wherever it is not at the end
    obtain ⟨k, hk⟩ : ∃ k, pagesPerSlot = k + 1 := Nat.exists_eq_succ_of_ne_zero pagesPerSlot_pos.ne'
    have hsome : wp (nextFreeInSegment okErrorCode pagesPerSlot) (fun r _ => r ≠ none)
        (fun _ _ => True) w := by
      rw [hk]
      unfold nextFreeInSegment
      rw [wp_bind, wp_getSegMap, if_neg hover]
      refine frame_placePage.wp_bind (fun r x hx => ?_) fun _ _ _ => trivial
      refine wp_ite (fun _ => Option.some_ne_none _) fun _ => ?_
      rw [wp_bind, wp_getSegMap, isStateReclamation_congr (m := w.segMap) hx, hgrow]
      exact Option.some_ne_none _
    exact of_wp_ok hsome search rfl

/-- The log holds every live page. -/
def KeepsLive (nBytes : Nat) (live : LogAddr → Option Block) (w : World) : Prop :=
  ∃ c, Log nBytes w.flash w.segMap c ∧ Live nBytes w.segMap c live

/-- Where the log moves to another segment, the head is at the end. -/
theorem CanMove.segmentEnd {nBytes : Nat} {w : World} {c : Contents} (hcan : CanMove nBytes w)
    (hlog : Log nBytes w.flash w.segMap c) (hover : w.segMap.isPageOffsetOverflowing = true) :
    w.segMap.headOffset = pagesPerSlot := by
  have hle := hlog.head.le
  have hne := hcan.opened
  unfold SegMap.headOffset at hle hne ⊢
  rcases (Bool.or_eq_true _ _).mp hover with hge | hz
  · exact Nat.le_antisymm hle (of_decide_eq_true hge)
  · exact absurd (beq_iff_eq.mp hz) hne

section Steps
variable {E : Halt → World → Prop} (hE : ∀ t, E .powerLoss t) {s : World} {nBytes : Nat}
  {live : LogAddr → Option Block}

include hE

theorem moveAtSegmentEnd_spec {c : Contents} (data : Nat → UInt8)
    (hlog : Log nBytes s.flash s.segMap c) (hlive : Live nBytes s.segMap c live)
    (hmove : s.segMap.isPageOffsetOverflowing = true → CanMove nBytes s) :
    wp (moveAtSegmentEnd (checkpointWriter data nBytes))
      (fun r t => ∃ c', Log nBytes t.flash t.segMap c' ∧ Live nBytes t.segMap c' live ∧
        (r.2 = true → r.1 = 0 → HeaderWritten data nBytes s.segMap.sequenceNum t.segMap c' ∧
          Unmarked t.segMap c') ∧
        (r.2 = false → t = s ∧ c' = c) ∧ LogKept live s c t c' ∧
        ((s.segMap.isPageOffsetOverflowing = true → s.MoveSpares) → KeepsSpared s t)) E s := by
  unfold moveAtSegmentEnd
  rw [wp_bind, wp_getSegMap]
  refine wp_ite (fun hover => ?_) fun _ => ?_
  · have hcan := hmove hover
    refine wp_seq (moveToNextSegment_spec hE hlog hlive hcan (hcan.segmentEnd hlog hover)) ?_
    rintro r t ⟨c', hlog', hlive', hheader, hkept, hspared⟩
    exact ⟨c', hlog', hlive', fun _ => hheader, fun hno => absurd hno.symm Bool.false_ne_true, hkept,
      fun hwear => hspared (hwear hover)⟩
  · exact ⟨c, hlog, hlive, fun hno => absurd hno Bool.false_ne_true, fun _ => ⟨rfl, rfl⟩, .refl s c,
      fun _ => .refl s⟩

/-- The search for the next free page: the live pages stay so, and if it succeeds a page can
be written, in the segment where it began or behind the header of another one.  A segment is
full only if none of its pages was marked since it was opened. -/
theorem CopyMedia.findNextFreePageLoop_spec {d : CopyMedia} (hd : d.wear.Sound) {c : Contents}
    {data : Nat → UInt8} (n : Nat) (moved : Bool) (hlog : Log nBytes s.flash s.segMap c)
    (hlive : Live nBytes s.segMap c live) (hmoved : moved = true → Unmarked s.segMap c)
    (hmove : ∀ v, d.MovesAt (checkpointWriter data nBytes) 0 n moved s v → CanMove nBytes v) :
    wp (d.findNextFreePageLoop (checkpointWriter data nBytes) 0 n moved)
      (fun r t => ∃ c', Log nBytes t.flash t.segMap c' ∧ Live nBytes t.segMap c' live ∧
        LogKept live s c t c' ∧ (r.1 = 0 → HeadReady t.flash t.segMap c' ∧
          Searched data nBytes n moved r.2 s.segMap c t.segMap c') ∧
        ((∀ v, d.MovesAt (checkpointWriter data nBytes) 0 n moved s v → v.MoveSpares) →
          KeepsSpared s t)) E s := by
  induction n generalizing s c moved with
  | zero =>
    exact ⟨c, hlog, hlive, .refl s c, fun h0 => absurd (show errorFlashFull = 0 from h0) (by decide),
      fun _ => .refl s⟩
  | succ n ih =>
    unfold CopyMedia.findNextFreePageLoop
    have hfirst := moveAtSegmentEnd_spec hE data hlog hlive fun hover =>
      hmove s (.now hover)
    rw [← hd.moveAtSegmentEnd_eq] at hfirst
    rw [wp_bind]
    cases hrun : d.wear.moveAtSegmentEnd (checkpointWriter data nBytes) s with
    | error e t => exact (wp_error_iff hrun).mpr (of_wp_error hfirst hrun)
    | ok r t =>
      obtain ⟨res, isNew⟩ := r
      rw [wp_ok_iff hrun]
      obtain ⟨ct, hlogt, hlivet, hheader, hsame, hkeptt, hspart⟩ := of_wp_ok hfirst hrun
      have hspart : (∀ v, d.MovesAt (checkpointWriter data nBytes) 0 (n + 1) moved s v →
          v.MoveSpares) → KeepsSpared s t := fun hwear => hspart fun hover => hwear s (.now hover)
      refine wp_ite (fun hres => ⟨ct, hlogt, hlivet, hkeptt, fun h0 => absurd h0 hres, hspart⟩)
        fun hres => ?_
      obtain rfl : res = 0 := not_not.mp hres
      have hunmarked : (moved || isNew) = true → Unmarked t.segMap ct := by
        intro hany
        cases isNew with
        | false =>
          obtain ⟨rfl, rfl⟩ := hsame rfl
          rw [Bool.or_false] at hany
          exact hmoved hany
        | true => exact (hheader rfl rfl).2
      -- what the rest of the search comes to is what the search does
      have hsearched : ∀ {r : Nat × Bool} {u v : World} {cu cv : Contents},
          Continued t.segMap ct u.segMap cu →
          Searched data nBytes n (moved || isNew) r.2 u.segMap cu v.segMap cv →
          Searched data nBytes (n + 1) moved r.2 s.segMap c v.segMap cv := by
        intro r u v cu cv hcont hs
        cases isNew with
        | false =>
          obtain ⟨rfl, rfl⟩ := hsame rfl
          rw [Bool.or_false] at hs
          exact hcont.searched hs
        | true =>
          rw [Bool.or_true] at hs
          exact (hheader rfl rfl).1.searched hcont hs
      have hsearch := d.valid.nextFreeInSegment_spec hE pagesPerSlot hlogt hlivet
      rw [wp_bind]
      cases hnext : d.valid.nextFreeInSegment 0 pagesPerSlot t with
      | error e u => exact (wp_error_iff hnext).mpr (of_wp_error hsearch hnext)
      | ok r u =>
        rw [wp_ok_iff hnext]
        obtain ⟨cu, hlogu, hliveu, hready, hcont, hkeptu, hsparu⟩ := of_wp_ok hsearch hnext
        cases r with
        | some res =>
          refine ⟨cu, hlogu, hliveu, hkeptt.trans hkeptu,
            fun h0 => ⟨hready (congrArg some h0), ?_⟩, fun hwear => (hspart hwear).trans hsparu⟩
          exact hsearched (r := (res, moved || isNew)) hcont (.inl ⟨rfl, .refl _ _⟩)
        | none =>
          -- the segment is full: the next round
          have hclean : (moved || isNew) = true → Unmarked u.segMap cu := fun hany =>
            hkeptu.unmarked (hunmarked hany) hcont.segment
          have hround : ∀ {u' : World}, u'.flash = u.flash → u'.segMap = u.segMap →
              LogKept live u cu u' cu →
              (∀ v, d.MovesAt (checkpointWriter data nBytes) 0 n (moved || isNew) u' v →
                d.MovesAt (checkpointWriter data nBytes) 0 (n + 1) moved s v) →
              wp (d.findNextFreePageLoop (checkpointWriter data nBytes) 0 n (moved || isNew))
                (fun r t => ∃ c', Log nBytes t.flash t.segMap c' ∧ Live nBytes t.segMap c' live ∧
                  LogKept live s c t c' ∧ (r.1 = 0 → HeadReady t.flash t.segMap c' ∧
                    Searched data nBytes (n + 1) moved r.2 s.segMap c t.segMap c') ∧
                  ((∀ v, d.MovesAt (checkpointWriter data nBytes) 0 (n + 1) moved s v →
                    v.MoveSpares) → KeepsSpared s t)) E u' := by
            intro u' hflash hmap hkept' hlater
            refine wp_mono (ih (s := u') (moved || isNew) (by rw [hflash, hmap]; exact hlogu)
              (by rw [hmap]; exact hliveu) (fun hany => by rw [hmap]; exact hclean hany)
              fun v hv => hmove v (hlater v hv)) (fun r v hv => ?_) fun _ _ he => he
            obtain ⟨cv, hlogv, hlivev, hkeptv, hok, hsparv⟩ := hv
            rw [hmap] at hok
            refine ⟨cv, hlogv, hlivev, hkeptt.trans (hkeptu.trans (hkept'.trans hkeptv)),
              fun h0 => ⟨(hok h0).1, hsearched hcont (hok h0).2⟩, fun hwear hs => ?_⟩
            refine hsparv (fun v hv => hwear v (hlater v hv)) ?_
            rw [hflash, hmap]
            exact hsparu (hspart hwear hs)
          refine wp_ite (fun hm => ?_) fun hm => ?_
          · rw [wp_bind, wp_getSegMap, wp_bind]
            refine hround rfl rfl (.setLevel (show obsCountFull ≤ obsCountFull by decide)
              (.write (by decide) rfl) rfl (hclean hm)) fun v hv => .later hrun hnext ?_ hv
            rw [if_pos hm]
            rfl
          · refine hround rfl rfl (.refl u cu) fun v hv => .later hrun hnext ?_ hv
            rw [if_neg hm]
            rfl

end Steps

/-! ## Writing a page -/

/-- `allocAndWriteBlock` writes nothing: the flash is full, or there was no reserve erase unit
for the head. -/
def World.Refuses (w : World) : Prop :=
  isFlashFull w.obsCountersMap = true ∨
    w.segMap.isEuReserve = true ∧ w.segMap.reserveEuAddr = phyAddressEmpty

/-- The buffer that is written, but for the VOTs flag and the previous address. -/
def allocatedPage (data : Page) (isCommit : IsCommit) : Page :=
  { data with flags := if isCommit = .not then initFlags else data.flags }

/-- The page with the VOTs flag and the previous address of a write. -/
def Page.linked (page : Page) (onlyVOTs : Bool) (prev : LogAddr) : Page :=
  { page with flags := { page.flags with vots := page.flags.vots || onlyVOTs, prev := prev } }

/-- A block that is not the last of a commit is written as one that is, and then the next free
page is searched. -/
theorem CopyMedia.allocAndWriteBlock_search (d : CopyMedia) {isCommit : IsCommit}
    (hc : isCommit ≠ .last) (logAddr : LogAddr) (data : Page) (onlyVOTs : Bool) (prev : LogAddr)
    (cpWriter : CheckpointWriter) :
    d.allocAndWriteBlock logAddr data onlyVOTs prev cpWriter isCommit = (do
      let r ← NandFs.allocAndWriteBlock logAddr (allocatedPage data isCommit) onlyVOTs prev
        cpWriter .last
      if r.err ≠ 0 then pure r
      else do
        let (res, cpWritten) ←
          d.findNextFreePage cpWriter (if r.logAddr.segment = noSegmentNum then 1 else 0)
        pure ⟨res, r.logAddr, cpWritten⟩) := by
  have hflags : (if IsCommit.last = IsCommit.not then initFlags
      else (allocatedPage data isCommit).flags) = (allocatedPage data isCommit).flags :=
    if_neg (by decide)
  funext w
  unfold CopyMedia.allocAndWriteBlock NandFs.allocAndWriteBlock
  rw [bind_assoc, hflags]
  rw [bind_ok (show (get : SeqM World) w = .ok w w from rfl),
    bind_ok (show (get : SeqM World) w = .ok w w from rfl)]
  by_cases hfull : isFlashFull w.obsCountersMap = true
  · rw [if_pos hfull, if_pos hfull]
    rfl
  rw [if_neg hfull, if_neg hfull]
  by_cases hno : w.segMap.isEuReserve = true ∧ w.segMap.reserveEuAddr = phyAddressEmpty
  · rw [if_pos hno, if_pos hno]
    rfl
  rw [if_neg hno, if_neg hno]
  simp only [bind_assoc]
  refine congrFun (bind_congr fun target => bind_congr fun written => bind_congr fun m => ?_) w
  -- the write is the same, and so is what the counts and the map become
  by_cases hrec : (!m.isStateReclamation) = true
  · simp only [if_pos hrec, bind_assoc, if_neg hc, if_true, pure_bind, ne_eq, not_true_eq_false,
      if_false]
  · simp only [if_neg hrec, bind_assoc, if_neg hc, if_true, pure_bind, ne_eq, not_true_eq_false,
      if_false]

/-- A last page of a commit is written as on the chip: nothing is searched after it. -/
theorem CopyMedia.allocAndWriteBlock_last (d : CopyMedia) (logAddr : LogAddr) (data : Page)
    (onlyVOTs : Bool) (prev : LogAddr) (cpWriter : CheckpointWriter) :
    d.allocAndWriteBlock logAddr data onlyVOTs prev cpWriter .last =
      NandFs.allocAndWriteBlock logAddr data onlyVOTs prev cpWriter .last := by
  unfold CopyMedia.allocAndWriteBlock NandFs.allocAndWriteBlock
  simp only [if_true]

section Writes
variable {E : Halt → World → Prop} (hE : ∀ t, E .powerLoss t) {s : World} {nBytes : Nat}
  {live : LogAddr → Option Block} {logAddr prev : LogAddr} {onlyVOTs : Bool}
  {cpWriter : CheckpointWriter}

include hE

/-- A page is written at the head. -/
theorem wp_allocLast {c : Contents} {page : Page} {Q : AllocResult → World → Prop}
    (hlog : Log nBytes s.flash s.segMap c) (hlive : Live nBytes s.segMap c live)
    (hcan : ¬s.Refuses → CanWrite live s) (hcb : page.flags.copyBack = false)
    (hobs : page.flags.obsolete = false)
    (hrefuse : ∀ r : AllocResult, r.err ≠ 0 → Q r s)
    (hq : CanWrite live s → ∀ t c', t.segMap = s.segMap.incrementReclaimedOffset →
      c' = c.set s.segMap.newSlotId s.segMap.headOffset (page.linked onlyVOTs prev).stored →
      Log nBytes t.flash t.segMap c' → Live nBytes t.segMap c' live → LogKept live s c t c' →
      KeepsSpared s t → Q ⟨0, s.segMap.reclaimed, false⟩ t) :
    wp (allocAndWriteBlock logAddr page onlyVOTs prev cpWriter .last) Q E s := by
  unfold allocAndWriteBlock
  rw [wp_bind, wp_get]
  refine wp_ite (fun _ => hrefuse _ (show errorFlashFull ≠ 0 by decide)) fun hfull => ?_
  refine wp_ite (fun _ => hrefuse _ (show errorNoReserveEu ≠ 0 by decide)) fun hno => ?_
  have hcan := hcan (not_or_intro hfull hno)
  have ho := hcan.lt
  rw [wp_bind, wp_ok_iff (hlog.head.target_run hcan.placed), wp_bind]
  refine wp_writeBlock hE hlog.head hcan.placed ho hcb fun t hon ht => ?_
  have hm := hon.segMap
  have hlog' := hlog.advance hcan.opened ho hon ht
  have hnone : ∀ b, live s.segMap.reclaimed = some b → False := by
    intro b hb
    rw [hcan.free] at hb
    exact absurd hb (Option.some_ne_none b).symm
  have hlive' : Live nBytes t.segMap.incrementReclaimedOffset
      (c.set s.segMap.newSlotId s.segMap.headOffset (page.linked onlyVOTs prev).stored) live := by
    rw [hm]
    exact hlive.write hlog.segments ho fun b hb => (hnone b hb).elim
  -- only the levels of the counters are looked at
  have hdone : ∀ u : World, u.flash = t.flash → u.segMap = t.segMap.incrementReclaimedOffset →
      u.obsCountersMap.counters = t.obsCountersMap.counters →
      Q ⟨0, s.segMap.reclaimed, false⟩ u := by
    intro u hflash hmap hcount
    have hm' : u.segMap = s.segMap.incrementReclaimedOffset := by rw [hmap, hm]
    refine hq hcan u _ hm' rfl (by rw [hflash, hmap]; exact hlog') (by rw [hmap]; exact hlive') ?_
      (hon.keepsSpared hcan.opened hflash hmap)
    refine .write hlog.segments hlive ho hobs (fun b hb => (hnone b hb).elim) hm' ?_
    rw [hcount, hon.obsCountersMap]
  rw [wp_bind, wp_getSegMap]
  refine wp_ite (fun _ => ?_) fun _ => ?_
  · rw [wp_bind]
    refine wp_addFreeCount _ fun u hflash hmap hcount => ?_
    rw [wp_bind, wp_modifySegMap, if_pos rfl, wp_pure]
    exact hdone _ hflash (congrArg SegMap.incrementReclaimedOffset hmap) hcount
  · rw [wp_bind, wp_modifySegMap, if_pos rfl, wp_pure]
    exact hdone _ rfl rfl rfl

omit hE in
/-- What is live is still kept when less is to be kept. -/
theorem KeepsLive.mono {live' : LogAddr → Option Block} (h : KeepsLive nBytes live' s)
    (hsub : ∀ a b, live a = some b → live' a = some b) : KeepsLive nBytes live s := by
  obtain ⟨c, hlog, hlive⟩ := h
  exact ⟨c, hlog, fun a b hab => hlive a b (hsub a b hab)⟩

end Writes

/-- `AllocMovesAt logAddr page onlyVOTs prev cpWriter w v`: once `page` is written from `w` on,
the search for the next free page moves to another segment in the state `v`. -/
def AllocMovesAt (logAddr : LogAddr) (page : Page) (onlyVOTs : Bool) (prev : LogAddr)
    (cpWriter : CheckpointWriter) (w v : World) : Prop :=
  ∃ r t, allocAndWriteBlock logAddr page onlyVOTs prev cpWriter .last w = .ok r t ∧ r.err = 0 ∧
    MovesAt cpWriter 0 segmentsCount false t v

/-- As `AllocMovesAt`, on media that may fail. -/
def CopyMedia.AllocMovesAt (d : CopyMedia) (logAddr : LogAddr) (page : Page) (onlyVOTs : Bool)
    (prev : LogAddr) (cpWriter : CheckpointWriter) (w v : World) : Prop :=
  ∃ r t, NandFs.allocAndWriteBlock logAddr page onlyVOTs prev cpWriter .last w = .ok r t ∧
    r.err = 0 ∧ d.MovesAt cpWriter 0 segmentsCount false t v

theorem CopyMedia.AllocMovesAt.of_sound {d : CopyMedia} (hd : d.Sound) {logAddr prev : LogAddr}
    {page : Page} {onlyVOTs : Bool} {cpWriter : CheckpointWriter} {w v : World}
    (h : d.AllocMovesAt logAddr page onlyVOTs prev cpWriter w v) :
    NandFs.AllocMovesAt logAddr page onlyVOTs prev cpWriter w v := by
  obtain ⟨r, t, halloc, herr, hv⟩ := h
  exact ⟨r, t, halloc, herr, hv.of_sound hd⟩

/-- What `allocAndWriteBlock` comes to, where it writes `st` at the head of `s`: the pages live
before stay so.  If it succeeds so are those of `live'`, with the one that was written, and the
next page can be written, in the segment of `s` or behind the header of another one. -/
def Allocated (data : Nat → UInt8) (nBytes : Nat) (live live' : LogAddr → Option Block) (s : World)
    (c : Contents) (st : Stored) (r : AllocResult) (t : World) : Prop :=
  ∃ c', Log nBytes t.flash t.segMap c' ∧ Live nBytes t.segMap c' live ∧ LogKept live s c t c' ∧
    (r.err = 0 → CanWrite live s ∧ r.logAddr = s.segMap.reclaimed ∧
      Live nBytes t.segMap c' live' ∧ CanWrite live' t ∧
      (∀ b, live' s.segMap.reclaimed = some b →
        t.segMap.stored c' s.segMap.reclaimed = some st) ∧
      Searched data nBytes segmentsCount false r.cpWritten s.segMap.incrementReclaimedOffset
        (c.set s.segMap.newSlotId s.segMap.headOffset st) t.segMap c')

section Allocate
variable {E : Halt → World → Prop} (hE : ∀ t, E .powerLoss t) {s : World} {nBytes : Nat}
  {live : LogAddr → Option Block} (live' : LogAddr → Option Block) {logAddr prev : LogAddr}
  {onlyVOTs : Bool} {data : Nat → UInt8} {c : Contents}

include hE

/-- A block is written and the next free page found: the pages live before stay so, and with
them the one just written, if it is among `live'`. -/
theorem CopyMedia.wp_alloc {d : CopyMedia} (hd : d.wear.Sound) {page : Page}
    {isCommit : IsCommit} (hc : isCommit ≠ .last) (hlog : Log nBytes s.flash s.segMap c)
    (hlive : Live nBytes s.segMap c live) (hcan : ¬s.Refuses → CanWrite live s)
    (hcb : (allocatedPage page isCommit).flags.copyBack = false)
    (hobs : (allocatedPage page isCommit).flags.obsolete = false)
    (hsub : ∀ a b, live a = some b → live' a = some b)
    (hnew : ∀ a b, live' a = some b → live a = some b ∨ a = s.segMap.reclaimed ∧
      (allocatedPage page isCommit).stored.Valid b)
    (hmove : ∀ v, d.AllocMovesAt logAddr (allocatedPage page isCommit) onlyVOTs prev
      (checkpointWriter data nBytes) s v → CanMove nBytes v) :
    wp (d.allocAndWriteBlock logAddr page onlyVOTs prev (checkpointWriter data nBytes) isCommit)
      (fun r t => Allocated data nBytes live live' s c
          ((allocatedPage page isCommit).linked onlyVOTs prev).stored r t ∧
        ((∀ v, d.AllocMovesAt logAddr (allocatedPage page isCommit) onlyVOTs prev
          (checkpointWriter data nBytes) s v → v.MoveSpares) → KeepsSpared s t)) E s := by
  rw [d.allocAndWriteBlock_search hc]
  have hwrite : wp (NandFs.allocAndWriteBlock logAddr (allocatedPage page isCommit) onlyVOTs prev
      (checkpointWriter data nBytes) .last) (fun r t => r.err ≠ 0 ∧ t = s ∨
        r = ⟨0, s.segMap.reclaimed, false⟩ ∧ CanWrite live s ∧
          t.segMap = s.segMap.incrementReclaimedOffset ∧ ∃ ct,
          ct = c.set s.segMap.newSlotId s.segMap.headOffset
            ((allocatedPage page isCommit).linked onlyVOTs prev).stored ∧
          Log nBytes t.flash t.segMap ct ∧ Live nBytes t.segMap ct live' ∧
          LogKept live s c t ct ∧ KeepsSpared s t ∧ t.segMap.stored ct s.segMap.reclaimed =
            some ((allocatedPage page isCommit).linked onlyVOTs prev).stored) E s := by
    refine wp_allocLast hE hlog hlive hcan hcb hobs (fun r hr => .inl ⟨hr, rfl⟩)
      fun hw t ct hm hct hlog' hlive₁ hkept hspared =>
        .inr ⟨rfl, hw, hm, ct, hct, hlog', ?_, hkept, hspared, ?_⟩
    · intro a b hab
      rcases hnew a b hab with hold | ⟨rfl, hpage⟩
      · exact hlive₁ a b hold
      · have hcur := hlog.segments.phase.current_lt
        have hvalid : ((allocatedPage page isCommit).linked onlyVOTs prev).stored.Valid b :=
          ⟨hpage.main, hpage.obsolete, hpage.checkpoint⟩
        refine ⟨?_, hlog.opened.resolve_left hw.opened, hw.lt, _, ?_, hvalid⟩
        · rw [hm, incrementReclaimedOffset_eq hw.lt]
          exact hcur
        · rw [hm, hct, hlog.segments.stored_write hw.lt hcur, if_pos rfl]
    · rw [hm, hct, hlog.segments.stored_write hw.lt hlog.segments.phase.current_lt, if_pos rfl]
  rw [wp_bind]
  cases hrun : NandFs.allocAndWriteBlock logAddr (allocatedPage page isCommit) onlyVOTs prev
      (checkpointWriter data nBytes) .last s with
  | error e t => exact (wp_error_iff hrun).mpr (of_wp_error hwrite hrun)
  | ok r t =>
    rw [wp_ok_iff hrun]
    rcases of_wp_ok hwrite hrun with
      ⟨herr, rfl⟩ | ⟨rfl, hw, hm, ct, hct, hlog', hlive', hkept, hspared, hstored⟩
    · rw [if_pos herr]
      exact ⟨⟨c, hlog, hlive, .refl _ c, fun h0 => absurd h0 herr⟩, fun _ => .refl t⟩
    · rw [if_neg (not_not_intro rfl), if_neg hlog.segment_ne]
      refine wp_seq (findNextFreePageLoop_spec hE hd segmentsCount false hlog' hlive'
        (fun hno => absurd hno Bool.false_ne_true) fun v hv => hmove v ⟨_, t, hrun, rfl, hv⟩)
        fun r u hu => ?_
      obtain ⟨cu, hlogu, hliveu, hkeptu, hok, hspar⟩ := hu
      refine ⟨⟨cu, hlogu, fun a b hab => hliveu a b (hsub a b hab), hkept.trans (hkeptu.mono hsub),
        fun h0 => ?_⟩, fun hwear => hspared.trans (hspar fun v hv => hwear v ⟨_, t, hrun, rfl, hv⟩)⟩
      obtain ⟨hready, hsearched⟩ := hok h0
      rw [hm, hct] at hsearched
      refine ⟨hw, rfl, hliveu, hready.canWrite hlogu hliveu, fun b hb => ?_, hsearched⟩
      rw [hkeptu.pages _ b hb, hstored]

end Allocate

/-! ## Checkpoints -/

/-- The state once a checkpoint page is counted as free. -/
def World.counted (w : World) : World :=
  { w with obsCountersMap := { w.obsCountersMap with
      freeCounter := (w.obsCountersMap.freeCounter + 1) % 2 ^ 32 } }

/-- `CommitMovesAt cpWriter data nBytes n idx w v`: a commit that writes `n` more pages, from
page `idx` on, moves to another segment in the state `v`. -/
inductive CommitMovesAt (cpWriter : CheckpointWriter) (data : Nat → UInt8) (nBytes : Nat) :
    Nat → Nat → World → World → Prop
  | now {n idx : Nat} {w v : World}
      (h : AllocMovesAt LogAddr.empty (checkpointPage w.counted data nBytes idx) false
        LogAddr.empty cpWriter w.counted v) :
      CommitMovesAt cpWriter data nBytes (n + 2) idx w v
  | later {n idx : Nat} {w t v : World} {r : AllocResult}
      (alloc : allocAndWriteBlock LogAddr.empty (checkpointPage w.counted data nBytes idx) false
        LogAddr.empty cpWriter .regular w.counted = .ok r t)
      (ok : r.err = 0) (goesOn : r.cpWritten = false)
      (h : CommitMovesAt cpWriter data nBytes (n + 1) (idx + 1) t v) :
      CommitMovesAt cpWriter data nBytes (n + 2) idx w v

/-- As `CommitMovesAt`, on media that may fail. -/
inductive CopyMedia.CommitMovesAt (d : CopyMedia) (cpWriter : CheckpointWriter)
    (data : Nat → UInt8) (nBytes : Nat) : Nat → Nat → World → World → Prop
  | now {n idx : Nat} {w v : World}
      (h : d.AllocMovesAt LogAddr.empty (checkpointPage w.counted data nBytes idx) false
        LogAddr.empty cpWriter w.counted v) :
      CopyMedia.CommitMovesAt d cpWriter data nBytes (n + 2) idx w v
  | later {n idx : Nat} {w t v : World} {r : AllocResult}
      (alloc : d.allocAndWriteBlock LogAddr.empty (checkpointPage w.counted data nBytes idx) false
        LogAddr.empty cpWriter .regular w.counted = .ok r t)
      (ok : r.err = 0) (goesOn : r.cpWritten = false)
      (h : CopyMedia.CommitMovesAt d cpWriter data nBytes (n + 1) (idx + 1) t v) :
      CopyMedia.CommitMovesAt d cpWriter data nBytes (n + 2) idx w v

theorem CopyMedia.CommitMovesAt.of_sound {d : CopyMedia} (hd : d.Sound)
    {cpWriter : CheckpointWriter} {data : Nat → UInt8} {nBytes n idx : Nat} {w v : World}
    (h : d.CommitMovesAt cpWriter data nBytes n idx w v) :
    NandFs.CommitMovesAt cpWriter data nBytes n idx w v := by
  induction h with
  | now h => exact .now (h.of_sound hd)
  | later alloc ok goesOn _ ih =>
    rw [hd.allocAndWriteBlock_eq] at alloc
    exact .later alloc ok goesOn ih

/-- The flags of a write belong to no checkpoint. -/
theorem Stored.IsCheckpointPage.linked {page : Page} {data : Nat → UInt8} {nBytes idx : Nat}
    {onlyVOTs : Bool} {prev : LogAddr} (h : page.stored.IsCheckpointPage data nBytes idx) :
    (page.linked onlyVOTs prev).stored.IsCheckpointPage data nBytes idx :=
  ⟨h.checkpoint, h.data⟩

section Commit
variable {E : Halt → World → Prop} (hE : ∀ t, E .powerLoss t) {s : World} {nBytes : Nat}
  {live : LogAddr → Option Block} {data upper : Nat → UInt8}

include hE

/-- The last page of a checkpoint. -/
theorem wp_lastPage (upper : Nat → UInt8) (first : SegMap) {c : Contents} {page : Page}
    {offs : Nat → Nat} {idx : Nat} {cpWriter : CheckpointWriter} (hlog : Log nBytes s.flash s.segMap c)
    (hlive : Live nBytes s.segMap c live) (hcan : ¬s.Refuses → CanWrite live s)
    (hcb : page.flags.copyBack = false) (hobs : page.flags.obsolete = false)
    (hpage : page.stored.IsCheckpointPage data nBytes idx)
    (hidx : idx + 1 = checkpointPages nBytes) (hsaved : Saved data nBytes idx offs s.segMap c)
    (hbehind : ∀ i < idx, first.headOffset ≤ offs i)
    (hhead : first.headOffset ≤ s.segMap.headOffset)
    (hnumber : s.segMap.sequenceNum = first.sequenceNum) :
    wp (allocAndWriteBlock LogAddr.empty page false LogAddr.empty cpWriter .last)
      (fun r t => ∃ c', Log nBytes t.flash t.segMap c' ∧ Live nBytes t.segMap c' live ∧
        LogKept live s c t c' ∧ KeepsSpared s t ∧
        (r.err = 0 → r.cpWritten = false ∧ Committed data upper nBytes first t.segMap c')) E s := by
  refine wp_allocLast hE hlog hlive hcan hcb hobs
    (fun r hr => ⟨c, hlog, hlive, .refl s c, .refl s, fun h0 => absurd h0 hr⟩)
    fun hw t c' hm hc' hlog' hlive' hkept hspared =>
      ⟨c', hlog', hlive', hkept, hspared, fun _ => ⟨rfl, ?_⟩⟩
  rw [hm, hc']
  refine .here hnumber ?_ (hsaved.newest hidx hw.opened hw.lt hpage.linked)
  by_cases h0 : idx = 0
  · rw [h0, Function.update_self]
    exact hhead
  · rw [Function.update_of_ne (Ne.symm h0)]
    exact hbehind 0 (Nat.pos_of_ne_zero h0)

/-- The pages of a checkpoint. -/
theorem CopyMedia.commitPages_spec {d : CopyMedia} (hd : d.wear.Sound) {c : Contents}
    {offs : Nat → Nat} {first : SegMap} (n idx : Nat) (hlog : Log nBytes s.flash s.segMap c)
    (hlive : Live nBytes s.segMap c live) (hcan : ¬s.counted.Refuses → CanWrite live s)
    (hidx : idx + n = checkpointPages nBytes) (hn : n ≠ 0)
    (hsaved : Saved data nBytes idx offs s.segMap c)
    (hbehind : ∀ i < idx, first.headOffset ≤ offs i)
    (hhead : first.headOffset ≤ s.segMap.headOffset)
    (hnumber : s.segMap.sequenceNum = first.sequenceNum)
    (hmove : ∀ v, d.CommitMovesAt (checkpointWriter upper nBytes) data nBytes n idx s v →
      CanMove nBytes v) :
    wp (d.commitPages (checkpointWriter upper nBytes) data nBytes n idx)
      (fun r t => ∃ c', Log nBytes t.flash t.segMap c' ∧ Live nBytes t.segMap c' live ∧
        LogKept live s c t c' ∧ (r = 0 → Committed data upper nBytes first t.segMap c') ∧
        ((∀ v, d.CommitMovesAt (checkpointWriter upper nBytes) data nBytes n idx s v →
          v.MoveSpares) → KeepsSpared s t)) E s := by
  induction n generalizing s c offs idx with
  | zero => exact absurd rfl hn
  | succ n ih =>
    have hcan' : ¬s.counted.Refuses → CanWrite live s.counted := fun hno => by
      obtain ⟨h1, h2, h3, h4⟩ := hcan hno
      exact ⟨h1, h2, h3, h4⟩
    have hpage := isCheckpointPage_checkpointPage s.counted data nBytes idx
    unfold CopyMedia.commitPages
    have hcounted : LogKept live s c s.counted c := .of_eq rfl rfl rfl
    rw [wp_bind, incrementFreeCount, addFreeCount, modifyObsCounters, wp_modify, wp_bind, wp_get]
    rw [wp_bind]
    show wp (d.allocAndWriteBlock LogAddr.empty (checkpointPage s.counted data nBytes idx) false
      LogAddr.empty (checkpointWriter upper nBytes) _) _ E s.counted
    cases n with
    | zero =>
      rw [if_pos rfl, d.allocAndWriteBlock_last]
      refine wp_mono (wp_lastPage hE (s := s.counted) upper first hlog hlive hcan' rfl rfl hpage
        hidx hsaved hbehind hhead hnumber) (fun r t ht => ?_) fun _ _ he => he
      obtain ⟨c', hlog', hlive', hkept, hspared, hok⟩ := ht
      have hkept := hcounted.trans hkept
      refine wp_ite (fun _ => ⟨c', hlog', hlive', hkept, fun h0 => absurd h0 Nat.one_ne_zero,
        fun _ => hspared⟩) fun herr => ?_
      obtain ⟨hcp, hdone⟩ := hok (not_not.mp herr)
      rw [hcp, if_neg Bool.false_ne_true]
      exact ⟨c', hlog', hlive', hkept, fun _ => hdone, fun _ => hspared⟩
    | succ n =>
      rw [if_neg (Nat.succ_ne_zero n)]
      have hone : wp (d.allocAndWriteBlock LogAddr.empty (checkpointPage s.counted data nBytes idx)
          false LogAddr.empty (checkpointWriter upper nBytes) .regular)
          (fun r t => Allocated upper nBytes live live s.counted c
              ((checkpointPage s.counted data nBytes idx).linked false LogAddr.empty).stored r t ∧
            ((∀ v, d.AllocMovesAt LogAddr.empty (checkpointPage s.counted data nBytes idx) false
              LogAddr.empty (checkpointWriter upper nBytes) s.counted v → v.MoveSpares) →
              KeepsSpared s.counted t)) E s.counted :=
        CopyMedia.wp_alloc hE live hd (by decide) hlog hlive hcan' rfl rfl (fun _ _ hab => hab)
          (fun _ _ hab => .inl hab) fun v hv => hmove v (.now hv)
      cases hrun : d.allocAndWriteBlock LogAddr.empty (checkpointPage s.counted data nBytes idx) false
          LogAddr.empty (checkpointWriter upper nBytes) .regular s.counted with
      | error e t => exact (wp_error_iff hrun).mpr (of_wp_error hone hrun)
      | ok r t =>
        obtain ⟨⟨c', hlog', hlive', hkept, hok⟩, hspared⟩ := of_wp_ok hone hrun
        have hkept := hcounted.trans hkept
        have hspared : (∀ v, d.CommitMovesAt (checkpointWriter upper nBytes) data nBytes (n + 2) idx
            s v → v.MoveSpares) → KeepsSpared s t := fun hwear =>
          hspared fun v hv => hwear v (.now hv)
        refine (wp_ok_iff hrun).mpr (wp_ite (fun _ => ?_) fun herr => ?_)
        · exact ⟨c', hlog', hlive', hkept, fun h0 => absurd h0 Nat.one_ne_zero, hspared⟩
        have herr : r.err = 0 := not_not.mp herr
        obtain ⟨hw, -, -, hwrite, -, hsearched⟩ := hok herr
        have hinc := incrementReclaimedOffset_eq hw.lt
        refine wp_ite (fun hcp => ⟨c', hlog', hlive', hkept, fun _ => ?_, hspared⟩) fun hcp => ?_
        · -- a header was written on the way, with a checkpoint in it
          rcases hsearched with ⟨hno, -⟩ | ⟨-, hr⟩
          · rw [hcp] at hno
            exact absurd hno.symm Bool.false_ne_true
          · rw [show s.counted.segMap.incrementReclaimedOffset.sequenceNum = first.sequenceNum from
              hnumber] at hr
            exact .reopened hr
        · rcases hsearched with ⟨-, hcont⟩ | ⟨hyes, -⟩
          · have hoff : s.segMap.headOffset + 1 ≤ t.segMap.headOffset := by
              have hle := hcont.le
              rw [hinc] at hle
              exact hle
            refine wp_mono (ih (idx + 1) hlog' hlive' (fun _ => hwrite) (by omega)
              (Nat.succ_ne_zero n) ((hsaved.write hw.opened hw.lt hpage.linked).continued hcont)
              (fun i hi => ?_) (by omega) (hcont.sequenceNum.trans hnumber) fun v hv =>
                hmove v (.later hrun herr (Bool.eq_false_of_not_eq_true hcp) hv))
              (fun r u hu => ?_) fun _ _ he => he
            · rcases Nat.lt_succ_iff_lt_or_eq.mp hi with hlt | rfl
              · rw [Function.update_of_ne (by omega)]
                exact hbehind i hlt
              · rw [Function.update_self]
                exact hhead
            · obtain ⟨cu, hlogu, hliveu, hkeptu, hdone, hsparu⟩ := hu
              exact ⟨cu, hlogu, hliveu, hkept.trans hkeptu, hdone, fun hwear =>
                (hspared hwear).trans (hsparu fun v hv => hwear v
                  (.later hrun herr (Bool.eq_false_of_not_eq_true hcp) hv))⟩
          · exact absurd hyes hcp

/-- `commit` keeps every live page, and if it returns 0 its checkpoint, or that of a header it
wrote on the way, is the newest of the log. -/
theorem CopyMedia.commit_spec {d : CopyMedia} (hd : d.wear.Sound) {c : Contents}
    (hlog : Log nBytes s.flash s.segMap c) (hlive : Live nBytes s.segMap c live)
    (hcan : ¬s.counted.Refuses → CanWrite live s)
    (hmove : ∀ v, pageSize ≤ seqCheckpointSize + nBytes →
      d.CommitMovesAt (checkpointWriter upper nBytes) data nBytes
        (calculateInPages (seqCheckpointSize + nBytes)) 0 s v → CanMove nBytes v) :
    wp (d.commit (checkpointWriter upper nBytes) data nBytes)
      (fun r t => ∃ c', Log nBytes t.flash t.segMap c' ∧ Live nBytes t.segMap c' live ∧
        LogKept live s c t c' ∧
        (r = 0 → Committed data upper nBytes s.segMap t.segMap c') ∧
        ((∀ v, pageSize ≤ seqCheckpointSize + nBytes →
          d.CommitMovesAt (checkpointWriter upper nBytes) data nBytes
            (calculateInPages (seqCheckpointSize + nBytes)) 0 s v → v.MoveSpares) →
          KeepsSpared s t)) E s := by
  have hnone : ∀ i < 0, s.segMap.headOffset ≤ i := fun _ hi => absurd hi (Nat.not_lt_zero _)
  unfold CopyMedia.commit
  refine wp_ite (fun hsize => ?_) fun hsize => ?_
  · refine wp_mono (commitPages_spec hE hd _ _ hlog hlive hcan (Nat.zero_add _)
      (checkpointPages_pos nBytes).ne' (.nothing id) hnone (Nat.le_refl _) rfl fun v hv =>
        hmove v hsize hv) ?_ fun _ _ he => he
    rintro r t ⟨c', hlog', hlive', hkept, hdone, hspared⟩
    exact ⟨c', hlog', hlive', hkept, hdone, fun hwear => hspared fun v hv => hwear v hsize hv⟩
  · have hcan' : ¬s.counted.Refuses → CanWrite live s.counted := fun hno => by
      obtain ⟨h1, h2, h3, h4⟩ := hcan hno
      exact ⟨h1, h2, h3, h4⟩
    have hpage := isCheckpointPage_single s.counted data (Nat.lt_of_not_le hsize)
    unfold NandFs.commit
    rw [if_neg hsize]
    refine wp_ite (fun _ => ?_) fun hno => absurd rfl hno
    rw [wp_bind, incrementFreeCount, addFreeCount, modifyObsCounters, wp_modify, wp_bind, wp_get]
    refine wp_ite (fun hno => absurd hno Bool.false_ne_true) fun _ => ?_
    rw [wp_bind]
    refine wp_mono (wp_lastPage hE (s := s.counted) upper s.segMap hlog hlive hcan' rfl rfl hpage
      (calculateInPages_checkpoint (Nat.lt_of_not_le hsize)).symm (.nothing id) hnone (Nat.le_refl _)
      rfl)
      (fun r t ht => ?_) fun _ _ he => he
    obtain ⟨c', hlog', hlive', hkept, hspared, hok⟩ := ht
    have hcounted : LogKept live s c s.counted c := .of_eq rfl rfl rfl
    refine ⟨c', hlog', hlive', hcounted.trans hkept, fun h0 => (hok ?_).2, fun _ => hspared⟩
    by_contra herr
    rw [if_pos herr] at h0
    exact absurd h0 Nat.one_ne_zero

end Commit

end NandFs
